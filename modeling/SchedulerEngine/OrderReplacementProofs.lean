import SchedulerEngine.OrderOccupationProofs

/-! # The replacement of a distributed order

    A replacement waits for the member that processes the replaced order.  When
    `db_update` or `db_delete` of that member does not find its record any more,
    it makes the replacement executable; the other ways to end the occupation do
    not look for one. -/

namespace OrderReplacement

open RunInvariant DistributedOrder OrderOccupation

variable {s s' : System} {me m h : Nat} {x y : Handle} {key : Key} {o o' : Order} {r r' : Record}
  {record : Option Record}

/-! ## The invariant -/

/-- The object is the one that has occupied the record. -/
structure Owns (o : Order) (key : Key) (r : Record) : Prop where
  key : o.key = key
  occupied : o.isDbOccupied = true
  state : o.occupiedState = some r.state
  original : o.isReplacement = false

/-- A record that waits is attended by an occupied object, and an occupied record
    by its own. -/
structure RecordAttended (s : System) (key : Key) (r : Record) : Prop where
  waits : r.nextTime = .replacement → ∃ x, Occupies s x key
  own : ∀ m, r.occupying = some m → r.nextTime ≠ .replacement ∧ r.orderXml.replacement = false ∧
    ∃ h o, s.orders (m, h) = some o ∧ Owns o key r
  marked : r.orderXml.replacement = true → r.nextTime = .replacement ∨ r.nextTime = .blacklist

def Attended (s : System) : Prop := ∀ key r, s.table key = some r → RecordAttended s key r

/-- A record that is free and no replacement needs no attention. -/
theorem recordAttended_free (hocc : r.occupying = none) (hnext : r.nextTime ≠ .replacement)
    (hxml : r.orderXml.replacement = false) : RecordAttended s key r where
  waits := fun hr => absurd hr hnext
  own := by
    intro m hm
    rw [hocc] at hm
    cases hm
  marked := by
    intro hr
    rw [hxml] at hr
    cases hr

/-- Other objects that are occupied remain so. -/
theorem RecordAttended.mono (hr : RecordAttended s key r)
    (horders : ∀ x o, s.orders x = some o → o.key = key → o.isDbOccupied = true →
      s'.orders x = some o) : RecordAttended s' key r where
  waits := by
    intro hnext
    obtain ⟨x, o, ho, hk, hocc⟩ := hr.waits hnext
    exact ⟨x, o, horders x o ho hk hocc, hk, hocc⟩
  own := by
    intro m hm
    obtain ⟨hnext, hxml, h, o, ho, howns⟩ := hr.own m hm
    exact ⟨hnext, hxml, h, o, horders _ o ho howns.key howns.occupied, howns⟩
  marked := hr.marked

/-- A step that changes the object `x` and the record of its key. -/
theorem Attended.transact (hs : Attended s) (hx : s.orders x = some o)
    (f : Order → Option Record → Order × Option Record)
    (hnew : ∀ r, (f o (s.table o.key)).2 = some r → RecordAttended (s.transact x f) o.key r) :
    Attended (s.transact x f) := by
  intro key r hr
  rw [System.transact_table hx] at hr
  split at hr
  · rename_i heq
    subst heq
    exact hnew r hr
  · rename_i hne
    refine (hs key r hr).mono fun y o' ho' hk _ => ?_
    rw [System.transact_orders_of_ne, ho']
    rintro rfl
    rw [hx] at ho'
    cases ho'
    exact hne hk.symm

/-- An object that was not occupied before was not needed. -/
theorem RecordAttended.of_free (hr : RecordAttended s key r) (hx : s.orders x = some o)
    (ho : o.isDbOccupied = false) (f : Order → Option Record → Order × Option Record) :
    RecordAttended (s.transact x f) key r := by
  refine hr.mono fun y o' ho' _ hocc => ?_
  rw [System.transact_orders_of_ne, ho']
  rintro rfl
  rw [hx] at ho'
  cases ho'
  rw [ho] at hocc
  cases hocc

/-- A transaction that changes nothing. -/
theorem transact_same (hx : s.orders x = some o) {f : Order → Option Record → Order × Option Record}
    (hf : f o (s.table o.key) = (o, s.table o.key)) : s.transact x f = s := by
  have horders : Function.update s.orders x (some o) = s.orders := by
    rw [← hx]
    exact Function.update_eq_self x s.orders
  have htable : Function.update s.table o.key (s.table o.key) = s.table :=
    Function.update_eq_self o.key s.table
  rw [System.transact, hx]
  simp only [System.setOrder, System.setRecord, hf, horders, htable]

/-- The object of the member that has occupied the record. -/
theorem Held.owns (hh : Held s) (hs : Attended s) (hx : s.orders x = some o)
    (ho : o.isDbOccupied = true) (hr : s.table o.key = some r) (hocc : r.occupying = some x.1) :
    Owns o o.key r ∧ r.nextTime ≠ .replacement ∧ r.orderXml.replacement = false := by
  obtain ⟨hnext, hxml, h, o', ho', howns⟩ := (hs o.key r hr).own x.1 hocc
  have heq : (x.1, h) = x :=
    hh.single _ _ o.key ⟨o', ho', howns.key, howns.occupied⟩ ⟨o, hx, rfl, ho⟩
  rw [heq, hx] at ho'
  cases ho'
  exact ⟨howns, hnext, hxml⟩

/-- The own record meets the condition of the statements. -/
theorem Owns.isMine (howns : Owns o key r) (hocc : r.occupying = some m) : isMine m o r = true := by
  simp [DistributedOrder.isMine, hocc, howns.state]

/-! ## What an order writes -/

/-- An order that is no replacement writes none. -/
theorem calculateNextTime_original (h : o.isReplacement = false) :
    o.calculateNextTime ≠ .replacement := by
  have htime : ∀ t, (if t = 0 then nowNextTime
      else if neverInt * 1000 ≤ t then NextTime.never
      else NextTime.at ((t + 999) / 1000)) ≠ .replacement := by
    intro t
    split
    · exact NextTime.noConfusion
    · split <;> exact NextTime.noConfusion
  cases hblack : o.isOnBlacklist with
  | true => simp [Order.calculateNextTime, hblack]
  | false =>
      simp only [Order.calculateNextTime, hblack, h, Bool.false_eq_true, if_false]
      exact htime _

theorem calculateNextTime_replacement (h : o.isReplacement = true) :
    o.calculateNextTime = .replacement ∨ o.calculateNextTime = .blacklist := by
  cases hblack : o.isOnBlacklist with
  | true => exact Or.inr (by simp [Order.calculateNextTime, hblack])
  | false => exact Or.inl (by simp [Order.calculateNextTime, hblack, h])

theorem recordAttended_write (h : o.isReplacement = false) :
    RecordAttended s key (o.write none) :=
  recordAttended_free rfl (calculateNextTime_original h) h

/-- A waiting replacement is made executable, another record stays. -/
theorem dbHandleModifiedOrder_waits (key : Key) (hw : Waits r) :
    dbHandleModifiedOrder key (some r)
      = some ({ Order.loaded key r with isReplacement := false }.write none) := by
  have hloaded : (Order.loaded key r).isReplacement = true := hw.2.2
  simp [dbHandleModifiedOrder, hw.1, hloaded]

/-! ## Transactions -/

/-- The condition on a step: the replacements that wait are left alone, and an
    occupied object ends with a `db_update` or `db_delete` that is executed,
    unless no replacement waits.  In between it keeps its state in the record,
    and no other object writes a replacement where none waits. -/
def EndsWithUpdate (s : System) (op : Nat × Op) : Prop :=
  LeavesWaiting s op ∧
    match op.2 with
    | .dbUpdate h option => ∀ o ∈ s.orders (op.1, h),
        if o.isDbOccupied then
          if option = .andReleaseOccupation then
            s.allTasksKilled op.1 = true → ¬WaitsAt s o.key
          else some o.state = o.occupiedState
        else o.isReplacement = true → WaitsAt s o.key
    | .dbDelete h option => ∀ o ∈ s.orders (op.1, h), o.isDbOccupied = true →
        option = .andReleaseOccupation → s.allTasksKilled op.1 = true → ¬WaitsAt s o.key
    | .close h => ∀ o ∈ s.orders (op.1, h), o.isDbOccupied = true → ¬WaitsAt s o.key
    | _ => True

/-- Releasing an own record makes it free; a replacement must not wait. -/
theorem Attended.release (hs : Attended s) (hh : Held s) (hx : s.orders x = some o)
    {f : Order → Option Record → Order × Option Record}
    (hf : o.isDbOccupied = true →
      (f o (s.table o.key)).2 = (dbReleaseOccupation x.1 o (s.table o.key)).2)
    (hfree : o.isDbOccupied = false → (f o (s.table o.key)).2 = s.table o.key)
    (hwait : o.isDbOccupied = true → ¬WaitsAt s o.key) : Attended (s.transact x f) := by
  refine hs.transact hx f fun r' hr' => ?_
  cases ho : o.isDbOccupied with
  | false =>
      rw [hfree ho] at hr'
      exact (hs o.key r' hr').of_free hx ho f
  | true =>
      obtain ⟨r, hr, hheld⟩ := hh.of_occupied hx ho
      have hocc := hheld.resolve_right fun hw => hwait ho ⟨r, hr, hw⟩
      obtain ⟨howns, hnext, hxml⟩ := Held.owns hh hs hx ho hr hocc
      rw [hf ho, hr, dbReleaseOccupation, if_pos ho] at hr'
      have hmine := howns.isMine hocc
      simp only [Option.map_some, hmine, if_true, Option.some.injEq] at hr'
      subst hr'
      exact recordAttended_free rfl hnext hxml

/-- `db_update` and `db_delete` of the member that has occupied the record. -/
theorem Attended.update_occupied (hs : Attended s) (hh : Held s) (hx : s.orders x = some o)
    (ho : o.isDbOccupied = true) (option : UpdateOption) (delet : Bool)
    (f : Order → Option Record → Order × Option Record)
    (hf : f o (s.table o.key)
      = (o.afterUpdate option delet, updateOrDelete x.1 option delet o (s.table o.key)))
    (hstate : option ≠ .andReleaseOccupation → delet = false → some o.state = o.occupiedState) :
    Attended (s.transact x f) := by
  refine hs.transact hx f fun r' hr' => ?_
  obtain ⟨r, hr, hheld⟩ := hh.of_occupied hx ho
  rw [hf, hr] at hr'
  replace hr' : updateOrDelete x.1 option delet o (some r) = some r' := hr'
  by_cases hocc : r.occupying = some x.1
  · obtain ⟨howns, -, -⟩ := Held.owns hh hs hx ho hr hocc
    have hmatch : matches_ x.1 o r = true := by
      rw [matches_, if_pos ho]
      exact howns.isMine hocc
    rw [updateOrDelete_match hmatch] at hr'
    cases delet with
    | true => cases hr'
    | false =>
        rw [if_neg Bool.false_ne_true] at hr'
        by_cases hoption : option = .andReleaseOccupation
        · rw [if_pos hoption] at hr'
          cases hr'
          exact recordAttended_write howns.original
        · rw [if_neg hoption] at hr'
          cases hr'
          -- the object goes on, and its record is still its own
          have hnext := calculateNextTime_original howns.original
          refine ⟨fun h => absurd h hnext, fun m hm => ⟨hnext, howns.original, x.2, o, ?_, ?_⟩,
            fun h => ?_⟩
          · have hm' : m = x.1 := by
              have hm : r.occupying = some m := hm
              rw [hocc] at hm
              exact (Option.some.inj hm).symm
            subst hm'
            rw [System.transact_orders hx, if_pos rfl, hf, Order.afterUpdate, if_neg hoption]
            rfl
          · exact ⟨rfl, ho, (hstate hoption rfl).symm, howns.original⟩
          · have h : o.isReplacement = true := h
            rw [howns.original] at h
            cases h
  · have hw : Waits r := hheld.resolve_left hocc
    have hmatch : matches_ x.1 o r = false := by
      rw [matches_, if_pos ho]
      simp [DistributedOrder.isMine, hw.1]
    rw [updateOrDelete_miss hmatch, dbHandleModifiedOrder_waits o.key hw] at hr'
    cases hr'
    exact recordAttended_write rfl

/-- `db_update` and `db_delete` of an object that is not occupied. -/
theorem Attended.update_free (hs : Attended s) (hx : s.orders x = some o)
    (ho : o.isDbOccupied = false) (option : UpdateOption) (delet : Bool)
    (f : Order → Option Record → Order × Option Record)
    (hf : (f o (s.table o.key)).2 = updateOrDelete x.1 option delet o (s.table o.key))
    (hwait : delet = false → o.isReplacement = true → WaitsAt s o.key) :
    Attended (s.transact x f) := by
  refine hs.transact hx f fun r' hr' => ?_
  rw [hf] at hr'
  cases hr : s.table o.key with
  | none =>
      rw [hr] at hr'
      cases hr'
  | some r =>
      rw [hr] at hr'
      cases hocc : r.occupying with
      | some m =>
          rw [updateOrDelete_foreign option delet o hocc fun h => by rw [ho] at h; cases h] at hr'
          obtain rfl := Option.some.inj hr'
          exact (hs o.key r hr).of_free hx ho f
      | none =>
          have hmatch : matches_ x.1 o r = true := by simp [matches_, ho, hocc]
          rw [updateOrDelete_match hmatch, hocc, ite_self] at hr'
          cases delet with
          | true => cases hr'
          | false =>
              rw [if_neg Bool.false_ne_true] at hr'
              cases hr'
              cases hrep : o.isReplacement with
              | false => exact recordAttended_write hrep
              | true =>
                  -- a replacement is written where one waits
                  obtain ⟨r', hr', hw⟩ := hwait rfl hrep
                  have hattended : RecordAttended s o.key (o.write none) :=
                    { waits := fun _ => (hs o.key r' hr').waits hw.2.1
                      own := by
                        intro m hm
                        cases hm
                      marked := fun _ => calculateNextTime_replacement hrep }
                  exact hattended.of_free hx ho f

theorem Attended.dbUpdate2 (hs : Attended s) (hh : Held s) (hx : s.orders x = some o)
    (killed : Bool) (option : UpdateOption) (delet : Bool)
    (hkilled : o.isDbOccupied = true → option = .andReleaseOccupation → killed = true →
      ¬WaitsAt s o.key)
    (hstate : o.isDbOccupied = true → option ≠ .andReleaseOccupation → delet = false →
      some o.state = o.occupiedState)
    (hwait : o.isDbOccupied = false → delet = false → o.isReplacement = true →
      WaitsAt s o.key) :
    Attended (s.transact x (DistributedOrder.dbUpdate2 x.1 killed option delet)) := by
  by_cases hk : (option = .andReleaseOccupation && killed) = true
  · have heq : ∀ record, DistributedOrder.dbUpdate2 x.1 killed option delet o record
        = dbReleaseOccupation x.1 o record := fun record => if_pos hk
    rw [Bool.and_eq_true, decide_eq_true_eq] at hk
    refine hs.release hh hx (fun _ => by rw [heq]) (fun ho => ?_) fun ho => hkilled ho hk.1 hk.2
    rw [heq, dbReleaseOccupation, if_neg (by simp [ho])]
  · by_cases hgoes : (!o.isInDatabase || option = .notOccupied && o.isDbOccupied) = true
    · have heq : ∀ record, DistributedOrder.dbUpdate2 x.1 killed option delet o record
          = (o, record) := by
        intro record
        rw [DistributedOrder.dbUpdate2, if_neg hk, if_pos hgoes]
      rw [transact_same hx (heq _)]
      exact hs
    · have heq : ∀ record, DistributedOrder.dbUpdate2 x.1 killed option delet o record
          = (o.afterUpdate option delet, updateOrDelete x.1 option delet o record) := by
        intro record
        rw [DistributedOrder.dbUpdate2, if_neg hk, if_neg hgoes]
      cases ho : o.isDbOccupied with
      | true => exact hs.update_occupied hh hx ho option delet _ (heq _) (hstate ho)
      | false => exact hs.update_free hx ho option delet _ (by rw [heq]) (hwait ho)

theorem Attended.occupy (hs : Attended s) (hfound : FoundAt s) (hx : s.orders x = some o)
    (hphase : o.phase = .found) : Attended (s.transact x (dbOccupyForProcessing x.1)) := by
  obtain ⟨ho, t, ht⟩ := hfound x o hx hphase
  have hsame : dbOccupyForProcessing x.1 o (s.table o.key) = (o, s.table o.key) →
      Attended (s.transact x (dbOccupyForProcessing x.1)) := by
    intro heq
    rw [transact_same hx heq]
    exact hs
  cases hr : s.table o.key with
  | none =>
      refine hsame ?_
      rw [hr]
      rfl
  | some r =>
      by_cases hocc : isOccupiable o r = true
      · have heq : dbOccupyForProcessing x.1 o (s.table o.key)
            = ({ o with isDbOccupied := true, occupiedState := some o.state, phase := .occupied },
              some { r with occupying := some x.1 }) := by
          rw [hr]
          exact if_pos hocc
        simp only [isOccupiable, Bool.and_eq_true, decide_eq_true_eq, ht] at hocc
        obtain ⟨⟨hstate, -⟩, hnext⟩ := hocc
        have horiginal : o.isReplacement = false := by
          cases hrep : o.isReplacement with
          | false => rfl
          | true =>
              have hcalc := calculateNextTime_replacement hrep
              rw [ht] at hcalc
              rcases hcalc with h | h <;> cases h
        have hxml : r.orderXml.replacement = false := by
          cases hrep : r.orderXml.replacement with
          | false => rfl
          | true =>
              have hmarked := (hs o.key r hr).marked hrep
              rw [hnext] at hmarked
              rcases hmarked with h | h <;> cases h
        refine hs.transact hx _ fun r' hr' => ?_
        rw [heq] at hr'
        cases hr'
        refine ⟨fun h => ?_, fun m hm => ⟨fun h => ?_, hxml, x.2,
          { o with isDbOccupied := true, occupiedState := some o.state, phase := .occupied },
          ?_, rfl, rfl, ?_, horiginal⟩, fun h => ?_⟩
        · have h : r.nextTime = .replacement := h
          rw [hnext] at h
          cases h
        · have h : r.nextTime = .replacement := h
          rw [hnext] at h
          cases h
        · cases hm
          rw [System.transact_orders hx, if_pos rfl, heq]
        · exact congrArg some hstate.symm
        · have h : r.orderXml.replacement = true := h
          rw [hxml] at h
          cases h
      · refine hsame ?_
        rw [hr]
        exact if_neg hocc

theorem Attended.close (hs : Attended s) (hh : Held s) (hx : s.orders x = some o)
    (hwait : o.isDbOccupied = true → ¬WaitsAt s o.key) :
    Attended (s.transact x (Order.close x.1)) := by
  have hrelease : ∀ record, (o.close x.1 record).2 = (dbReleaseOccupation x.1 o record).2 := by
    intro record
    rw [Order.close, dbReleaseOccupation, dbReleaseOccupation]
    split <;> rfl
  refine hs.release hh hx (fun _ => hrelease _) (fun ho => ?_) hwait
  rw [hrelease, dbReleaseOccupation, if_neg (by simp [ho])]

/-! ## Records that change alone -/

theorem Attended.setRecord (hs : Attended s)
    (hnew : ∀ r, record = some r → RecordAttended s key r) : Attended (s.setRecord key record) := by
  intro key' r hr
  rw [System.setRecord_table] at hr
  have hsame : RecordAttended s key' r := by
    split at hr
    · rename_i heq
      subst heq
      exact hnew r hr
    · exact hs key' r hr
  exact hsame.mono fun _ _ ho _ _ => ho

/-- A record that is occupied when its order is replaced waits for its member. -/
theorem Attended.insert (hs : Attended s) {suspended isReplacement : Bool} {state : String}
    {setback : Nat} (hr : dbTryInsert (Order.new key state suspended setback isReplacement)
      (s.table key) = some r) : RecordAttended s key r := by
  cases isReplacement with
  | false =>
      cases hold : s.table key with
      | none =>
          rw [hold] at hr
          cases hr
          exact recordAttended_write rfl
      | some r' =>
          rw [hold] at hr
          cases hr
          exact hs key r' hold
  | true =>
      cases hr
      cases hrep : ((Order.new key state suspended setback true).replace (s.table key)).isReplacement
        with
      | false => exact recordAttended_write hrep
      | true =>
          refine ⟨fun _ => ?_, fun m hm => ?_, fun _ => calculateNextTime_replacement hrep⟩
          · have hocc : (s.table key).any (fun r => r.occupying.isSome) = true := hrep
            obtain ⟨r, hr, hsome⟩ := (Option.any_eq_true _ _).mp hocc
            obtain ⟨m, hm⟩ := Option.isSome_iff_exists.mp hsome
            obtain ⟨-, -, h, o, ho, howns⟩ := (hs key r hr).own m hm
            exact ⟨(m, h), o, ho, howns.key, howns.occupied⟩
          · cases hm

/-- A step for an object that was not occupied and is not occupied now. -/
theorem Attended.setOrder (hs : Attended s) {order : Option Order}
    (hfree : ∀ o, s.orders x = some o → o.isDbOccupied = false) : Attended (s.setOrder x order) := by
  intro key r hr
  refine (hs key r hr).mono fun y o ho _ hocc => ?_
  rw [System.setOrder_orders, if_neg, ho]
  rintro rfl
  rw [hfree o ho] at hocc
  cases hocc

/-- A step that changes an object, but not whether it owns a record. -/
theorem Attended.replaceOrder (hs : Attended s) (hx : s.orders x = some o)
    (hkey : o'.key = o.key) (hocc : o'.isDbOccupied = o.isDbOccupied)
    (howns : ∀ r, s.table o.key = some r → r.occupying = some x.1 → Owns o o.key r →
      Owns o' o.key r) :
    Attended (s.setOrder x (some o')) := by
  intro key r hr
  have hold := hs key r hr
  refine ⟨fun hnext => ?_, fun m hm => ?_, hold.marked⟩
  · obtain ⟨y, o₁, ho₁, hk, hocc₁⟩ := hold.waits hnext
    by_cases hy : y = x
    · subst hy
      rw [hx] at ho₁
      cases ho₁
      refine ⟨y, o', ?_, hkey.trans hk, hocc.trans hocc₁⟩
      rw [System.setOrder_orders, if_pos rfl]
    · refine ⟨y, o₁, ?_, hk, hocc₁⟩
      rw [System.setOrder_orders, if_neg hy, ho₁]
  · obtain ⟨hnext, hxml, h, o₁, ho₁, howns₁⟩ := hold.own m hm
    refine ⟨hnext, hxml, h, ?_⟩
    by_cases hy : (m, h) = x
    · subst hy
      rw [hx] at ho₁
      cases ho₁
      obtain rfl := howns₁.key
      refine ⟨o', ?_, howns r hr hm howns₁⟩
      rw [System.setOrder_orders, if_pos rfl]
    · refine ⟨o₁, ?_, howns₁⟩
      rw [System.setOrder_orders, if_neg hy, ho₁]

/-! ## Runs -/

theorem Attended.step {op : Nat × Op} (hs : Attended s) (hh : Held s) (hfound : FoundAt s)
    (hguard : EndsWithUpdate s op) (hstep : Step s op s') : Attended s' := by
  obtain ⟨me, op⟩ := op
  obtain ⟨he, rfl⟩ := hstep
  have hnew : ∀ h, (s.orders (me, h)).isNone = true → ∀ o, s.orders (me, h) = some o →
      o.isDbOccupied = false := by
    intro h hnone o ho
    rw [ho] at hnone
    cases hnone
  cases op with
  | read h key now =>
      simp only [enabled, Bool.and_eq_true] at he
      exact hs.setOrder (hnew h he.1.1)
  | occupy h =>
      obtain ⟨o, ho, hphase⟩ := isIn_iff.mp he
      exact hs.occupy hfound ho (of_decide_eq_true hphase)
  | loadBlobs h =>
      show Attended (s.loadBlobs (me, h))
      rw [System.loadBlobs]
      split
      · rename_i o ho
        split
        · rename_i r hr
          refine hs.replaceOrder ho rfl rfl fun r' hr' hocc howns => ?_
          rw [hr] at hr'
          cases hr'
          obtain ⟨-, hxml, -⟩ := (hs o.key r hr).own me hocc
          refine ⟨rfl, howns.occupied, howns.state, ?_⟩
          show (o.isReplacement || r.orderXml.replacement) = false
          rw [howns.original, hxml]
          rfl
        · rename_i hr
          refine hs.setOrder fun o' ho' => ?_
          rw [ho] at ho'
          cases ho'
          refine Bool.eq_false_iff.mpr fun hocc => ?_
          obtain ⟨r, hr', -⟩ := hh.of_occupied ho hocc
          rw [hr] at hr'
          cases hr'
      · exact hs
  | change h c =>
      obtain ⟨o, ho, -⟩ := isIn_iff.mp he
      show Attended (s.setOrder (me, h) ((s.orders (me, h)).map (Order.change c)))
      rw [ho]
      exact hs.replaceOrder ho rfl rfl fun r hr _ howns =>
        ⟨howns.key, howns.occupied, howns.state, howns.original⟩
  | dbUpdate h option =>
      obtain ⟨o, ho, -⟩ := isIn_iff.mp he
      have hg := hguard.2 o ho
      refine hs.dbUpdate2 hh ho _ _ _ (fun hocc hoption => ?_) (fun hocc hoption _ => ?_)
        fun hocc _ => ?_
      · rw [if_pos hocc, if_pos hoption] at hg
        exact hg
      · rw [if_pos hocc, if_neg hoption] at hg
        exact hg
      · rw [if_neg (Bool.eq_false_iff.mp hocc)] at hg
        exact hg
  | dbDelete h option =>
      obtain ⟨o, ho, -⟩ := isIn_iff.mp he
      refine hs.dbUpdate2 hh ho _ _ _ (hguard.2 o ho) (fun _ _ hdelet => ?_) fun _ hdelet => ?_
      · cases hdelet
      · cases hdelet
  | close h =>
      obtain ⟨o, ho, -⟩ := isIn_iff.mp he
      refine (hs.close hh ho (hguard.2 o ho)).setOrder fun o' ho' => ?_
      rw [System.transact_orders ho, if_pos rfl] at ho'
      cases ho'
      exact dbReleaseOccupation_free _ _
  | load h key =>
      simp only [enabled, Bool.and_eq_true] at he
      exact hs.setOrder (hnew h he.1)
  | insert key state suspended setback isReplacement =>
      exact hs.setRecord fun r hr => hs.insert hr
  | tryDelete key =>
      exact hs.setRecord fun r hr => hs key r (Option.filter_eq_some_iff.mp hr).1
  | killAllTasks => exact fun key r hr => (hs key r hr).mono fun _ _ ho _ _ => ho

theorem Attended.initial (h : Initial s) : Attended s := by
  intro key r hr
  obtain ⟨hocc, hnext, hxml⟩ := h.records key r hr
  exact recordAttended_free hocc hnext hxml

/-- Whenever a replacement waits, some member still has the replaced order
    occupied. -/
def ReplacementAttended (s : System) : Prop :=
  ∀ key r, s.table key = some r → r.nextTime = .replacement → ∃ x, Occupies s x key

/-- As long as an order is occupied by a member, its record is that member's, or a
    replacement that waits. -/
def NeverEarly (s : System) : Prop :=
  ∀ x key r, Occupies s x key → s.table key = some r →
    r.occupying = some x.1 ∨ r.occupying = none ∧ r.nextTime = .replacement

theorem neverEarly_of_held (hh : Held s) : NeverEarly s := by
  intro x key r hx hr
  obtain ⟨r', hr', hheld⟩ := hh.held x key hx
  rw [hr] at hr'
  cases hr'
  exact hheld.imp_right fun hw => ⟨hw.1, hw.2.1⟩

/-- In every run in which the occupations end with an update, no replacement is
    left waiting, and none is executable before. -/
theorem replacement_attended_over_runs (h : Reach Initial (Guarded EndsWithUpdate Step) s) :
    ReplacementAttended s ∧ NeverEarly s := by
  have hinv : Attended s ∧ Held s ∧ FoundAt s := by
    refine Reach.invariant (I := fun s => Attended s ∧ Held s ∧ FoundAt s)
      (fun _ hi => ⟨Attended.initial hi, Held.initial hi, FoundAt.initial hi⟩) ?_ h
    rintro s op s' ⟨hs, hh, hfound⟩ ⟨hguard, hstep⟩
    exact ⟨hs.step hh hfound hguard hstep, hh.step hfound hguard.1 hstep, hfound.step hstep⟩
  exact ⟨fun key r hr => (hinv.1 key r hr).waits, neverEarly_of_held hinv.2.1⟩

/-! ## Runs with a replacement -/

instance (s : System) : (op : Nat × Op) → Decidable (EndsWithUpdate s op)
  | (me, .dbUpdate h option) => inferInstanceAs
      (Decidable (LeavesWaiting s (me, .dbUpdate h option) ∧ ∀ o ∈ s.orders (me, h),
        if o.isDbOccupied then
          if option = .andReleaseOccupation then s.allTasksKilled me = true → ¬WaitsAt s o.key
          else some o.state = o.occupiedState
        else o.isReplacement = true → WaitsAt s o.key))
  | (me, .dbDelete h option) => inferInstanceAs
      (Decidable (LeavesWaiting s (me, .dbDelete h option) ∧
        ∀ o ∈ s.orders (me, h), o.isDbOccupied = true →
          option = .andReleaseOccupation → s.allTasksKilled me = true → ¬WaitsAt s o.key))
  | (me, .close h) => inferInstanceAs
      (Decidable (LeavesWaiting s (me, .close h) ∧
        ∀ o ∈ s.orders (me, h), o.isDbOccupied = true → ¬WaitsAt s o.key))
  | (me, .read h key now) => inferInstanceAs
      (Decidable (LeavesWaiting s (me, .read h key now) ∧ True))
  | (me, .occupy h) => inferInstanceAs (Decidable (LeavesWaiting s (me, .occupy h) ∧ True))
  | (me, .loadBlobs h) => inferInstanceAs (Decidable (LeavesWaiting s (me, .loadBlobs h) ∧ True))
  | (me, .change h c) => inferInstanceAs (Decidable (LeavesWaiting s (me, .change h c) ∧ True))
  | (me, .load h key) => inferInstanceAs (Decidable (LeavesWaiting s (me, .load h key) ∧ True))
  | (me, .insert key state suspended setback isReplacement) => inferInstanceAs
      (Decidable (LeavesWaiting s (me, .insert key state suspended setback isReplacement) ∧ True))
  | (me, .tryDelete key) => inferInstanceAs
      (Decidable (LeavesWaiting s (me, .tryDelete key) ∧ True))
  | (me, .killAllTasks) => inferInstanceAs (Decidable (LeavesWaiting s (me, .killAllTasks) ∧ True))

/-- After the processing has ended in the usual way, the replacement is occupied. -/
def processedAndReplaced : List (Nat × Op) :=
  replacedOnce ++ (1, .dbUpdate 0 .andReleaseOccupation) :: (1, .close 0) :: processes 2 job1

theorem processedAndReplaced_runs :
    (runAll (nextIf EndsWithUpdate attempt) noOrders processedAndReplaced).any
      (fun s => (s.orders (1, 0)).isNone ∧
        (s.orders (2, 0)).any fun o => o.isDbOccupied && o.hasTask) = true := by
  decide +kernel

/-- Member 1 has processed the order, and member 2 processes the replacement. -/
theorem processedAndReplaced_attended : ∃ s, (s.orders (1, 0)).isNone ∧
    (s.orders (2, 0)).any (fun o => o.isDbOccupied && o.hasTask) = true ∧
    ReplacementAttended s ∧ NeverEarly s := by
  obtain ⟨s, hrun, hs⟩ := (Option.any_eq_true _ _).mp processedAndReplaced_runs
  obtain ⟨hnone, horder⟩ := of_decide_eq_true hs
  have hreach := Reach.runAll (fun _ _ _ h => nextIf_step attempt_step h)
    (Reach.start initial_noOrders) hrun
  exact ⟨s, hnone, horder, replacement_attended_over_runs hreach⟩

/-- The order is closed, or its task ends after all tasks have been killed. -/
def closed : List (Nat × Op) := replacedOnce ++ [(1, .close 0)]

def killed : List (Nat × Op) :=
  replacedOnce ++ [(1, .killAllTasks), (1, .dbUpdate 0 .andReleaseOccupation), (1, .close 0)]

theorem waiting_runs :
    (runAll attempt noOrders closed).any
      (fun s => (s.orders (1, 0)).isNone ∧ (s.table job1).any fun r => r.nextTime = .replacement)
      = true ∧
    (runAll attempt noOrders killed).any
      (fun s => (s.orders (1, 0)).isNone ∧ (s.table job1).any fun r => r.nextTime = .replacement)
      = true := by
  constructor <;> decide +kernel

/-- A replacement that waits after a run in which only one object has been used,
    which is gone, is not attended. -/
theorem not_replacementAttended {ops : List (Nat × Op)} (hrun : runAll attempt noOrders ops = some s)
    (hops : ∀ op ∈ ops, ∀ h, op.2.handle = some h → (op.1, h) = (1, 0))
    (hnone : (s.orders (1, 0)).isNone = true)
    (hwait : ((s.table job1).any fun r => r.nextTime = .replacement) = true) :
    ¬ReplacementAttended s := by
  obtain ⟨r, hr, hnext⟩ := (Option.any_eq_true _ _).mp hwait
  intro hall
  obtain ⟨x, o, ho, -⟩ := hall job1 r hr (of_decide_eq_true hnext)
  by_cases hx : x = (1, 0)
  · rw [hx] at ho
    rw [ho] at hnone
    cases hnone
  · rw [runAll_orders_of_ne hrun fun op hin h hh heq => hx (heq.trans (hops op hin h hh))] at ho
    cases ho

/-- The replacement waits for ever after the replaced order has been closed, or
    released because all tasks have been killed. -/
theorem replacement_left_waiting : ∃ s₁ s₂, Reachable s₁ ∧ Reachable s₂ ∧
    runAll attempt noOrders closed = some s₁ ∧ runAll attempt noOrders killed = some s₂ ∧
    ¬ReplacementAttended s₁ ∧ ¬ReplacementAttended s₂ := by
  obtain ⟨s₁, hrun₁, h₁⟩ := (Option.any_eq_true _ _).mp waiting_runs.1
  obtain ⟨s₂, hrun₂, h₂⟩ := (Option.any_eq_true _ _).mp waiting_runs.2
  obtain ⟨hnone₁, hwait₁⟩ := of_decide_eq_true h₁
  obtain ⟨hnone₂, hwait₂⟩ := of_decide_eq_true h₂
  exact ⟨s₁, s₂, Reach.runAll attempt_step (Reach.start initial_noOrders) hrun₁,
    Reach.runAll attempt_step (Reach.start initial_noOrders) hrun₂, hrun₁, hrun₂,
    not_replacementAttended hrun₁ (by decide) hnone₁ hwait₁,
    not_replacementAttended hrun₂ (by decide) hnone₂ hwait₂⟩

end OrderReplacement
