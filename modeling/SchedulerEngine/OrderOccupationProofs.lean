import SchedulerEngine.DistributedOrderProofs

/-! # The occupation of distributed orders

    The conditions of the statements keep an order on one member: who has an
    order object that is occupied also has the record, or a replacement of it
    waits in the table.  Only while a replacement waits can another member get
    its record although the replaced order is still processed. -/

namespace OrderOccupation

open RunInvariant DistributedOrder

variable {s s' : System} {me m m' h h' : Nat} {key : Key} {o o' : Order} {r r' : Record}
  {record record' : Option Record}

/-! ## Records -/

/-- The record waits for the end of the replaced order. -/
def Waits (r : Record) : Prop :=
  r.occupying = none ∧ r.nextTime = .replacement ∧ r.orderXml.replacement = true

instance (r : Record) : Decidable (Waits r) := inferInstanceAs (Decidable (_ ∧ _ ∧ _))

/-- The record is the member's, or a replacement that waits. -/
def HeldBy (m : Nat) (record : Option Record) : Prop :=
  ∃ r, record = some r ∧ (r.occupying = some m ∨ Waits r)

/-- The record of the key waits. -/
def WaitsAt (s : System) (key : Key) : Prop := ∃ r, s.table key = some r ∧ Waits r

/-- Nobody holds a record that is free and does not wait. -/
theorem not_heldBy (hfree : ∀ r, record = some r → r.occupying = none ∧ ¬Waits r) :
    ¬HeldBy m record := by
  rintro ⟨r, hr, hocc | hw⟩
  · rw [(hfree r hr).1] at hocc
    cases hocc
  · exact (hfree r hr).2 hw

theorem not_heldBy_none : ¬HeldBy m none := by
  rintro ⟨r, hr, -⟩
  cases hr

/-! ## The invariant -/

/-- The member has an occupied object for the key. -/
def Occupies (s : System) (x : Handle) (key : Key) : Prop :=
  ∃ o, s.orders x = some o ∧ o.key = key ∧ o.isDbOccupied = true

/-- For each key there is at most one occupied object, and its member holds the
    record. -/
structure Held (s : System) : Prop where
  single : ∀ x y key, Occupies s x key → Occupies s y key → x = y
  held : ∀ x key, Occupies s x key → HeldBy x.1 (s.table key)

/-- A step that changes the object `x` and the record of its key. -/
theorem Held.transact (hs : Held s) {x : Handle} (hx : s.orders x = some o)
    (f : Order → Option Record → Order × Option Record)
    (hkey : (f o (s.table o.key)).1.key = o.key)
    (hown : (f o (s.table o.key)).1.isDbOccupied = true → HeldBy x.1 (f o (s.table o.key)).2)
    (hstart : (f o (s.table o.key)).1.isDbOccupied = true → o.isDbOccupied = true ∨
      ∀ m, ¬HeldBy m (s.table o.key))
    (hother : o.isDbOccupied = true ∨
      ∀ m, HeldBy m (s.table o.key) → HeldBy m (f o (s.table o.key)).2) :
    Held (s.transact x f) := by
  have horder : ∀ y, (s.transact x f).orders y
      = if y = x then some (f o (s.table o.key)).1 else s.orders y :=
    fun _ => System.transact_orders hx
  have htable : ∀ key, (s.transact x f).table key
      = if key = o.key then (f o (s.table o.key)).2 else s.table key :=
    fun _ => System.transact_table hx
  -- another object is occupied if and only if it was before
  have hold : ∀ y key, y ≠ x → Occupies (s.transact x f) y key → Occupies s y key := by
    rintro y key hne ⟨o', ho', hk, hocc⟩
    rw [horder, if_neg hne] at ho'
    exact ⟨o', ho', hk, hocc⟩
  have hnew : ∀ key, Occupies (s.transact x f) x key →
      key = o.key ∧ (f o (s.table o.key)).1.isDbOccupied = true := by
    rintro key ⟨o', ho', rfl, hocc⟩
    rw [horder, if_pos rfl] at ho'
    cases ho'
    exact ⟨hkey, hocc⟩
  -- the own object excludes the others of its key
  have halone : ∀ y, y ≠ x → Occupies (s.transact x f) x o.key → ¬Occupies s y o.key := by
    intro y hne hoccx hoccy
    rcases hstart (hnew _ hoccx).2 with hocc | hnone
    · exact hne (hs.single y x _ hoccy ⟨o, hx, rfl, hocc⟩)
    · exact hnone _ (hs.held y _ hoccy)
  constructor
  · intro y z key hy hz
    by_cases hyx : y = x
    · by_cases hzx : z = x
      · rw [hyx, hzx]
      · subst hyx
        obtain ⟨rfl, -⟩ := hnew key hy
        exact absurd (hold z _ hzx hz) (halone z hzx hy)
    · by_cases hzx : z = x
      · subst hzx
        obtain ⟨rfl, -⟩ := hnew key hz
        exact absurd (hold y _ hyx hy) (halone y hyx hz)
      · exact hs.single y z key (hold y key hyx hy) (hold z key hzx hz)
  · intro y key hy
    rw [htable]
    by_cases hyx : y = x
    · subst hyx
      obtain ⟨rfl, hocc⟩ := hnew key hy
      rw [if_pos rfl]
      exact hown hocc
    · have hbefore := hold y key hyx hy
      split
      · rename_i heq
        subst heq
        rcases hother with hocc | hmono
        · exact absurd (hs.single y x _ hbefore ⟨o, hx, rfl, hocc⟩) hyx
        · exact hmono _ (hs.held y _ hbefore)
      · exact hs.held y key hbefore

/-- A step that changes one record. -/
theorem Held.setRecord (hs : Held s) (hmono : ∀ m, HeldBy m (s.table key) → HeldBy m record) :
    Held (s.setRecord key record) where
  single := hs.single
  held := by
    intro x key' hx
    rw [System.setRecord_table]
    split
    · rename_i heq
      subst heq
      exact hmono _ (hs.held x _ hx)
    · exact hs.held x key' hx

/-- A step that changes one object and no record; an occupied object keeps its
    key. -/
theorem Held.setOrder (hs : Held s) {x : Handle} {order : Option Order}
    (hocc : ∀ o', order = some o' → o'.isDbOccupied = true → Occupies s x o'.key) :
    Held (s.setOrder x order) := by
  have hold : ∀ y key, Occupies (s.setOrder x order) y key → Occupies s y key := by
    rintro y key ⟨o', ho', rfl, hocc'⟩
    rw [System.setOrder_orders] at ho'
    split at ho'
    · rename_i heq
      subst heq
      exact hocc o' ho' hocc'
    · exact ⟨o', ho', rfl, hocc'⟩
  exact ⟨fun y z key hy hz => hs.single y z key (hold y key hy) (hold z key hz),
    fun y key hy => hs.held y key (hold y key hy)⟩

/-! ## Transactions -/

/-- After `db_release_occupation` the object is not occupied. -/
theorem dbReleaseOccupation_free (o : Order) (record : Option Record) :
    (dbReleaseOccupation me o record).1.isDbOccupied = false := by
  rw [dbReleaseOccupation]
  split
  · rfl
  · rename_i h
    exact Bool.eq_false_iff.mpr h

theorem dbReleaseOccupation_key (o : Order) (record : Option Record) :
    (dbReleaseOccupation me o record).1.key = o.key := by
  rw [dbReleaseOccupation]
  split <;> rfl

theorem afterUpdate_key (option : UpdateOption) (delet : Bool) (o : Order) :
    (o.afterUpdate option delet).key = o.key := by
  rw [Order.afterUpdate]
  split
  · rfl
  · split <;> rfl

/-- Only an occupied object is occupied afterwards, and only if it was neither
    deleted nor released. -/
theorem afterUpdate_occupied {option : UpdateOption} {delet : Bool}
    (h : (o.afterUpdate option delet).isDbOccupied = true) :
    delet = false ∧ option ≠ .andReleaseOccupation ∧ o.isDbOccupied = true := by
  rw [Order.afterUpdate] at h
  split at h
  · cases h
  · rename_i hdelet
    split at h
    · cases h
    · exact ⟨Bool.eq_false_iff.mpr hdelet, ‹_›, h⟩

theorem dbUpdate2_key (killed : Bool) (option : UpdateOption) (delet : Bool) (o : Order)
    (record : Option Record) : (dbUpdate2 me killed option delet o record).1.key = o.key := by
  rw [dbUpdate2]
  split
  · exact dbReleaseOccupation_key o record
  · split
    · rfl
    · exact afterUpdate_key option delet o

theorem dbUpdate2_occupied {killed : Bool} {option : UpdateOption} {delet : Bool}
    (h : (dbUpdate2 me killed option delet o record).1.isDbOccupied = true) :
    o.isDbOccupied = true := by
  rw [dbUpdate2] at h
  split at h
  · rw [dbReleaseOccupation_free] at h
    cases h
  · split at h
    · exact h
    · exact (afterUpdate_occupied h).2.2

/-- An occupied record is not made executable. -/
theorem dbHandleModifiedOrder_occupied (key : Key) (hocc : r.occupying = some m) :
    dbHandleModifiedOrder key (some r) = some r := by
  simp [dbHandleModifiedOrder, hocc]

/-- The record meets the condition of the statement. -/
theorem updateOrDelete_match {option : UpdateOption} {delet : Bool} (h : matches_ me o r = true) :
    updateOrDelete me option delet o (some r) = if delet = true then none
      else some (o.write (if option = .andReleaseOccupation then none else r.occupying)) := by
  rw [updateOrDelete, Option.filter_some, if_pos h]

theorem updateOrDelete_miss {option : UpdateOption} {delet : Bool} (h : matches_ me o r = false) :
    updateOrDelete me option delet o (some r) = dbHandleModifiedOrder o.key (some r) := by
  rw [updateOrDelete, Option.filter_some, if_neg (by simp [h])]

/-- `db_update` and `db_delete` leave a record alone that another member
    occupies. -/
theorem updateOrDelete_foreign (option : UpdateOption) (delet : Bool) (o : Order)
    (hocc : r.occupying = some m) (hm : o.isDbOccupied = true → m ≠ me) :
    updateOrDelete me option delet o (some r) = some r := by
  have hmatch : matches_ me o r = false := by
    rw [matches_]
    split
    · rename_i h
      simp [isMine, hocc, hm h]
    · simp [hocc]
  rw [updateOrDelete_miss hmatch]
  exact dbHandleModifiedOrder_occupied o.key hocc

theorem dbReleaseOccupation_foreign (o : Order) (hocc : r.occupying = some m) (hm : m ≠ me) :
    (dbReleaseOccupation me o (some r)).2 = some r := by
  rw [dbReleaseOccupation]
  split
  · simp [isMine, hocc, hm]
  · rfl

theorem dbUpdate2_foreign (killed : Bool) (option : UpdateOption) (delet : Bool) (o : Order)
    (hocc : r.occupying = some m) (hm : m ≠ me) :
    (dbUpdate2 me killed option delet o (some r)).2 = some r := by
  rw [dbUpdate2]
  split
  · exact dbReleaseOccupation_foreign o hocc hm
  · split
    · rfl
    · exact updateOrDelete_foreign option delet o hocc fun _ => hm

/-- The member's own record stays its own, unless it is released. -/
theorem updateOrDelete_own {option : UpdateOption} (hkeep : option ≠ .andReleaseOccupation)
    (hocc : r.occupying = some me) :
    HeldBy me (updateOrDelete me option false o (some r)) := by
  cases hmatch : matches_ me o r with
  | true =>
      rw [updateOrDelete_match hmatch, if_neg Bool.false_ne_true, if_neg hkeep]
      exact ⟨_, rfl, Or.inl hocc⟩
  | false =>
      rw [updateOrDelete_miss hmatch, dbHandleModifiedOrder_occupied o.key hocc]
      exact ⟨r, rfl, Or.inl hocc⟩

/-- An object that is not occupied lets the others keep the record, if it writes
    a waiting replacement as such and does not delete it. -/
theorem updateOrDelete_free {option : UpdateOption} {delet : Bool} (ho : o.isDbOccupied = false)
    (hwait : ∀ r, record = some r → Waits r →
      delet = false ∧ o.isReplacement = true ∧ o.isOnBlacklist = false) (h : HeldBy m record) :
    HeldBy m (updateOrDelete me option delet o record) := by
  obtain ⟨r, rfl, hr⟩ := h
  cases hocc : r.occupying with
  | some m' =>
      rw [updateOrDelete_foreign option delet o hocc fun h => by rw [ho] at h; cases h]
      exact ⟨r, rfl, hr⟩
  | none =>
      have hw : Waits r := hr.resolve_left (by simp [hocc])
      obtain ⟨rfl, hreplacement, hblack⟩ := hwait r rfl hw
      have hmatch : matches_ me o r = true := by simp [matches_, ho, hocc]
      rw [updateOrDelete_match hmatch, if_neg Bool.false_ne_true, hocc, ite_self]
      refine ⟨_, rfl, Or.inr ⟨rfl, ?_, hreplacement⟩⟩
      · show o.calculateNextTime = .replacement
        simp [Order.calculateNextTime, hreplacement, hblack]

/-! ## Steps -/

/-- The condition on a step: as long as a replacement waits for an order that is
    still processed, its record is not replaced again, not deleted, not rewritten
    by an object that does not carry the replacement, and not made executable by
    a `db_update` that keeps the occupation. -/
def LeavesWaiting (s : System) (op : Nat × Op) : Prop :=
  match op.2 with
  | .insert key _ _ _ isReplacement => isReplacement = true → ¬WaitsAt s key
  | .tryDelete key => ¬WaitsAt s key
  | .dbUpdate h option => ∀ o ∈ s.orders (op.1, h), WaitsAt s o.key →
      if o.isDbOccupied then option = .andReleaseOccupation
      else o.isReplacement = true ∧ o.isOnBlacklist = false
  | .dbDelete h _ => ∀ o ∈ s.orders (op.1, h), WaitsAt s o.key → o.isDbOccupied = true
  | _ => True

/-- The member of an occupied object holds the record. -/
theorem Held.of_occupied (hs : Held s) {x : Handle} (hx : s.orders x = some o)
    (ho : o.isDbOccupied = true) : HeldBy x.1 (s.table o.key) :=
  hs.held x o.key ⟨o, hx, rfl, ho⟩

/-- A member's own order object, and the transaction of `db_update` or
    `db_delete`. -/
theorem Held.dbUpdate2 (hs : Held s) {x : Handle} (hx : s.orders x = some o) (killed : Bool)
    (option : UpdateOption) (delet : Bool)
    (hown : o.isDbOccupied = true → delet = false → WaitsAt s o.key →
      option = .andReleaseOccupation)
    (hfree : o.isDbOccupied = false → WaitsAt s o.key →
      delet = false ∧ o.isReplacement = true ∧ o.isOnBlacklist = false) :
    Held (s.transact x (DistributedOrder.dbUpdate2 x.1 killed option delet)) := by
  refine hs.transact hx _ (dbUpdate2_key ..) ?_ (fun h => Or.inl (dbUpdate2_occupied h)) ?_
  · intro hocc
    have ho := dbUpdate2_occupied hocc
    have hheld := hs.of_occupied hx ho
    rw [DistributedOrder.dbUpdate2] at hocc ⊢
    split at hocc
    · rw [dbReleaseOccupation_free] at hocc
      cases hocc
    · rename_i hkilled
      rw [if_neg hkilled]
      split
      · exact hheld
      · rename_i hgoes
        rw [if_neg hgoes] at hocc
        obtain ⟨rfl, hkeep, -⟩ := afterUpdate_occupied hocc
        obtain ⟨r, hr, hrocc | hw⟩ := hheld
        · rw [hr]
          exact updateOrDelete_own hkeep hrocc
        · exact absurd (hown ho rfl ⟨r, hr, hw⟩) hkeep
  · cases ho : o.isDbOccupied with
    | true => exact Or.inl rfl
    | false =>
        refine Or.inr fun m hm => ?_
        rw [DistributedOrder.dbUpdate2]
        split
        · rw [dbReleaseOccupation, if_neg (by simp [ho])]
          exact hm
        · split
          · exact hm
          · exact updateOrDelete_free ho (fun r hr hw => hfree ho ⟨r, hr, hw⟩) hm

/-- An order that has been read is not occupied, and its time has a text that is
    none of the constants. -/
def FoundAt (s : System) : Prop :=
  ∀ x o, s.orders x = some o → o.phase = .found →
    o.isDbOccupied = false ∧ ∃ t, o.calculateNextTime = .at t

theorem Held.occupy (hs : Held s) (hfound : FoundAt s) {x : Handle} (hx : s.orders x = some o)
    (hphase : o.phase = .found) : Held (s.transact x (dbOccupyForProcessing x.1)) := by
  obtain ⟨ho, t, ht⟩ := hfound x o hx hphase
  have hcases : dbOccupyForProcessing x.1 o (s.table o.key) = (o, s.table o.key) ∨
      ∃ r, s.table o.key = some r ∧ isOccupiable o r = true ∧
        dbOccupyForProcessing x.1 o (s.table o.key)
          = ({ o with isDbOccupied := true, occupiedState := some o.state, phase := .occupied },
            some { r with occupying := some x.1 }) := by
    cases hr : s.table o.key with
    | none => exact Or.inl rfl
    | some r =>
        by_cases hocc : isOccupiable o r = true
        · exact Or.inr ⟨r, rfl, hocc, if_pos hocc⟩
        · exact Or.inl (if_neg hocc)
  rcases hcases with heq | ⟨r, hr, hocc, heq⟩
  · refine hs.transact hx _ (by rw [heq]) (fun h => ?_) (fun h => ?_) (Or.inr fun m hm => ?_)
    · rw [heq, ho] at h
      cases h
    · rw [heq, ho] at h
      cases h
    · rw [heq]
      exact hm
  · -- the record is free, and its time is not that of a replacement
    have hnone : ∀ m, ¬HeldBy m (s.table o.key) := by
      intro m
      refine not_heldBy fun r' hr' => ?_
      rw [hr] at hr'
      cases hr'
      simp only [isOccupiable, Bool.and_eq_true, Option.isNone_iff_eq_none, decide_eq_true_eq,
        ht] at hocc
      refine ⟨hocc.1.2, fun hw => ?_⟩
      rw [hw.2.1] at hocc
      cases hocc.2
    refine hs.transact hx _ (by rw [heq]) (fun _ => ?_) (fun _ => Or.inr hnone)
      (Or.inr fun m hm => absurd hm (hnone m))
    rw [heq]
    exact ⟨_, rfl, Or.inl rfl⟩

theorem Held.close (hs : Held s) {x : Handle} (hx : s.orders x = some o) :
    Held (s.transact x (Order.close x.1)) := by
  have hfree : (o.close x.1 (s.table o.key)).1.isDbOccupied = false :=
    dbReleaseOccupation_free _ _
  refine hs.transact hx _ (dbReleaseOccupation_key _ _) (fun h => ?_) (fun h => ?_) ?_
  · rw [hfree] at h
    cases h
  · rw [hfree] at h
    cases h
  · cases ho : o.isDbOccupied with
    | true => exact Or.inl rfl
    | false =>
        refine Or.inr fun m hm => ?_
        rw [Order.close, dbReleaseOccupation, if_neg (by simp [ho])]
        exact hm

/-- An inserted order takes nothing from a member that holds the record, unless it
    replaces a replacement that waits. -/
theorem heldBy_dbTryInsert {suspended isReplacement : Bool} {state : String} {setback : Nat}
    (hwait : isReplacement = true → ∀ r, record = some r → ¬Waits r) (h : HeldBy m record) :
    HeldBy m (dbTryInsert (Order.new key state suspended setback isReplacement) record) := by
  obtain ⟨r, rfl, hr⟩ := h
  cases isReplacement with
  | false => exact ⟨r, rfl, hr⟩
  | true =>
      have hocc := hr.resolve_right (hwait rfl r rfl)
      refine ⟨_, rfl, Or.inr ⟨rfl, ?_, ?_⟩⟩
      · simp [Order.write, Order.replace, Order.new, Order.calculateNextTime, hocc]
      · simp [Order.write, Order.replace, Order.new, Order.databaseXml, hocc]

theorem heldBy_tryDelete (hwait : ∀ r, record = some r → ¬Waits r) (h : HeldBy m record) :
    HeldBy m (tryDeleteDistributed key record) := by
  obtain ⟨r, rfl, hr⟩ := h
  have hocc := hr.resolve_right (hwait r rfl)
  refine ⟨r, ?_, hr⟩
  simp [tryDeleteDistributed, hocc]

/-! ## Orders that have been read -/

theorem FoundAt.setOrder (hs : FoundAt s) {x : Handle} {order : Option Order}
    (hnew : ∀ o', order = some o' → o'.phase = .found →
      o'.isDbOccupied = false ∧ ∃ t, o'.calculateNextTime = .at t) :
    FoundAt (s.setOrder x order) := by
  intro y o' ho' hphase
  rw [System.setOrder_orders] at ho'
  split at ho'
  · exact hnew o' ho' hphase
  · exact hs y o' ho' hphase

theorem FoundAt.setRecord (hs : FoundAt s) : FoundAt (s.setRecord key record) := hs

/-- A transaction whose order has not just been read afterwards, or is the same. -/
theorem FoundAt.transact (hs : FoundAt s) {x : Handle}
    {f : Order → Option Record → Order × Option Record}
    (hf : ∀ o record, s.orders x = some o →
      (f o record).1.phase ≠ .found ∨ (f o record).1 = o) :
    FoundAt (s.transact x f) := by
  rw [System.transact]
  cases hx : s.orders x with
  | none => exact hs
  | some o =>
      refine (hs.setOrder fun o' ho' hphase => ?_).setRecord
      cases ho'
      rcases hf o (s.table o.key) hx with hne | heq
      · exact absurd hphase hne
      · rw [heq] at hphase ⊢
        exact hs x o hx hphase

theorem dbUpdate2_phase (killed : Bool) (option : UpdateOption) (delet : Bool) (o : Order)
    (record : Option Record) :
    (DistributedOrder.dbUpdate2 me killed option delet o record).1.phase = o.phase := by
  rw [DistributedOrder.dbUpdate2]
  split
  · rw [dbReleaseOccupation]
    split <;> rfl
  · split
    · rfl
    · show (o.afterUpdate option delet).phase = o.phase
      rw [Order.afterUpdate]
      split
      · rfl
      · split <;> rfl

/-- The time of a record that is due is none of the constants. -/
theorem calculateNextTime_found {now : Nat} (hnow : now < neverInt)
    (hdue : r.nextTime.isDue now = true) :
    ∃ t, (Order.ofRecord key r r.nextTime.toTime .found).calculateNextTime = .at t := by
  cases hr : r.nextTime with
  | «at» second =>
      rw [hr] at hdue
      have hle : second ≤ now := of_decide_eq_true hdue
      have htime : NextTime.toTime (.at second) = second * 1000 := Nat.min_eq_left (by omega)
      have hlt : ¬neverInt * 1000 ≤ second * 1000 := by omega
      rw [htime]
      show ∃ t, (if second * 1000 = 0 then nowNextTime
        else if neverInt * 1000 ≤ second * 1000 then .never
        else .at ((second * 1000 + 999) / 1000)) = .at t
      rw [if_neg hlt]
      split
      · exact ⟨_, rfl⟩
      · exact ⟨_, rfl⟩
  | _ =>
      rw [hr] at hdue
      cases hdue

theorem isIn_iff {p : Order → Bool} {x : Handle} :
    s.isIn x p = true ↔ ∃ o, s.orders x = some o ∧ p o = true := by
  rw [System.isIn, Option.any_eq_true]

theorem FoundAt.step {op : Nat × Op} (hs : FoundAt s) (hstep : Step s op s') : FoundAt s' := by
  obtain ⟨me, op⟩ := op
  obtain ⟨he, rfl⟩ := hstep
  have hworked : ∀ {h} (o : Order), s.isIn (me, h)
      (fun o => o.phase = .processing || o.phase = .loaded) = true →
      s.orders (me, h) = some o → o.phase ≠ .found := by
    intro h o hin ho
    obtain ⟨o', ho', hphase⟩ := isIn_iff.mp hin
    rw [ho] at ho'
    cases ho'
    rintro heq
    simp [heq] at hphase
  cases op with
  | read h key now =>
      refine hs.setOrder fun o' ho' _ => ?_
      simp only [enabled, Bool.and_eq_true, decide_eq_true_eq, Option.any_eq_true] at he
      obtain ⟨⟨-, hnow⟩, r, hr, hdue, -⟩ := he
      rw [System.foundOrder, hr] at ho'
      cases ho'
      exact ⟨rfl, calculateNextTime_found hnow hdue⟩
  | occupy h =>
      refine hs.transact fun o record _ => ?_
      cases record with
      | none => exact Or.inr rfl
      | some r =>
          by_cases hocc : isOccupiable o r = true
          · have heq : dbOccupyForProcessing me o (some r) = _ := if_pos hocc
            rw [heq]
            exact Or.inl Phase.noConfusion
          · have heq : dbOccupyForProcessing me o (some r) = _ := if_neg hocc
            rw [heq]
            exact Or.inr rfl
  | loadBlobs h =>
      show FoundAt (s.loadBlobs (me, h))
      rw [System.loadBlobs]
      split
      · split
        · refine hs.setOrder fun o' ho' hphase => ?_
          cases ho'
          cases hphase
        · refine hs.setOrder fun o' ho' _ => ?_
          cases ho'
      · exact hs
  | change h c =>
      refine hs.setOrder fun o' ho' hphase => ?_
      obtain ⟨o, ho, rfl⟩ := Option.map_eq_some_iff.mp ho'
      exact absurd hphase (hworked o he ho)
  | dbUpdate h option =>
      refine hs.transact fun o record ho => Or.inl ?_
      rw [dbUpdate2_phase]
      exact hworked o he ho
  | dbDelete h option =>
      refine hs.transact fun o record ho => Or.inl ?_
      rw [dbUpdate2_phase]
      exact hworked o he ho
  | close h =>
      intro y o ho hphase
      have horder : (perform me s (.close h)).orders y
          = if y = (me, h) then none else (s.transact (me, h) (Order.close me)).orders y :=
        System.setOrder_orders _
      rw [horder] at ho
      split at ho
      · cases ho
      · rw [System.transact_orders_of_ne ‹_›] at ho
        exact hs y o ho hphase
  | load h key =>
      refine hs.setOrder fun o' ho' hphase => ?_
      obtain ⟨r, -, rfl⟩ := Option.map_eq_some_iff.mp ho'
      cases hphase
  | insert key state suspended setback isReplacement => exact hs
  | tryDelete key => exact hs
  | killAllTasks => exact hs

/-! ## Runs -/

/-- A step that meets the condition keeps the occupations. -/
theorem Held.step {op : Nat × Op} (hs : Held s) (hfound : FoundAt s)
    (hguard : LeavesWaiting s op) (hstep : Step s op s') : Held s' := by
  obtain ⟨me, op⟩ := op
  obtain ⟨he, rfl⟩ := hstep
  cases op with
  | read h key now =>
      refine hs.setOrder fun o' ho' hocc => ?_
      obtain ⟨r, -, rfl⟩ := Option.map_eq_some_iff.mp ho'
      cases hocc
  | occupy h =>
      obtain ⟨o, ho, hphase⟩ := isIn_iff.mp he
      exact hs.occupy hfound ho (of_decide_eq_true hphase)
  | loadBlobs h =>
      show Held (s.loadBlobs (me, h))
      rw [System.loadBlobs]
      split
      · rename_i o ho
        split
        · refine hs.setOrder fun o' ho' hocc => ?_
          cases ho'
          exact ⟨o, ho, rfl, hocc⟩
        · refine hs.setOrder fun o' ho' _ => ?_
          cases ho'
      · exact hs
  | change h c =>
      refine hs.setOrder fun o' ho' hocc => ?_
      obtain ⟨o, ho, rfl⟩ := Option.map_eq_some_iff.mp ho'
      exact ⟨o, ho, rfl, hocc⟩
  | dbUpdate h option =>
      obtain ⟨o, ho, -⟩ := isIn_iff.mp he
      refine hs.dbUpdate2 ho _ _ _ (fun hocc _ hw => ?_) fun hocc hw => ?_
      · have hg := hguard o ho hw
        rw [if_pos hocc] at hg
        exact hg
      · have hg := hguard o ho hw
        rw [if_neg (Bool.eq_false_iff.mp hocc)] at hg
        exact ⟨rfl, hg⟩
  | dbDelete h option =>
      obtain ⟨o, ho, -⟩ := isIn_iff.mp he
      refine hs.dbUpdate2 ho _ _ _ (fun _ hdelet _ => ?_) fun hocc hw => ?_
      · cases hdelet
      · rw [hguard o ho hw] at hocc
        cases hocc
  | close h =>
      obtain ⟨o, ho, -⟩ := isIn_iff.mp he
      refine (hs.close ho).setOrder fun o' ho' _ => ?_
      cases ho'
  | load h key =>
      refine hs.setOrder fun o' ho' hocc => ?_
      obtain ⟨r, -, rfl⟩ := Option.map_eq_some_iff.mp ho'
      cases hocc
  | insert key state suspended setback isReplacement =>
      refine hs.setRecord fun m hm => heldBy_dbTryInsert (fun hrep r hr hw => ?_) hm
      exact hguard hrep ⟨r, hr, hw⟩
  | tryDelete key =>
      exact hs.setRecord fun m hm => heldBy_tryDelete (fun r hr hw => hguard ⟨r, hr, hw⟩) hm
  | killAllTasks => exact ⟨hs.single, hs.held⟩

theorem Held.initial (h : Initial s) : Held s := by
  have hnone : ∀ x key, ¬Occupies s x key := by
    rintro x key ⟨o, ho, -⟩
    rw [h.orders] at ho
    cases ho
  exact ⟨fun x _ key hx => absurd hx (hnone x key), fun x key hx => absurd hx (hnone x key)⟩

theorem FoundAt.initial (h : Initial s) : FoundAt s := by
  intro x o ho
  rw [h.orders] at ho
  cases ho

/-- At most one member has an object of an order that is occupied and has a task. -/
def OneProcessor (s : System) : Prop :=
  ∀ x y ox oy, s.orders x = some ox → s.orders y = some oy → ox.key = oy.key →
    ox.isDbOccupied = true ∧ ox.hasTask = true → oy.isDbOccupied = true ∧ oy.hasTask = true →
    x.1 = y.1

/-- No `db_update` or `db_delete` of a member changes a record that another one
    occupies. -/
def OthersUntouched (s : System) : Prop :=
  ∀ me op s' key r m, Step s (me, op) s' →
    (∃ h option, op = .dbUpdate h option ∨ op = .dbDelete h option) →
    s.table key = some r → r.occupying = some m → m ≠ me → s'.table key = some r

/-- A record whose time is one of the constants of the year 3111 is not occupied
    for processing. -/
def ConstantsUnoccupied (s : System) : Prop :=
  ∀ me h s' key r, Step s (me, .occupy h) s' → s.table key = some r →
    (∀ t, r.nextTime ≠ .at t) → s'.table key = some r

theorem othersUntouched (s : System) : OthersUntouched s := by
  have htransact : ∀ me h killed option delet key r m, s.table key = some r →
      r.occupying = some m → m ≠ me →
      (s.transact (me, h) (DistributedOrder.dbUpdate2 me killed option delet)).table key
        = some r := by
    intro me h killed option delet key r m hr hocc hm
    rw [System.transact]
    split
    · rename_i o ho
      show Function.update s.table o.key _ key = some r
      rw [Function.update_apply]
      split
      · rename_i heq
        rw [← heq, hr]
        exact dbUpdate2_foreign killed option delet o hocc hm
      · exact hr
    · exact hr
  rintro me op s' key r m ⟨-, rfl⟩ ⟨h, option, rfl | rfl⟩ hr hocc hm
  · exact htransact me h _ option false key r m hr hocc hm
  · exact htransact me h _ option true key r m hr hocc hm

theorem FoundAt.constantsUnoccupied (hs : FoundAt s) : ConstantsUnoccupied s := by
  rintro me h s' key r ⟨he, rfl⟩ hr hconst
  obtain ⟨o, ho, hphase⟩ := isIn_iff.mp he
  obtain ⟨-, t, ht⟩ := hs (me, h) o ho (of_decide_eq_true hphase)
  show (s.transact (me, h) (dbOccupyForProcessing me)).table key = some r
  rw [System.transact, ho]
  show Function.update s.table o.key _ key = some r
  rw [Function.update_apply]
  split
  · rename_i heq
    have hnot : ¬isOccupiable o r = true := by
      intro hocc
      simp only [isOccupiable, Bool.and_eq_true, decide_eq_true_eq, ht] at hocc
      exact hconst t hocc.2
    rw [← heq, hr]
    show (if isOccupiable o r = true then _ else _ : Order × Option Record).2 = some r
    rw [if_neg hnot]
  · exact hr

theorem Held.oneProcessor (hs : Held s) : OneProcessor s := by
  intro x y ox oy hx hy hkey hox hoy
  rw [hs.single x y oy.key ⟨ox, hx, hkey, hox.1⟩ ⟨oy, hy, rfl, hoy.1⟩]

instance (s : System) (key : Key) : Decidable (WaitsAt s key) :=
  decidable_of_iff ((s.table key).any fun r => Waits r) <| by
    simp [WaitsAt, Option.any_eq_true]

instance (s : System) (op : Nat × Op) : Decidable (LeavesWaiting s op) := by
  rw [LeavesWaiting]
  split <;> infer_instance

def noOrders : System := ⟨fun _ => none, fun _ => none, fun _ => false⟩

theorem initial_noOrders : Initial noOrders where
  orders := fun _ => rfl
  records := by
    intro key r hr
    cases hr

def job1 : Key := ⟨"chain", "1"⟩

/-- A member takes the order of the key and processes it. -/
def processes (me : Nat) (key : Key) : List (Nat × Op) :=
  [(me, .read 0 key 1000000000), (me, .occupy 0), (me, .loadBlobs 0)]

/-- `<add_order replace="yes">`. -/
def replaces (me : Nat) (key : Key) : Nat × Op := (me, .insert key "100" false 0 true)

/-- Member 1 processes an order, and member 2 replaces it. -/
def replacedOnce : List (Nat × Op) :=
  (1, .insert job1 "100" false 0 false) :: processes 1 job1 ++ [replaces 2 job1]

theorem replacedOnce_runs : (runAll (nextIf LeavesWaiting attempt) noOrders replacedOnce).any
    (fun s => WaitsAt s job1 ∧ (s.orders (1, 0)).any fun o => o.isDbOccupied && o.hasTask)
    = true := by
  decide +kernel

/-- The members 1 and 2 process the order of the key. -/
def bothProcess (key : Key) (s : System) : Bool :=
  (s.orders (1, 0)).any (fun o => o.key = key && o.isDbOccupied && o.hasTask) &&
    (s.orders (2, 0)).any (fun o => o.key = key && o.isDbOccupied && o.hasTask)

theorem not_oneProcessor (h : bothProcess key s = true) : ¬OneProcessor s := by
  simp only [bothProcess, Bool.and_eq_true, Option.any_eq_true, decide_eq_true_eq] at h
  obtain ⟨⟨ox, hx, ⟨hkx, hox⟩, htx⟩, oy, hy, ⟨hky, hoy⟩, hty⟩ := h
  intro hone
  have heq := hone (1, 0) (2, 0) ox oy hx hy (hkx.trans hky.symm) ⟨hox, htx⟩ ⟨hoy, hty⟩
  cases heq

theorem replaced_runs :
    (runAll attempt noOrders (replacedOnce ++ replaces 2 job1 :: processes 2 job1)).any
      (bothProcess job1) = true ∧
    (runAll attempt noOrders (replacedOnce ++ (1, .dbUpdate 0 .anyway) :: processes 2 job1)).any
      (bothProcess job1) = true := by
  constructor <;> decide +kernel

end OrderOccupation
