import SchedulerEngine.ClusterStepProofs

/-! # One exclusive record

    The exclusiveness of a cluster stands in one record of the clusters table:
    in that of the exclusive member, or in the empty member record while nobody
    is exclusive. -/

namespace ClusterIntegrity

open ClusterTable ClusterHeartBeat ClusterStep RunInvariant

/-! ## The condition on the table -/

/-- The condition of `assert_database_integrity`. -/
def isIntact (t : Table) : Bool :=
  let exclusiveCount := t.entries.countP fun e => e.2.exclusive
  if MemberId.empty ∈ t then decide (exclusiveCount = 1) else decide (exclusiveCount ≤ 1)

variable {t t' : Table} {id : MemberId} {m n : Nat} {c c' : Cluster} {row : Row}

/-- What the transactions keep of the table: one exclusive record, that is not
    marked dead, and that of an active member. -/
structure Sound (t : Table) : Prop where
  unique : ∀ a b ra rb, t.lookup a = some ra → t.lookup b = some rb →
    ra.exclusive = true → rb.exclusive = true → a = b
  placed : MemberId.empty ∈ t → ∃ id row, t.lookup id = some row ∧ row.exclusive = true
  alive : ∀ id row, t.lookup id = some row → row.exclusive = true ∨ id = .empty →
    row.dead = false
  active : ∀ n row, t.lookup (.member n) = some row → row.exclusive = true → row.active = true

theorem mem_entries_iff (t : Table) (e : Sigma fun _ : MemberId => Row) :
    e ∈ t.entries ↔ t.lookup e.1 = some e.2 := by
  rw [← Option.mem_def, AList.mem_lookup_iff]

theorem mem_iff_lookup (t : Table) (id : MemberId) : id ∈ t ↔ ∃ row, t.lookup id = some row := by
  rw [← AList.lookup_isSome, Option.isSome_iff_exists]

/-- In a list without repetitions at most one element has a property, if any two
    that have it are the same. -/
theorem countP_le_one {α : Type} [DecidableEq α] {l : List α} {p : α → Bool} (hnodup : l.Nodup)
    (hp : ∀ a ∈ l, ∀ b ∈ l, p a = true → p b = true → a = b) : l.countP p ≤ 1 := by
  by_cases hnone : ∃ a ∈ l, p a = true
  · obtain ⟨a, ha, hpa⟩ := hnone
    refine le_trans (List.countP_mono_left ?_) (List.nodup_iff_count_le_one.mp hnodup a)
    intro b hb hpb
    exact beq_iff_eq.mpr (hp b hb a ha hpb hpa)
  · rw [List.countP_eq_zero.mpr fun a ha hpa => hnone ⟨a, ha, hpa⟩]
    exact Nat.zero_le 1

theorem Sound.isIntact (h : Sound t) : isIntact t = true := by
  have hone : t.entries.countP (fun e => e.2.exclusive) ≤ 1 := by
    refine countP_le_one t.nodupKeys.nodup ?_
    rintro ⟨a, ra⟩ ha ⟨b, rb⟩ hb hea heb
    have hla := (mem_entries_iff t _).mp ha
    have hlb := (mem_entries_iff t _).mp hb
    obtain rfl := h.unique a b ra rb hla hlb hea heb
    rw [hla] at hlb
    cases hlb
    rfl
  rw [ClusterIntegrity.isIntact]
  split
  · rename_i hempty
    obtain ⟨id, row, hrow, hex⟩ := h.placed hempty
    have hpos : 0 < t.entries.countP (fun e => e.2.exclusive) :=
      List.countP_pos_iff.mpr ⟨⟨id, row⟩, (mem_entries_iff t ⟨id, row⟩).mpr hrow, hex⟩
    exact decide_eq_true (by omega)
  · exact decide_eq_true hone

/-! ## Statements that keep the flags -/

/-- The flags of a record. -/
def flags (row : Row) : Bool × Bool × Bool := (row.exclusive, row.dead, row.active)

/-- The same records with the same flags. -/
def SameFlags (t t' : Table) : Prop := ∀ id, (t'.lookup id).map flags = (t.lookup id).map flags

theorem SameFlags.exists_row (h : SameFlags t t') (hrow : t'.lookup id = some row) :
    ∃ old, t.lookup id = some old ∧ old.exclusive = row.exclusive ∧ old.dead = row.dead ∧
      old.active = row.active := by
  have hid := h id
  rw [hrow, Option.map_some] at hid
  obtain ⟨old, hold, hflags⟩ := Option.map_eq_some_iff.mp hid.symm
  simp only [flags, Prod.mk.injEq] at hflags
  exact ⟨old, hold, hflags⟩

theorem SameFlags.symm (h : SameFlags t t') : SameFlags t' t := fun id => (h id).symm

theorem Sound.sameFlags (h : Sound t) (hs : SameFlags t t') : Sound t' where
  unique := by
    intro a b ra rb ha hb hea heb
    obtain ⟨oa, hoa, hex, -⟩ := hs.exists_row ha
    obtain ⟨ob, hob, hex', -⟩ := hs.exists_row hb
    exact h.unique a b oa ob hoa hob (hex.trans hea) (hex'.trans heb)
  placed := by
    intro hempty
    obtain ⟨row, hrow⟩ := (mem_iff_lookup t' _).mp hempty
    obtain ⟨old, hold, -⟩ := hs.exists_row hrow
    obtain ⟨id, row, hid, hex⟩ := h.placed ((mem_iff_lookup t _).mpr ⟨old, hold⟩)
    obtain ⟨new, hnew, hsame, -⟩ := hs.symm.exists_row hid
    exact ⟨id, new, hnew, hsame.trans hex⟩
  alive := by
    intro id row hrow hwhy
    obtain ⟨old, hold, hex, hdead, -⟩ := hs.exists_row hrow
    rw [← hdead]
    exact h.alive id old hold (hwhy.imp (hex.trans ·) fun h => h)
  active := by
    intro n row hrow hex
    obtain ⟨old, hold, hsame, -, hact⟩ := hs.exists_row hrow
    rw [← hact]
    exact h.active n old hold (hsame.trans hex)

/-- Writing a record with the flags it has. -/
theorem sameFlags_insert {old : Row} (hold : t.lookup id = some old) (hf : flags row = flags old) :
    SameFlags t (t.insert id row) := by
  intro id'
  rw [lookup_insert]
  split
  · rename_i heq
    rw [heq, hold, Option.map_some, Option.map_some, hf]
  · rfl

/-- What a transaction does to the record of another member: it does not beat
    for it, and does not make it exclusive. -/
def Tame (n : Nat) (t t' : Table) : Prop :=
  ∀ row', t'.lookup (.member n) = some row' → ∃ row, t.lookup (.member n) = some row ∧
    row'.lastHeartBeat = row.lastHeartBeat ∧ row'.nextHeartBeat = row.nextHeartBeat ∧
    (row'.exclusive = true → row.exclusive = true)

theorem Tame.refl (n : Nat) (t : Table) : Tame n t t :=
  fun row h => ⟨row, h, rfl, rfl, fun h => h⟩

theorem Tame.trans {t₁ t₂ t₃ : Table} (h₁ : Tame n t₁ t₂) (h₂ : Tame n t₂ t₃) : Tame n t₁ t₃ := by
  intro row₃ hrow₃
  obtain ⟨row₂, hrow₂, hl, hn, hex⟩ := h₂ row₃ hrow₃
  obtain ⟨row₁, hrow₁, hl', hn', hex'⟩ := h₁ row₂ hrow₂
  exact ⟨row₁, hrow₁, hl.trans hl', hn.trans hn', fun h => hex' (hex h)⟩

theorem tame_erase (n : Nat) (id : MemberId) (t : Table) : Tame n t (t.erase id) := by
  intro row hrow
  rw [lookup_erase] at hrow
  split at hrow
  · cases hrow
  · exact ⟨row, hrow, rfl, rfl, fun h => h⟩

/-- Writing the record of somebody else. -/
theorem tame_insert_ne (h : MemberId.member n ≠ id) : Tame n t (t.insert id row) := by
  intro row' hrow'
  rw [lookup_insert, if_neg h] at hrow'
  exact ⟨row', hrow', rfl, rfl, fun h => h⟩

/-- Writing a record whose heart beat stays and that does not become exclusive. -/
theorem tame_insert {old : Row} (hold : t.lookup id = some old)
    (hl : row.lastHeartBeat = old.lastHeartBeat) (hn : row.nextHeartBeat = old.nextHeartBeat)
    (hex : row.exclusive = true → old.exclusive = true) : Tame n t (t.insert id row) := by
  intro row' hrow'
  rw [lookup_insert] at hrow'
  split at hrow'
  · rename_i heq
    cases hrow'
    exact ⟨old, heq ▸ hold, hl, hn, hex⟩
  · exact ⟨row', hrow', rfl, rfl, fun h => h⟩

/-! ## The transactions -/

/-- Where nobody is exclusive. -/
def NoneExclusive (t : Table) : Prop := ∀ id row, t.lookup id = some row → row.exclusive = false

/-- A new empty record, exclusive if nobody is. -/
theorem Sound.insertEmpty (h : Sound t) (hfree : t.lookup .empty = none)
    (hdead : row.dead = false) (hex : row.exclusive = true ↔ NoneExclusive t) :
    Sound (t.insert .empty row) where
  unique := by
    intro a b ra rb ha hb hea heb
    rw [lookup_insert] at ha hb
    split at ha <;> split at hb
    · rename_i hae hbe
      rw [hae, hbe]
    · cases ha
      rw [hex.mp hea b rb hb] at heb
      cases heb
    · cases hb
      rw [hex.mp heb a ra ha] at hea
      cases hea
    · exact h.unique a b ra rb ha hb hea heb
  placed := by
    intro _
    by_cases hrow : row.exclusive = true
    · exact ⟨.empty, row, AList.lookup_insert _, hrow⟩
    · have hsome : ∃ id r, t.lookup id = some r ∧ r.exclusive = true := by
        by_contra hnone
        refine hrow (hex.mpr fun id r hr => ?_)
        exact Bool.eq_false_iff.mpr fun hexr => hnone ⟨id, r, hr, hexr⟩
      obtain ⟨id, r, hr, hexr⟩ := hsome
      refine ⟨id, r, ?_, hexr⟩
      rw [lookup_insert, if_neg]
      · exact hr
      · rintro rfl
        rw [hfree] at hr
        cases hr
  alive := by
    intro id r hr hor
    rw [lookup_insert] at hr
    split at hr
    · cases hr
      exact hdead
    · exact h.alive id r hr hor
  active := by
    intro n r hr hexr
    rw [lookup_insert, if_neg nofun] at hr
    exact h.active n r hr hexr

theorem checkEmpty_sound (h : Sound t) (hc : checkEmptyMemberRecord t c = some t') : Sound t' := by
  rw [checkEmptyMemberRecord] at hc
  split at hc
  · cases hc
    exact h
  · rename_i hnot
    rw [not_or] at hnot
    split at hc
    · cases hc
    · cases hc
      refine h.insertEmpty (AList.lookup_eq_none.mpr hnot.1) rfl ?_
      rw [decide_eq_true_iff, List.countP_eq_zero]
      constructor
      · intro hall id row hrow
        exact Bool.eq_false_iff.mpr (hall ⟨id, row⟩ ((mem_entries_iff t _).mpr hrow))
      · rintro hnone ⟨id, row⟩ hmem
        exact Bool.eq_false_iff.mp (hnone id row ((mem_entries_iff t _).mp hmem))

theorem checkEmpty_tame (n : Nat) (hc : checkEmptyMemberRecord t c = some t') : Tame n t t' := by
  rw [checkEmptyMemberRecord] at hc
  split at hc
  · cases hc
    exact Tame.refl n t
  · split at hc
    · cases hc
    · cases hc
      exact tame_insert_ne nofun

/-- A new record that is not exclusive. -/
theorem Sound.insertNew (h : Sound t) (hfree : t.lookup (.member n) = none)
    (hex : row.exclusive = false) : Sound (t.insert (.member n) row) := by
  have hold : ∀ id r, (t.insert (.member n) row).lookup id = some r →
      r.exclusive = true ∨ id = .empty → t.lookup id = some r := by
    intro id r hr hor
    rw [lookup_insert] at hr
    split at hr
    · rename_i hid
      cases hr
      obtain hor | hor := hor
      · rw [hex] at hor
        cases hor
      · rw [hid] at hor
        cases hor
    · exact hr
  refine ⟨?_, ?_, ?_, ?_⟩
  · intro a b ra rb ha hb hea heb
    exact h.unique a b ra rb (hold a ra ha (Or.inl hea)) (hold b rb hb (Or.inl heb)) hea heb
  · intro hempty
    obtain ⟨re, hre⟩ := (mem_iff_lookup _ _).mp hempty
    obtain ⟨id, r, hr, hexr⟩ := h.placed ((mem_iff_lookup _ _).mpr ⟨re, hold _ re hre (Or.inr rfl)⟩)
    refine ⟨id, r, ?_, hexr⟩
    rw [lookup_insert, if_neg]
    · exact hr
    · rintro rfl
      rw [hfree] at hr
      cases hr
  · intro id r hr hor
    exact h.alive id r (hold id r hr hor) hor
  · intro k r hr hexr
    exact h.active k r (hold _ r hr (Or.inl hexr)) hexr

theorem insertMemberRecord_some {now : Nat} (hi : insertMemberRecord m now t c = some (t', c')) :
    ∃ row, t.lookup (.member m) = none ∧ t' = t.insert (.member m) row ∧ row.exclusive = false ∧
      row.lastHeartBeat = some c'.dbLastHeartBeat ∧ row.nextHeartBeat = some c'.dbNextHeartBeat ∧
      c'.hasExclusiveness = c.hasExclusiveness ∧ c'.beatFailed = c.beatFailed := by
  simp only [insertMemberRecord, Option.map_eq_some_iff] at hi
  obtain ⟨t₁, ht, heq⟩ := hi
  cases heq
  obtain ⟨hfree, rfl⟩ := insertRow_some ht
  exact ⟨_, hfree, rfl, rfl, rfl, rfl, rfl, rfl⟩

/-- The exclusiveness goes from one record to another. -/
theorem Sound.give {id : MemberId} {given taken own : Row} (h : Sound t)
    (hid : t.lookup id = some own) (hown : own.exclusive = true) (hne : id ≠ .member m)
    (htaken : taken.exclusive = false) (hempty : id = .empty → taken.dead = false)
    (hgiven : given.exclusive = true)
    (hdead : given.dead = false) (hact : given.active = true) :
    Sound ((t.insert id taken).insert (.member m) given) := by
  have hlook : ∀ a r, ((t.insert id taken).insert (.member m) given).lookup a = some r →
      (a = .member m ∧ r = given) ∨ (a = id ∧ r = taken) ∨
        (a ≠ id ∧ a ≠ .member m ∧ t.lookup a = some r) := by
    intro a r hr
    rw [lookup_insert] at hr
    split at hr
    · cases hr
      exact Or.inl ⟨‹_›, rfl⟩
    · rw [lookup_insert] at hr
      split at hr
      · cases hr
        exact Or.inr (Or.inl ⟨‹_›, rfl⟩)
      · exact Or.inr (Or.inr ⟨‹_›, ‹_›, hr⟩)
  have honly : ∀ a r, ((t.insert id taken).insert (.member m) given).lookup a = some r →
      r.exclusive = true → a = .member m ∧ r = given := by
    intro a r hr hex
    obtain ⟨rfl, rfl⟩ | ⟨rfl, rfl⟩ | ⟨hai, ham, hr⟩ := hlook a r hr
    · exact ⟨rfl, rfl⟩
    · rw [htaken] at hex
      cases hex
    · exact absurd (h.unique a id r own hr hid hex hown) hai
  refine ⟨?_, ?_, ?_, ?_⟩
  · intro a b ra rb ha hb hea heb
    rw [(honly a ra ha hea).1, (honly b rb hb heb).1]
  · intro _
    exact ⟨.member m, given, AList.lookup_insert _, hgiven⟩
  · intro a r hr hor
    obtain ⟨rfl, rfl⟩ | ⟨rfl, rfl⟩ | ⟨hai, ham, hr⟩ := hlook a r hr
    · exact hdead
    · obtain hor | hor := hor
      · rw [htaken] at hor
        cases hor
      · exact hempty hor
    · exact h.alive a r hr hor
  · intro k r hr hex
    rw [(honly _ r hr hex).2]
    exact hact

/-- The exclusive record gives its exclusiveness up, or is deleted. -/
theorem Sound.noneExclusive (h : Sound t) {id : MemberId} {own : Row}
    (hid : t.lookup id = some own) (hown : own.exclusive = true)
    (hkeep : ∀ a r, t'.lookup a = some r → r.exclusive = true → a ≠ id ∧ t.lookup a = some r) :
    NoneExclusive t' := by
  intro a r hr
  by_contra hex
  rw [Bool.not_eq_false] at hex
  obtain ⟨hne, hold⟩ := hkeep a r hr hex
  exact hne (h.unique a id r own hold hid hex hown)

/-- A record has lost its exclusiveness, or is gone; the others are as before. -/
structure Cleared (id : MemberId) (t t' : Table) : Prop where
  own : ∀ row, t'.lookup id = some row → row.exclusive = false
  others : ∀ a, a ≠ id → t'.lookup a = t.lookup a
  tame : ∀ n, Tame n t t'

theorem Cleared.erase (id : MemberId) (t : Table) : Cleared id t (t.erase id) where
  own := by
    intro row hrow
    rw [lookup_erase, if_pos rfl] at hrow
    cases hrow
  others := by
    intro a ha
    rw [lookup_erase, if_neg ha]
  tame := fun n => tame_erase n id t

theorem Cleared.insert {own : Row} (hown : t.lookup id = some own) (hex : row.exclusive = false)
    (hl : row.lastHeartBeat = own.lastHeartBeat) (hn : row.nextHeartBeat = own.nextHeartBeat) :
    Cleared id t (t.insert id row) where
  own := by
    intro row' hrow
    rw [lookup_insert, if_pos rfl] at hrow
    cases hrow
    exact hex
  others := by
    intro a ha
    rw [lookup_insert, if_neg ha]
  tame := by
    intro n
    refine tame_insert hown hl hn ?_
    intro h
    rw [hex] at h
    cases h

theorem deactivateRow_cases (option : MarkAsInactiveOption) (id : MemberId) (k : ClusterMember)
    (t : Table) : deactivateRow option id k t = (false, t) ∨ ∃ own t', t.lookup id = some own ∧
      own.exclusive = k.isExclusive ∧ Cleared id t t' ∧
      deactivateRow option id k t = (true, t') := by
  cases option with
  | deleteMyInactiveRecord =>
      obtain h | ⟨own, hown, hcond, h⟩ :=
        deleteRow_cases id (fun row => decide (row.exclusive = k.isExclusive)) t
      · exact Or.inl h
      · exact Or.inr ⟨own, _, hown, of_decide_eq_true hcond, Cleared.erase id t, h⟩
  | markInactiveRecordAsDead =>
      obtain h | ⟨own, hown, hcond, h⟩ :=
        updateRow_cases id (fun row => decide (row.exclusive = k.isExclusive))
          (fun row => { row with active := false, exclusive := false, dead := true }) t
      · exact Or.inl h
      · have hclear : Cleared id t (t.insert id
            { own with active := false, exclusive := false, dead := true }) :=
          Cleared.insert hown rfl rfl rfl
        exact Or.inr ⟨own, _, hown, of_decide_eq_true hcond, hclear, h⟩
  | standard =>
      obtain h | ⟨own, hown, hcond, h⟩ :=
        updateRow_cases id (fun row => decide (row.exclusive = k.isExclusive))
          (fun row => { row with active := false, exclusive := false }) t
      · exact Or.inl h
      · have hclear : Cleared id t (t.insert id
            { own with active := false, exclusive := false }) :=
          Cleared.insert hown rfl rfl rfl
        exact Or.inr ⟨own, _, hown, of_decide_eq_true hcond, hclear, h⟩

/-- A record that is not exclusive is cleared. -/
theorem Sound.cleared (h : Sound t) {own : Row} (hid : id ≠ .empty) (hown : t.lookup id = some own)
    (hex : own.exclusive = false) (hc : Cleared id t t') : Sound t' := by
  have hold : ∀ a r, t'.lookup a = some r → r.exclusive = true ∨ a = .empty →
      t.lookup a = some r := by
    intro a r hr hor
    rw [← hc.others a]
    · exact hr
    · rintro rfl
      obtain hor | hor := hor
      · rw [hc.own r hr] at hor
        cases hor
      · exact hid hor
  refine ⟨?_, ?_, ?_, ?_⟩
  · intro a b ra rb ha hb hea heb
    exact h.unique a b ra rb (hold a ra ha (Or.inl hea)) (hold b rb hb (Or.inl heb)) hea heb
  · intro hempty
    obtain ⟨re, hre⟩ := (mem_iff_lookup _ _).mp hempty
    obtain ⟨a, r, hr, hexr⟩ := h.placed ((mem_iff_lookup _ _).mpr ⟨re, hold _ re hre (Or.inr rfl)⟩)
    refine ⟨a, r, ?_, hexr⟩
    rw [hc.others a]
    · exact hr
    · rintro rfl
      rw [hown] at hr
      cases hr
      rw [hex] at hexr
      cases hexr
  · intro a r hr hor
    exact h.alive a r (hold a r hr hor) hor
  · intro n r hr hexr
    exact h.active n r (hold _ r hr (Or.inl hexr)) hexr

/-- The empty record of a table in which nobody is exclusive becomes exclusive,
    or is deleted. -/
theorem release_sound (deleteEmpty : Bool) (hnone : NoneExclusive t)
    (hdead : ∀ row, t.lookup .empty = some row → row.dead = false)
    (hok : (releaseExclusiveness deleteEmpty t).1 = true) :
    Sound (releaseExclusiveness deleteEmpty t).2 := by
  cases deleteEmpty with
  | true =>
      show Sound (deleteRow .empty (fun _ => true) t).2
      -- nobody is exclusive, and the empty record is gone
      have hgone : ∀ id row, (deleteRow .empty (fun _ => true) t).2.lookup id = some row →
          row.exclusive = false ∧ id ≠ .empty := by
        intro id row hrow
        obtain h | ⟨old, hold, -, h⟩ := deleteRow_cases .empty (fun _ => true) t
        · rw [h] at hrow
          refine ⟨hnone id row hrow, ?_⟩
          rintro rfl
          simp [deleteRow, hrow] at h
        · rw [h, lookup_erase] at hrow
          split at hrow
          · cases hrow
          · exact ⟨hnone id row hrow, ‹_›⟩
      refine ⟨?_, ?_, ?_, ?_⟩
      · intro a b ra rb ha hb hea heb
        rw [(hgone a ra ha).1] at hea
        cases hea
      · intro hempty
        obtain ⟨row, hrow⟩ := (mem_iff_lookup _ _).mp hempty
        exact absurd rfl (hgone _ row hrow).2
      · intro id row hrow hor
        obtain hor | hor := hor
        · rw [(hgone id row hrow).1] at hor
          cases hor
        · exact absurd hor (hgone id row hrow).2
      · intro n row hrow hex
        rw [(hgone _ row hrow).1] at hex
        cases hex
  | false =>
      obtain h | ⟨old, hold, -, h⟩ := updateRow_cases .empty (fun _ => true)
        (fun row => { row with exclusive := true }) t
      · have hfalse : (releaseExclusiveness false t).1 = false := by
          rw [releaseExclusiveness, if_neg Bool.false_ne_true, h]
        rw [hfalse] at hok
        cases hok
      · have heq : (releaseExclusiveness false t).2
            = t.insert .empty { old with exclusive := true } := by
          rw [releaseExclusiveness, if_neg Bool.false_ne_true, h]
        have hlook : ∀ id row, (t.insert .empty { old with exclusive := true }).lookup id
            = some row → row.exclusive = true ∨ id = .empty →
            id = .empty ∧ row = { old with exclusive := true } := by
          intro id row hrow hor
          rw [lookup_insert] at hrow
          split at hrow
          · cases hrow
            exact ⟨‹_›, rfl⟩
          · obtain hor | hor := hor
            · rw [hnone id row hrow] at hor
              cases hor
            · exact absurd hor ‹_›
        rw [heq]
        refine ⟨?_, ?_, ?_, ?_⟩
        · intro a b ra rb ha hb hea heb
          rw [(hlook a ra ha (Or.inl hea)).1, (hlook b rb hb (Or.inl heb)).1]
        · intro _
          exact ⟨.empty, _, AList.lookup_insert _, rfl⟩
        · intro id row hrow hor
          rw [(hlook id row hrow hor).2]
          exact hdead old hold
        · intro n row hrow hex
          have hid := (hlook _ row hrow (Or.inl hex)).1
          cases hid

theorem release_tame (n : Nat) (deleteEmpty : Bool) (t : Table) :
    Tame n t (releaseExclusiveness deleteEmpty t).2 := by
  cases deleteEmpty with
  | true =>
      show Tame n t (deleteRow .empty (fun _ => true) t).2
      obtain h | ⟨old, -, -, h⟩ := deleteRow_cases .empty (fun _ => true) t
      · rw [h]
        exact Tame.refl n t
      · rw [h]
        exact tame_erase n _ t
  | false =>
      show Tame n t (updateRow .empty (fun _ => true) (fun row => { row with exclusive := true }) t).2
      obtain h | ⟨old, -, -, h⟩ := updateRow_cases .empty (fun _ => true)
        (fun row => { row with exclusive := true }) t
      · rw [h]
        exact Tame.refl n t
      · rw [h]
        exact tame_insert_ne nofun

/-- `mark_as_inactive` keeps the table sound, whatever the member believes. -/
theorem markAsInactive_sound (h : Sound t) (option : MarkAsInactiveOption) (hid : id ≠ .empty)
    (k : ClusterMember) : Sound (markAsInactive m option id k t c).2.2 := by
  obtain hd | ⟨own, t₁, hown, hex, hc, hd⟩ := deactivateRow_cases option id k t
  · simp only [markAsInactive, hd]
    exact h
  cases hk : k.isExclusive with
  | false =>
      simp only [markAsInactive, hd, hk]
      exact h.cleared hid hown (hex.trans hk) hc
  | true =>
      have hnone : NoneExclusive t₁ := by
        refine h.noneExclusive hown (hex.trans hk) ?_
        intro a r hr hexr
        have hne : a ≠ id := by
          rintro rfl
          rw [hc.own r hr] at hexr
          cases hexr
        exact ⟨hne, hc.others a hne ▸ hr⟩
      have hdead : ∀ row, t₁.lookup .empty = some row → row.dead = false := by
        intro row hrow
        rw [hc.others _ (Ne.symm hid)] at hrow
        exact h.alive _ row hrow (Or.inr rfl)
      simp only [markAsInactive, hd, hk, if_true]
      split
      · exact release_sound _ hnone hdead ‹_›
      · exact h

theorem markAsInactive_tame (n : Nat) (option : MarkAsInactiveOption) (id : MemberId)
    (k : ClusterMember) : Tame n t (markAsInactive m option id k t c).2.2 := by
  obtain hd | ⟨own, t₁, -, -, hc, hd⟩ := deactivateRow_cases option id k t
  · simp only [markAsInactive, hd]
    exact Tame.refl n t
  cases hk : k.isExclusive with
  | false =>
      simp only [markAsInactive, hd, hk]
      exact hc.tame n
  | true =>
      simp only [markAsInactive, hd, hk, if_true]
      split
      · exact (hc.tame n).trans (release_tame n _ t₁)
      · exact Tame.refl n t

/-- Only a record that is marked dead is deleted. -/
theorem deleteDead_sound (h : Sound t) (id : MemberId) : Sound (deleteDeadRecord id t).2 := by
  obtain hd | ⟨own, hown, hdead, hd⟩ := deleteRow_cases id (fun row => row.dead) t
  · rw [deleteDeadRecord, hd]
    exact h
  · rw [deleteDeadRecord, hd]
    have hnot : ∀ hor : own.exclusive = true ∨ id = .empty, False := by
      intro hor
      rw [h.alive id own hown hor] at hdead
      cases hdead
    refine h.cleared (fun hid => hnot (Or.inr hid)) hown ?_ (Cleared.erase id t)
    exact Bool.eq_false_iff.mpr fun hex => hnot (Or.inl hex)

theorem deleteDead_tame (n : Nat) (id : MemberId) (t : Table) :
    Tame n t (deleteDeadRecord id t).2 := by
  obtain hd | ⟨own, -, -, hd⟩ := deleteRow_cases id (fun row => row.dead) t
  · rw [deleteDeadRecord, hd]
    exact Tame.refl n t
  · rw [deleteDeadRecord, hd]
    exact tame_erase n id t

theorem setCommand_sameFlags (m : Nat) (other : Option Nat) (command : String) (t : Table) :
    SameFlags t (updateAll (addressed m other)
      (fun row => { row with command := some command }) t) := by
  intro id
  rw [lookup_updateAll, Option.map_map]
  congr 1
  funext row
  simp only [Function.comp_apply]
  split <;> rfl

theorem setCommand_tame (n m : Nat) (other : Option Nat) (command : String) (t : Table) :
    Tame n t (updateAll (addressed m other)
      (fun row => { row with command := some command }) t) := by
  intro row' hrow'
  rw [lookup_updateAll] at hrow'
  obtain ⟨row, hrow, heq⟩ := Option.map_eq_some_iff.mp hrow'
  refine ⟨row, hrow, ?_⟩
  rw [← heq]
  split
  · exact ⟨rfl, rfl, fun h => h⟩
  · exact ⟨rfl, rfl, fun h => h⟩

/-! ## Members and their records -/

/-- What a member that has inserted its record may rely on. -/
structure Owned (t : Table) (m : Nat) (c : Cluster) : Prop where
  beat : ∀ row, t.lookup (.member m) = some row →
    row.lastHeartBeat = some c.dbLastHeartBeat ∧ row.nextHeartBeat = some c.dbNextHeartBeat
  exclusive : c.hasExclusiveness = false ∨ c.beatFailed = true →
    ∀ row, t.lookup (.member m) = some row → row.exclusive = false
  active : c.hasExclusiveness = true → c.isActive = true

/-- The other members' transactions do not disturb it. -/
theorem Owned.tame (h : Owned t m c) (ht : Tame m t t') : Owned t' m c where
  beat := by
    intro row' hrow'
    obtain ⟨row, hrow, hl, hn, -⟩ := ht row' hrow'
    rw [hl, hn]
    exact h.beat row hrow
  exclusive := by
    intro hwhy row' hrow'
    obtain ⟨row, hrow, -, -, hex⟩ := ht row' hrow'
    refine Bool.eq_false_iff.mpr fun hr => ?_
    rw [h.exclusive hwhy row hrow] at hex
    exact nomatch hex hr
  active := h.active

/-- Only these fields matter. -/
theorem Owned.sameOwn (h : Owned t m c) (hs : SameOwn c c') : Owned t m c' where
  beat := by
    rw [hs.dbLastHeartBeat, hs.dbNextHeartBeat]
    exact h.beat
  exclusive := by
    rw [hs.hasExclusiveness, hs.beatFailed]
    exact h.exclusive
  active := by
    rw [hs.hasExclusiveness, hs.isActive]
    exact h.active

/-- The invariant of the system. -/
structure Inv (s : System) : Prop where
  sound : Sound s.table
  owned : ∀ m c, s.clusters m = some c → c.phase.isInserted = true → Owned s.table m c
  fresh : ∀ m c, s.clusters m = some c → c.phase.isInserted = false →
    c.hasExclusiveness = false ∧ c.beatFailed = false

/-- A step of one member: its own memory, and a transaction that is tame for the
    others. -/
theorem Inv.step_of {s s' : System} (h : Inv s) {c' : Option Cluster}
    (hclusters : s'.clusters = Function.update s.clusters m c') (hsound : Sound s'.table)
    (htame : ∀ n, n ≠ m → Tame n s.table s'.table)
    (hown : ∀ c, c' = some c → c.phase.isInserted = true → Owned s'.table m c)
    (hfresh : ∀ c, c' = some c → c.phase.isInserted = false →
      c.hasExclusiveness = false ∧ c.beatFailed = false) : Inv s' where
  sound := hsound
  owned := by
    intro n c hc hphase
    rw [hclusters] at hc
    by_cases hn : n = m
    · subst hn
      rw [Function.update_self] at hc
      exact hown c hc hphase
    · rw [Function.update_of_ne hn] at hc
      exact (h.owned n c hc hphase).tame (htame n hn)
  fresh := by
    intro n c hc hphase
    rw [hclusters] at hc
    by_cases hn : n = m
    · subst hn
      rw [Function.update_self] at hc
      exact hfresh c hc hphase
    · rw [Function.update_of_ne hn] at hc
      exact h.fresh n c hc hphase

/-- The memory of a member that has inserted its record. -/
theorem Inv.step_inserted {s s' : System} (h : Inv s)
    (hclusters : s'.clusters = Function.update s.clusters m (some c')) (hsound : Sound s'.table)
    (htame : ∀ n, n ≠ m → Tame n s.table s'.table) (hphase : c'.phase.isInserted = true)
    (hown : Owned s'.table m c') : Inv s' := by
  refine h.step_of hclusters hsound htame ?_ ?_
  · intro c hc _
    cases hc
    exact hown
  · intro c hc hnot
    cases hc
    rw [hphase] at hnot
    cases hnot

/-- A step in which the member only reads or decides. -/
theorem Inv.step_memory {s s' : System} (h : Inv s) (hc : s.clusters m = some c)
    (hclusters : s'.clusters = Function.update s.clusters m (some c'))
    (htable : s'.table = s.table) (hphase : c'.phase.isInserted = c.phase.isInserted)
    (hsame : c'.isActive = c.isActive ∧ c'.hasExclusiveness = c.hasExclusiveness ∧
      c'.dbLastHeartBeat = c.dbLastHeartBeat ∧ c'.dbNextHeartBeat = c.dbNextHeartBeat ∧
      c'.beatFailed = c.beatFailed) : Inv s' := by
  obtain ⟨hact, hex, hl, hn, hfail⟩ := hsame
  refine h.step_of hclusters (htable ▸ h.sound) (fun n _ => htable ▸ Tame.refl n _) ?_ ?_
  · intro c₁ hc₁ hins
    cases hc₁
    obtain ⟨hb, he, ha⟩ := h.owned m c hc (hphase ▸ hins)
    rw [htable]
    refine ⟨?_, ?_, ?_⟩
    · rw [hl, hn]
      exact hb
    · rw [hex, hfail]
      exact he
    · rw [hex, hact]
      exact ha
  · intro c₁ hc₁ hins
    cases hc₁
    rw [hex, hfail]
    exact h.fresh m c hc (hphase ▸ hins)

/-! ## Steps -/

/-- A member makes itself exclusive only if its own record is not marked dead. -/
def TakesAlive (s : System) : Op → Prop
  | .take m => ∀ row, s.table.lookup (.member m) = some row → row.dead = false
  | _ => True

instance (s : System) : (op : Op) → Decidable (TakesAlive s op)
  | .take m => decidable_of_iff
      ((s.table.lookup (.member m)).all (fun row => !row.dead) = true)
      (by simp only [Option.all_eq_true, Bool.not_eq_true', TakesAlive])
  | .start .. | .crash _ | .firstCheck .. | .deleteOwn _ | .createEmpty _ | .insert ..
  | .lastCheck .. | .continueOperations _ | .domElement .. | .beat .. | .checkOwnRecord _
  | .tryToBecomeExclusive .. | .checkPrecedence .. | .markEmpty _ | .markCheck .. | .giveUp _
  | .watchActive .. | .deactivate .. | .close _ | .deleteDead .. | .setCommand ..
  | .readCommand _ | .setContinue .. => isTrue trivial

variable {s s' : System}

/-- A member that knows no exclusive record but becomes exclusive takes it from
    another record. -/
theorem Inv.take (h : Inv s) {now : Nat} (hc : s.clusters m = some c)
    (hphase : c.phase = .taking now) (hfail : c.beatFailed = false)
    (hnot : c.hasExclusiveness = false)
    (halive : ∀ row, s.table.lookup (.member m) = some row → row.dead = false)
    (hs : s' = s.commit m (markAsExclusive m now s.table c).2.1
      (some { (markAsExclusive m now s.table c).2.2 with phase := .operating })) : Inv s' := by
  have hins : c.phase.isInserted = true := by rw [hphase]; rfl
  have howned := h.owned m c hc hins
  obtain ⟨next, hmark⟩ | ⟨id, own, taken, mine, given, next, hid, hown, hex, -, htex, htdead, htl,
    htn, hmine, hmex, hgex, hga, hgd, hgl, hgn, hmark⟩ := markAsExclusive_cases m now s.table c
  · rw [hmark] at hs
    refine h.step_memory hc (congrArg System.clusters hs) (by rw [hs]; rfl) ?_
      ⟨rfl, rfl, rfl, rfl, rfl⟩
    rw [hins]
    rfl
  · -- the own record is not exclusive, so the other one is another one
    have hne : id ≠ .member m := by
      rintro rfl
      rw [howned.exclusive (Or.inl hnot) own hown] at hex
      cases hex
    rw [lookup_insert, if_neg (Ne.symm hne)] at hmine
    rw [hmark] at hs
    have htable : s'.table = (s.table.insert id taken).insert (.member m) given := by
      rw [hs]
      rfl
    refine h.step_inserted (congrArg System.clusters hs) ?_ ?_ rfl ?_
    · rw [htable]
      refine h.sound.give hown hex hne htex ?_ hgex ?_ hga
      · intro hempty
        rw [htdead hempty]
        exact h.sound.alive id own hown (Or.inr hempty)
      · rw [hgd]
        exact halive mine hmine
    · intro n hn
      rw [htable]
      refine (tame_insert hown htl htn ?_).trans (tame_insert_ne ?_)
      · intro hr
        rw [htex] at hr
        cases hr
      · rintro heq
        exact hn (MemberId.member.inj heq)
    · refine ⟨?_, ?_, fun _ => rfl⟩
      · intro row hrow
        rw [htable] at hrow
        have hlook := AList.lookup_insert (a := .member m) (b := given) (s.table.insert id taken)
        rw [hlook] at hrow
        cases hrow
        exact ⟨hgl, hgn⟩
      · rintro (hwhy | hwhy)
        · cases hwhy
        · have : c.beatFailed = true := hwhy
          rw [hfail] at this
          cases this

/-- A heart beat that fails has not found the record exclusive. -/
theorem Inv.beat (h : Inv s) {now : Nat} (hc : s.clusters m = some c)
    (hins : c.phase.isInserted = true)
    (hs : s' = s.commit m (heartbeatMemberRecord m now s.table c).2.1
      (some (heartbeatMemberRecord m now s.table c).2.2)) : Inv s' := by
  have howned := h.owned m c hc hins
  obtain ⟨row, hrow, -, hbeat⟩ | ⟨hnone, hbeat⟩ := heartbeat_cases m now s.table c
  · rw [hbeat] at hs
    have htable : s'.table = s.table.insert (.member m) { row with
        lastHeartBeat := some now, nextHeartBeat := some (c.calculateNextHeartBeat now) } := by
      rw [hs]
      rfl
    refine h.step_inserted (congrArg System.clusters hs) ?_ ?_ hins ?_
    · rw [htable]
      exact h.sound.sameFlags (sameFlags_insert hrow rfl)
    · intro n hn
      rw [htable]
      refine tame_insert_ne ?_
      intro heq
      exact hn (MemberId.member.inj heq)
    · refine ⟨?_, ?_, howned.active⟩
      · intro row' hrow'
        rw [htable] at hrow'
        rw [lookup_insert, if_pos rfl] at hrow'
        cases hrow'
        exact ⟨rfl, rfl⟩
      · intro hwhy row' hrow'
        rw [htable, lookup_insert, if_pos rfl] at hrow'
        cases hrow'
        exact howned.exclusive hwhy row hrow
  · rw [hbeat] at hs
    have htable : s'.table = s.table := by rw [hs]; rfl
    refine h.step_inserted (congrArg System.clusters hs) (htable ▸ h.sound)
      (fun n _ => htable ▸ Tame.refl n _) hins ?_
    refine ⟨?_, ?_, howned.active⟩
    · rw [htable]
      exact howned.beat
    · intro _ row hrow
      rw [htable] at hrow
      refine Bool.eq_false_iff.mpr fun hex => ?_
      -- an exclusive record would have been found
      have hhas : c.hasExclusiveness = true := by
        by_contra hnot
        rw [howned.exclusive (Or.inl (Bool.eq_false_iff.mpr hnot)) row hrow] at hex
        cases hex
      obtain ⟨hl, hn⟩ := howned.beat row hrow
      have hact := h.sound.active m row hrow hex
      have hfound : c.ownsRecord row = true :=
        ownsRecord_iff.mpr ⟨hl, hn, hact.trans (howned.active hhas).symm, hex.trans hhas.symm⟩
      rw [hnone row hrow] at hfound
      cases hfound

/-- What `check_my_member_record` forgets has been lost. -/
theorem Inv.checkOwn (h : Inv s) (hc : s.clusters m = some c) (hins : c.phase.isInserted = true)
    (hs : s' = s.setCluster m (checkMyMemberRecord m s.table c)) : Inv s' := by
  have howned := h.owned m c hc hins
  have htable : s'.table = s.table := by rw [hs]; rfl
  refine h.step_of (congrArg System.clusters hs) (htable ▸ h.sound)
    (fun n _ => htable ▸ Tame.refl n _) ?_ ?_
  · intro c' hc' _
    obtain ⟨row, hrow, rfl⟩ := Option.map_eq_some_iff.mp hc'
    rw [htable]
    refine ⟨howned.beat, ?_, ?_⟩
    · rintro (hwhy | hwhy) row' hrow'
      · rw [hrow] at hrow'
        cases hrow'
        by_cases hold : c.hasExclusiveness = false ∨ c.beatFailed = true
        · exact howned.exclusive hold row hrow
        · obtain ⟨hhas, hbeat⟩ := not_or.mp hold
          simp only [Bool.not_eq_false, Bool.not_eq_true] at hhas hbeat
          simpa [hhas, hbeat] using hwhy
      · cases hwhy
    · intro hhas
      simp only [Bool.and_eq_true, Bool.not_eq_true', Bool.or_eq_false_iff,
        Bool.and_eq_false_iff, Bool.not_eq_false'] at hhas ⊢
      obtain ⟨hhas, hbeat, hex⟩ := hhas
      have hexr : row.exclusive = true := by
        obtain hex | hex := hex
        · rw [hhas] at hex
          cases hex
        · exact hex
      exact ⟨howned.active hhas, hbeat, Or.inr (h.sound.active m row hrow hexr)⟩
  · intro c' hc' hnot
    obtain ⟨row, -, rfl⟩ := Option.map_eq_some_iff.mp hc'
    rw [show ({ c with
      isActive := _, hasExclusiveness := _, isExclusivenessLost := _, isInError := _,
      beatFailed := _ } : Cluster).phase = c.phase from rfl, hins] at hnot
    cases hnot

/-- A member that has not inserted its record yet. -/
theorem Inv.step_starting (h : Inv s) (hclusters : s'.clusters = Function.update s.clusters m (some c'))
    (hsound : Sound s'.table) (htame : ∀ n, Tame n s.table s'.table)
    (hphase : c'.phase.isInserted = false)
    (hfresh : c'.hasExclusiveness = false ∧ c'.beatFailed = false) : Inv s' := by
  refine h.step_of hclusters hsound (fun n _ => htame n) ?_ ?_
  · intro c hc hins
    cases hc
    rw [hphase] at hins
    cases hins
  · intro c hc _
    cases hc
    exact hfresh

/-- A member ends. -/
theorem Inv.step_end (h : Inv s) (hclusters : s'.clusters = Function.update s.clusters m none)
    (hsound : Sound s'.table) (htame : ∀ n, Tame n s.table s'.table) : Inv s' := by
  refine h.step_of hclusters hsound (fun n _ => htame n) ?_ ?_
  · intro c hc
    cases hc
  · intro c hc
    cases hc

/-- A transaction of a member that leaves its memory alone, but for its phase. -/
theorem Inv.step_table (h : Inv s) (hc : s.clusters m = some c)
    (hclusters : s'.clusters = Function.update s.clusters m (some c'))
    (hsound : Sound s'.table) (htame : ∀ n, Tame n s.table s'.table)
    (hphase : c'.phase.isInserted = c.phase.isInserted)
    (hsame : c'.isActive = c.isActive ∧ c'.hasExclusiveness = c.hasExclusiveness ∧
      c'.dbLastHeartBeat = c.dbLastHeartBeat ∧ c'.dbNextHeartBeat = c.dbNextHeartBeat ∧
      c'.beatFailed = c.beatFailed) : Inv s' := by
  -- first the memory, then the table
  have hmemory : Inv { s with clusters := Function.update s.clusters m (some c') } :=
    h.step_memory hc rfl rfl hphase hsame
  refine ⟨hsound, ?_, ?_⟩
  · intro n k hk hins
    rw [hclusters] at hk
    exact (hmemory.owned n k hk hins).tame (htame n)
  · intro n k hk hins
    rw [hclusters] at hk
    exact hmemory.fresh n k hk hins

/-- The steps of `subsystem_activate`. -/
theorem Inv.firstCheck (h : Inv s) {q : Select} (hc : s.clusters m = some c)
    (hp : firstCheck m q s c = some s') : Inv s' := by
  rw [ClusterStep.firstCheck] at hp
  split at hp
  · rename_i hphase
    cases hp
    have hfresh := h.fresh m c hc (by rw [hphase]; rfl)
    have hsame := checkSchedulers_sameOwn s.table q c
    rw [← hsame.hasExclusiveness, ← hsame.beatFailed] at hfresh
    refine h.step_starting rfl h.sound (fun n => Tame.refl n _) ?_ ?_
    · exact afterFirstCheck_isInserted m _
    · rw [Cluster.afterFirstCheck]
      split <;> exact hfresh
  · cases hp

theorem Inv.deleteOwn (h : Inv s) (hc : s.clusters m = some c)
    (hp : deleteOwn m s c = some s') : Inv s' := by
  rw [ClusterStep.deleteOwn] at hp
  split at hp
  · rename_i hphase
    cases hp
    have hfresh := h.fresh m c hc (by rw [hphase]; rfl)
    have hid : MemberId.member m ≠ .empty := nofun
    exact h.step_starting rfl (markAsInactive_sound h.sound _ hid _)
      (fun n => markAsInactive_tame n _ _ _) (afterOwnDeleted_isInserted _) ⟨rfl, hfresh.2⟩
  · cases hp

theorem Inv.createEmpty (h : Inv s) (hc : s.clusters m = some c)
    (hp : createEmpty m s c = some s') : Inv s' := by
  rw [ClusterStep.createEmpty] at hp
  split at hp
  · rename_i hphase
    obtain ⟨t, ht, rfl⟩ := Option.map_eq_some_iff.mp hp
    have hfresh := h.fresh m c hc (by rw [hphase]; rfl)
    exact h.step_starting rfl (checkEmpty_sound h.sound ht) (fun n => checkEmpty_tame n ht)
      rfl hfresh
  · cases hp

theorem Inv.insert (h : Inv s) {now : Nat} (hc : s.clusters m = some c)
    (hp : insert m now s c = some s') : Inv s' := by
  rw [ClusterStep.insert] at hp
  split at hp
  · rename_i hphase
    obtain ⟨⟨t, c₁⟩, ht, rfl⟩ := Option.map_eq_some_iff.mp hp
    have hfresh := h.fresh m c hc (by rw [hphase]; rfl)
    obtain ⟨row, hfree, rfl, hex, hl, hn, hhas, hfail⟩ := insertMemberRecord_some ht
    refine h.step_inserted rfl (h.sound.insertNew hfree hex) ?_ rfl ?_
    · intro n hne
      refine tame_insert_ne ?_
      intro heq
      exact hne (MemberId.member.inj heq)
    · have hlook : ∀ row', (s.table.insert (.member m) row).lookup (.member m) = some row' →
          row' = row := by
        intro row' hrow'
        rw [lookup_insert, if_pos rfl] at hrow'
        cases hrow'
        rfl
      refine ⟨?_, ?_, ?_⟩
      · intro row' hrow'
        rw [hlook row' hrow']
        exact ⟨hl, hn⟩
      · intro _ row' hrow'
        rw [hlook row' hrow']
        exact hex
      · intro hex'
        have hnot : c₁.hasExclusiveness = false := hhas.trans hfresh.1
        exact absurd (hnot.symm.trans hex') nofun
  · cases hp

theorem Inv.lastCheck (h : Inv s) {q : Select} (hc : s.clusters m = some c)
    (hp : lastCheck m q s c = some s') : Inv s' := by
  rw [ClusterStep.lastCheck] at hp
  split at hp
  · rename_i hphase
    have hsame := checkSchedulers_sameOwn s.table q c
    simp only at hp
    split at hp
    · cases hp
      refine h.step_memory hc rfl rfl ?_ ⟨hsame.isActive, hsame.hasExclusiveness,
        hsame.dbLastHeartBeat, hsame.dbNextHeartBeat, hsame.beatFailed⟩
      rw [hphase]
      rfl
    · cases hp
      exact h.step_end rfl h.sound fun n => Tame.refl n _
  · cases hp

/-- The steps that only read, or decide. -/
theorem Inv.continueOperations (h : Inv s) (hc : s.clusters m = some c)
    (hp : continueOperations m s c = some s') : Inv s' := by
  rw [ClusterStep.continueOperations] at hp
  split at hp
  · cases hp
    refine h.step_memory hc rfl rfl ?_ ?_
    · split <;> rfl
    · split <;> exact ⟨rfl, rfl, rfl, rfl, rfl⟩
  · cases hp

theorem Inv.domElement (h : Inv s) {q : Select} (hc : s.clusters m = some c)
    (hp : domElement m q s c = some s') : Inv s' := by
  rw [ClusterStep.domElement] at hp
  split at hp
  · cases hp
    have hsame := checkSchedulers_sameOwn s.table q c
    refine h.step_memory hc rfl rfl ?_ ⟨hsame.isActive, hsame.hasExclusiveness,
      hsame.dbLastHeartBeat, hsame.dbNextHeartBeat, hsame.beatFailed⟩
    rw [hsame.phase]
  · cases hp

theorem Inv.tryToBecomeExclusive (h : Inv s) {q : Select} {now : Nat}
    (hc : s.clusters m = some c) (hp : tryToBecomeExclusive m q now s c = some s') : Inv s' := by
  rw [ClusterStep.tryToBecomeExclusive] at hp
  split at hp
  · rename_i hwhen
    cases hp
    have hsame := checkSchedulers_sameOwn s.table q c
    refine h.step_memory hc rfl rfl ?_ ?_
    · rw [hwhen.1]
      exact tryToBecomeExclusive_isInserted now (by rw [hsame.phase, hwhen.1]; rfl)
    · obtain ⟨h1, h2, h3, h4, h5⟩ := tryToBecomeExclusive_same now
        (checkSchedulersHeartBeat s.table q c).2
      exact ⟨h1.trans hsame.isActive, h2.trans hsame.hasExclusiveness,
        h3.trans hsame.dbLastHeartBeat, h4.trans hsame.dbNextHeartBeat, h5.trans hsame.beatFailed⟩
  · cases hp

theorem checkHasBackupPrecedence_same (now : Nat) (t : Table) (c : Cluster) :
    (checkHasBackupPrecedence now t c).2.isActive = c.isActive ∧
      (checkHasBackupPrecedence now t c).2.hasExclusiveness = c.hasExclusiveness ∧
      (checkHasBackupPrecedence now t c).2.dbLastHeartBeat = c.dbLastHeartBeat ∧
      (checkHasBackupPrecedence now t c).2.dbNextHeartBeat = c.dbNextHeartBeat ∧
      (checkHasBackupPrecedence now t c).2.beatFailed = c.beatFailed := by
  rw [checkHasBackupPrecedence]
  split
  · split <;> exact ⟨rfl, rfl, rfl, rfl, rfl⟩
  · exact ⟨rfl, rfl, rfl, rfl, rfl⟩

theorem Inv.checkPrecedence (h : Inv s) {now nowMark : Nat} (hc : s.clusters m = some c)
    (hp : checkPrecedence m now nowMark s c = some s') : Inv s' := by
  rw [ClusterStep.checkPrecedence] at hp
  split at hp
  · rename_i hwhen
    cases hp
    refine h.step_memory hc rfl rfl ?_ ?_
    · rw [hwhen.1]
      split
      · rw [Cluster.beginMark]
        split <;> rfl
      · rfl
    · split <;> exact checkHasBackupPrecedence_same now s.table c
  · cases hp

theorem Inv.markEmpty (h : Inv s) (hc : s.clusters m = some c)
    (hp : markEmpty m s c = some s') : Inv s' := by
  rw [ClusterStep.markEmpty] at hp
  split at hp
  · rename_i now hphase
    split at hp
    · cases hp
    · obtain ⟨t, ht, rfl⟩ := Option.map_eq_some_iff.mp hp
      refine h.step_table hc rfl (checkEmpty_sound h.sound ht) (fun n => checkEmpty_tame n ht)
        ?_ ⟨rfl, rfl, rfl, rfl, rfl⟩
      rw [hphase]
      rfl
  · cases hp

theorem Inv.markCheck (h : Inv s) {q : Select} (hc : s.clusters m = some c)
    (hp : markCheck m q s c = some s') : Inv s' := by
  rw [ClusterStep.markCheck] at hp
  split at hp
  · rename_i now hphase
    split at hp
    · cases hp
    · cases hp
      have hsame := checkSchedulers_sameOwn s.table q c
      refine h.step_memory hc rfl rfl ?_ ⟨hsame.isActive, hsame.hasExclusiveness,
        hsame.dbLastHeartBeat, hsame.dbNextHeartBeat, hsame.beatFailed⟩
      rw [hphase]
      split <;> rfl
  · cases hp

theorem Inv.giveUp (h : Inv s) (hc : s.clusters m = some c)
    (hp : giveUp m s c = some s') : Inv s' := by
  rw [ClusterStep.giveUp] at hp
  split at hp
  · rename_i hwhen
    cases hp
    refine h.step_memory hc rfl rfl ?_ ⟨rfl, rfl, rfl, rfl, rfl⟩
    rw [isStarted_isInserted hwhen]
    rfl
  · cases hp

theorem Inv.watchActive (h : Inv s) {q : Select} (hc : s.clusters m = some c)
    (hp : watchActive m q s c = some s') : Inv s' := by
  rw [ClusterStep.watchActive] at hp
  split at hp
  · rename_i hwhen
    cases hp
    have hsame := checkSchedulers_sameOwn s.table q c
    refine h.step_memory hc rfl rfl ?_ ⟨hsame.isActive, hsame.hasExclusiveness,
      hsame.dbLastHeartBeat, hsame.dbNextHeartBeat, hsame.beatFailed⟩
    rw [hwhen.1]
    split <;> rfl
  · cases hp

/-- The other steps that write. -/
theorem Inv.deactivate (h : Inv s) {other : MemberId} {now : Nat} (hc : s.clusters m = some c)
    (hp : deactivate m other now s c = some s') : Inv s' := by
  rw [ClusterStep.deactivate] at hp
  split at hp
  · obtain ⟨known, hknown, hp⟩ := Option.bind_eq_some_iff.mp hp
    split at hp
    · rename_i hrel
      simp only [Cluster.releasesOrders, Bool.and_eq_true, decide_eq_true_eq] at hrel
      simp only at hp
      split at hp
      · cases hp
        exact h.step_table hc rfl (markAsInactive_sound h.sound _ hrel.1.1.1.2 _)
          (fun n => markAsInactive_tame n _ _ _) rfl ⟨rfl, rfl, rfl, rfl, rfl⟩
      · cases hp
        exact h.step_memory hc rfl rfl rfl ⟨rfl, rfl, rfl, rfl, rfl⟩
    · cases hp
  · cases hp

theorem Inv.close (h : Inv s) (hp : close m s c = some s') : Inv s' := by
  rw [ClusterStep.close] at hp
  split at hp
  · split at hp
    · cases hp
      exact h.step_end rfl h.sound fun n => Tame.refl n _
    · split at hp
      · cases hp
      · cases hp
        have hid : MemberId.member m ≠ .empty := nofun
        exact h.step_end rfl (markAsInactive_sound h.sound _ hid _)
          fun n => markAsInactive_tame n _ _ _
  · cases hp

theorem Inv.deleteDead (h : Inv s) {other : MemberId} (hp : deleteDead other s c = some s') :
    Inv s' := by
  rw [ClusterStep.deleteDead] at hp
  split at hp
  · cases hp
    refine ⟨deleteDead_sound h.sound other, ?_, h.fresh⟩
    intro n k hk hins
    exact (h.owned n k hk hins).tame (deleteDead_tame n other s.table)
  · cases hp

theorem Inv.setCommand (h : Inv s) {other : Option Nat} {command : String}
    (hp : setCommand m other command s c = some s') : Inv s' := by
  rw [ClusterStep.setCommand] at hp
  split at hp
  · cases hp
    refine ⟨h.sound.sameFlags (setCommand_sameFlags m other command s.table), ?_, h.fresh⟩
    intro n k hk hins
    exact (h.owned n k hk hins).tame (setCommand_tame n m other command s.table)
  · cases hp

theorem Inv.readCommand (h : Inv s) (hc : s.clusters m = some c)
    (hp : readCommand m s c = some s') : Inv s' := by
  rw [ClusterStep.readCommand] at hp
  split at hp
  · split at hp
    · cases hp
      exact h.step_memory hc rfl rfl rfl ⟨rfl, rfl, rfl, rfl, rfl⟩
    · rename_i row hrow
      cases hp
      exact h.step_table hc rfl (h.sound.sameFlags (sameFlags_insert hrow rfl))
        (fun n => tame_insert hrow rfl rfl fun h => h) rfl ⟨rfl, rfl, rfl, rfl, rfl⟩
  · cases hp

/-- A guarded step keeps the invariant. -/
theorem Inv.step (h : Inv s) {op : Op} (hguard : TakesAlive s op)
    (hstep : ClusterStep.step s op = some s') : Inv s' := by
  obtain ⟨m, config, now, rfl, -, rfl⟩ | ⟨c, hc, hp⟩ := step_cases hstep
  · exact h.step_starting rfl h.sound (fun n => Tame.refl n _) rfl ⟨rfl, rfl⟩
  cases op with
  | start m config now => cases hp
  | crash m =>
      cases hp
      exact h.step_end rfl h.sound fun n => Tame.refl n _
  | firstCheck m q => exact h.firstCheck hc hp
  | deleteOwn m => exact h.deleteOwn hc hp
  | createEmpty m => exact h.createEmpty hc hp
  | insert m now => exact h.insert hc hp
  | lastCheck m q => exact h.lastCheck hc hp
  | continueOperations m => exact h.continueOperations hc hp
  | domElement m q => exact h.domElement hc hp
  | beat m now =>
      simp only [perform, ClusterStep.beat] at hp
      split at hp
      · rename_i hwhen
        cases hp
        exact h.beat hc (isStarted_isInserted hwhen.1) rfl
      · cases hp
  | checkOwnRecord m =>
      simp only [perform, checkOwnRecord] at hp
      split at hp
      · rename_i hwhen
        cases hp
        exact h.checkOwn hc (isStarted_isInserted hwhen) rfl
      · cases hp
  | tryToBecomeExclusive m q now => exact h.tryToBecomeExclusive hc hp
  | checkPrecedence m now nowMark => exact h.checkPrecedence hc hp
  | markEmpty m => exact h.markEmpty hc hp
  | markCheck m q => exact h.markCheck hc hp
  | take m =>
      simp only [perform, ClusterStep.take] at hp
      split at hp
      · rename_i now hphase
        split at hp
        · cases hp
        · rename_i hwhen
          rw [not_or, Bool.not_eq_true, Bool.not_eq_true] at hwhen
          cases hp
          exact h.take hc hphase hwhen.1 hwhen.2 hguard rfl
      · cases hp
  | giveUp m => exact h.giveUp hc hp
  | watchActive m q => exact h.watchActive hc hp
  | deactivate m other now => exact h.deactivate hc hp
  | close m => exact h.close hp
  | deleteDead m other => exact h.deleteDead hp
  | setCommand m other command => exact h.setCommand hp
  | readCommand m => exact h.readCommand hc hp
  | setContinue m nonBackup =>
      cases hp
      exact h.step_memory hc rfl rfl rfl ⟨rfl, rfl, rfl, rfl, rfl⟩

/-! ## The law of the table -/

/-- The runs in which no member whose record is marked dead makes itself
    exclusive. -/
def GuardedReachable : System → Prop := Reach (fun s => s = noMembers) (Guarded TakesAlive Step)

theorem inv_noMembers : Inv noMembers where
  sound := by
    have hnone : ∀ id row, noMembers.table.lookup id = some row → False := by
      intro id row hrow
      cases hrow
    refine ⟨?_, ?_, ?_, ?_⟩
    · intro a b ra rb ha
      exact (hnone a ra ha).elim
    · intro hempty
      obtain ⟨row, hrow⟩ := (mem_iff_lookup _ _).mp hempty
      exact (hnone _ row hrow).elim
    · intro id row hrow
      exact (hnone id row hrow).elim
    · intro n row hrow
      exact (hnone _ row hrow).elim
  owned := by
    intro m c hc
    cases hc
  fresh := by
    intro m c hc
    cases hc

theorem GuardedReachable.inv (h : GuardedReachable s) : Inv s := by
  refine Reach.invariant ?_ ?_ h
  · rintro s rfl
    exact inv_noMembers
  · intro s op s' hinv hstep
    exact hinv.step hstep.1 hstep.2.2

/-- A heart beat of a member that keeps its exclusiveness has found the own
    record exclusive. -/
theorem owns_of_beat {now : Nat} (hbeat : (heartbeatMemberRecord m now t c).1 = true)
    (hex : (heartbeatMemberRecord m now t c).2.2.hasExclusiveness = true) :
    ∃ row, t.lookup (.member m) = some row ∧ row.exclusive = true := by
  obtain ⟨row, hrow, hown, heq⟩ | ⟨-, heq⟩ := heartbeat_cases m now t c
  · rw [heq] at hex
    exact ⟨row, hrow, (ownsRecord_iff.mp hown).2.2.2.trans hex⟩
  · rw [heq] at hbeat
    cases hbeat

/-- The table is intact after every run in which no member whose record is
    marked dead makes itself exclusive; and a member that beats as the exclusive
    one owns the exclusive record. -/
theorem integrity_over_runs (h : GuardedReachable s) :
    isIntact s.table = true ∧ ∀ m c now, s.clusters m = some c →
      (heartbeatMemberRecord m now s.table c).1 = true →
      (heartbeatMemberRecord m now s.table c).2.2.hasExclusiveness = true →
      ∃ row, s.table.lookup (.member m) = some row ∧ row.exclusive = true :=
  ⟨h.inv.sound.isIntact, fun _ _ _ _ => owns_of_beat⟩

/-! ### A run -/

/-- `subsystem_activate` of a primary scheduler, with the records it finds. -/
def activation (m now : Nat) (old new : List MemberId) (deleteOwn : Bool) : List Op :=
  [.start m primary now, .firstCheck m (selectAt now old true)]
    ++ (if deleteOwn then [.deleteOwn m] else [])
    ++ [.createEmpty m, .insert m now, .lastCheck m (selectAt now new true)]

/-- A member becomes exclusive. -/
def takeOver (m now : Nat) (ids : List MemberId) : List Op :=
  [.tryToBecomeExclusive m (selectAt now ids true) now, .checkPrecedence m now now, .take m]

/-- Two members start, the first becomes exclusive, dies, and the other one
    takes over. -/
def onlyLiving : List Op :=
  activation 1 1000 [] [.empty, .member 1] false
    ++ takeOver 1 1000 [.empty, .member 1]
    ++ activation 2 1000 [.empty, .member 1] [.empty, .member 1, .member 2] false
    ++ [.tryToBecomeExclusive 2 (selectAt 1001 [.empty, .member 1, .member 2] true) 1001, .crash 1]
    ++ takeOver 2 1140 [.empty, .member 1, .member 2]

theorem onlyLiving_runs : (runAll (System.attemptIf TakesAlive) noMembers onlyLiving).any
    (fun s => (s.clusters 2).any fun c => c.hasExclusiveness) = true := by
  decide +kernel

theorem onlyLiving_intact : ∃ s, runAll (System.attemptIf TakesAlive) noMembers onlyLiving = some s ∧
    isIntact s.table = true ∧ ∀ m c now, s.clusters m = some c →
      (heartbeatMemberRecord m now s.table c).1 = true →
      (heartbeatMemberRecord m now s.table c).2.2.hasExclusiveness = true →
      ∃ row, s.table.lookup (.member m) = some row ∧ row.exclusive = true := by
  obtain ⟨s, hrun, -⟩ := (Option.any_eq_true _ _).mp onlyLiving_runs
  have hreach : GuardedReachable s := Reach.runAll attemptIf_step (Reach.start rfl) hrun
  exact ⟨s, hrun, integrity_over_runs hreach⟩

/-- The member 0 takes the exclusiveness from the member 1 and remembers it as
    an active member.  The member 1 starts again, and its new record is marked
    dead, since the select that would show it does not come to its end.  Then it
    becomes exclusive, and its record is deleted as a dead one. -/
def deadTakes : List Op :=
  activation 1 1000 [] [.empty, .member 1] false
    ++ takeOver 1 1000 [.empty, .member 1]
    ++ activation 2 1000 [.empty, .member 1] [.empty, .member 1, .member 2] false
    ++ activation 0 1000 [.empty, .member 1, .member 2]
      [.empty, .member 1, .member 2, .member 0] false
    ++ [.crash 1, .crash 2]
    ++ takeOver 0 1140 [.empty, .member 1, .member 2, .member 0]
    ++ [.continueOperations 0]
    ++ activation 1 1145 [.empty, .member 1, .member 2, .member 0]
      [.empty, .member 1, .member 2, .member 0] true
    ++ [.watchActive 0 (selectAt 1200 [.member 2] false), .deactivate 0 (.member 1) 1200,
      .giveUp 0, .close 0]
    ++ takeOver 1 1210 [.empty, .member 1, .member 2]
    ++ activation 2 1220 [.empty, .member 1, .member 2] [.empty, .member 1, .member 2] true
    ++ [.deleteDead 2 (.member 1)]

theorem deadTakes_breaks :
    (runAll System.attempt noMembers deadTakes).any (fun s => !isIntact s.table) = true := by
  decide +kernel

/-- The empty record exists and no record is exclusive. -/
theorem not_always_intact : ¬ ∀ s, Reachable s → isIntact s.table = true := by
  intro hall
  obtain ⟨s, hrun, hbroken⟩ := (Option.any_eq_true _ _).mp deadTakes_breaks
  have hreach : Reachable s := Reach.runAll attempt_step (Reach.start rfl) hrun
  rw [hall s hreach] at hbroken
  cases hbroken

end ClusterIntegrity
