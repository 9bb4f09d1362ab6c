import Mathlib.Data.List.AList

/-! # The clusters table

    All members of one scheduler id share the records of the table
    `scheduler_clusters`.  `member_id` is the primary key; a statement that is
    to change one record names it and adds conditions on the columns. -/

namespace ClusterTable

/-- A `member_id`: the empty member record, or a scheduler. -/
inductive MemberId where
  | empty
  | member (n : Nat)
deriving DecidableEq, Repr

/-- A record; `active`, `exclusive` and `dead` are null or 1. -/
structure Row where
  precedence : Option Int
  lastHeartBeat : Option Nat
  nextHeartBeat : Option Nat
  active : Bool
  exclusive : Bool
  dead : Bool
  command : Option String
deriving DecidableEq

abbrev Table := AList fun _ : MemberId => Row

/-- `update ... where member_id = id and cond`, with `try_execute_single`: the
    result tells whether the record was there. -/
def updateRow (id : MemberId) (cond : Row → Bool) (f : Row → Row) (t : Table) : Bool × Table :=
  match t.lookup id with
  | none => (false, t)
  | some row => if cond row then (true, t.insert id (f row)) else (false, t)

/-- `delete ... where member_id = id and cond`. -/
def deleteRow (id : MemberId) (cond : Row → Bool) (t : Table) : Bool × Table :=
  match t.lookup id with
  | none => (false, t)
  | some row => if cond row then (true, t.erase id) else (false, t)

/-- `insert`: the primary key must be free. -/
def insertRow (id : MemberId) (row : Row) (t : Table) : Option Table :=
  if id ∈ t then none else some (t.insert id row)

/-- An update of every record that meets a condition. -/
def updateAll (cond : MemberId → Row → Bool) (f : Row → Row) (t : Table) : Table :=
  ⟨t.entries.map fun e => ⟨e.1, if cond e.1 e.2 then f e.2 else e.2⟩, by
    have hkeys : (t.entries.map fun e =>
        (⟨e.1, if cond e.1 e.2 then f e.2 else e.2⟩ : Sigma fun _ : MemberId => Row)).keys
        = t.entries.keys := by
      simp only [List.keys, List.map_map]
      rfl
    rw [List.NodupKeys, hkeys]
    exact t.nodupKeys⟩

variable {t t' : Table} {id id' : MemberId} {row row' : Row} {cond : Row → Bool} {f : Row → Row}

/-- A statement for one record changes nothing, or replaces a record that meets
    the condition. -/
theorem updateRow_cases (id : MemberId) (cond : Row → Bool) (f : Row → Row) (t : Table) :
    updateRow id cond f t = (false, t) ∨
      ∃ row, t.lookup id = some row ∧ cond row = true ∧
        updateRow id cond f t = (true, t.insert id (f row)) := by
  rw [updateRow]
  cases hrow : t.lookup id with
  | none => exact Or.inl rfl
  | some row =>
      cases hcond : cond row with
      | false => exact Or.inl (if_neg (by rw [hcond]; nofun))
      | true => exact Or.inr ⟨row, rfl, hcond, if_pos hcond⟩

theorem deleteRow_cases (id : MemberId) (cond : Row → Bool) (t : Table) :
    deleteRow id cond t = (false, t) ∨
      ∃ row, t.lookup id = some row ∧ cond row = true ∧
        deleteRow id cond t = (true, t.erase id) := by
  rw [deleteRow]
  cases hrow : t.lookup id with
  | none => exact Or.inl rfl
  | some row =>
      cases hcond : cond row with
      | false => exact Or.inl (if_neg (by rw [hcond]; nofun))
      | true => exact Or.inr ⟨row, rfl, hcond, if_pos hcond⟩

theorem insertRow_some (h : insertRow id row t = some t') :
    t.lookup id = none ∧ t' = t.insert id row := by
  rw [insertRow] at h
  split at h
  · cases h
  · rename_i hmem
    cases h
    exact ⟨AList.lookup_eq_none.mpr hmem, rfl⟩

theorem lookup_insert (t : Table) (id id' : MemberId) (row : Row) :
    (t.insert id row).lookup id' = if id' = id then some row else t.lookup id' := by
  by_cases h : id' = id
  · subst h
    rw [if_pos rfl, AList.lookup_insert]
  · rw [if_neg h, AList.lookup_insert_ne h]

theorem lookup_erase (t : Table) (id id' : MemberId) :
    (t.erase id).lookup id' = if id' = id then none else t.lookup id' := by
  by_cases h : id' = id
  · subst h
    rw [if_pos rfl, AList.lookup_erase]
  · rw [if_neg h, AList.lookup_erase_ne h]

theorem lookup_updateAll (cond : MemberId → Row → Bool) (f : Row → Row) (t : Table)
    (id : MemberId) : (updateAll cond f t).lookup id
      = (t.lookup id).map fun row => if cond id row then f row else row := by
  apply Option.ext
  intro row'
  rw [← Option.mem_def, AList.mem_lookup_iff, Option.map_eq_some_iff]
  simp only [updateAll, List.mem_map]
  constructor
  · rintro ⟨⟨id', row⟩, hmem, heq⟩
    cases heq
    exact ⟨row, Option.mem_def.mp (AList.mem_lookup_iff.mpr hmem), rfl⟩
  · rintro ⟨row, hrow, rfl⟩
    exact ⟨⟨id, row⟩, AList.mem_lookup_iff.mp (Option.mem_def.mpr hrow), rfl⟩

end ClusterTable
