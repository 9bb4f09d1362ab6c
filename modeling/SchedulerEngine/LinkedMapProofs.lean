import Mathlib.Data.List.Basic

/-! # Linked hash maps

    A hash map that keeps its keys in the order in which they came. -/

namespace LinkedMap

variable {α β : Type} [DecidableEq α]

/-- `map.get( key )` -/
def get? (key : α) : List (α × β) → Option β
  | [] => none
  | (a, b) :: rest => if a = key then some b else get? key rest

/-- `map += key -> value`: a key that is there keeps its place. -/
def put (key : α) (value : β) : List (α × β) → List (α × β)
  | [] => [(key, value)]
  | (a, b) :: rest => if a = key then (a, value) :: rest else (a, b) :: put key value rest

/-- `map -= key` -/
def remove (key : α) (map : List (α × β)) : List (α × β) := map.filter fun p => p.1 ≠ key

/-- No key twice. -/
def Unique (map : List (α × β)) : Prop := map.Pairwise fun p q => p.1 ≠ q.1

theorem get?_put (key a : α) (value : β) (map : List (α × β)) :
    get? a (put key value map) = if a = key then some value else get? a map := by
  induction map with
  | nil =>
      show (if key = a then some value else none) = if a = key then some value else none
      by_cases h : a = key
      · rw [if_pos h, if_pos h.symm]
      · rw [if_neg h, if_neg (Ne.symm h)]
  | cons p rest ih =>
      obtain ⟨b, v⟩ := p
      rw [put]
      by_cases hb : b = key
      · rw [if_pos hb, get?, get?, hb]
        by_cases h : a = key
        · rw [if_pos h, if_pos h.symm]
        · rw [if_neg h, if_neg (Ne.symm h), if_neg (Ne.symm h)]
      · rw [if_neg hb, get?, get?, ih]
        by_cases h : b = a
        · rw [if_pos h, if_pos h, if_neg (h ▸ hb)]
        · rw [if_neg h, if_neg h]

theorem get?_remove (key a : α) (map : List (α × β)) :
    get? a (remove key map) = if a = key then none else get? a map := by
  induction map with
  | nil =>
      show none = _
      rw [get?, ite_self]
  | cons p rest ih =>
      obtain ⟨b, v⟩ := p
      rw [remove, List.filter_cons]
      by_cases hb : b = key
      · rw [if_neg (by simpa using hb)]
        show get? a (remove key rest) = _
        rw [ih, get?]
        by_cases h : a = key
        · rw [if_pos h, if_pos h]
        · rw [if_neg h, if_neg h, if_neg (hb ▸ Ne.symm h)]
      · rw [if_pos (by simpa using hb), get?, get?]
        show (if b = a then some v else get? a (remove key rest)) = _
        rw [ih]
        by_cases h : b = a
        · rw [if_pos h, if_pos h, if_neg (h ▸ hb)]
        · rw [if_neg h, if_neg h]

/-- Whatever is in a map is found. -/
theorem Unique.get?_eq {map : List (α × β)} (h : Unique map) {p : α × β} (hp : p ∈ map) :
    get? p.1 map = some p.2 := by
  induction map with
  | nil => cases hp
  | cons q rest ih =>
      obtain ⟨hq, hrest⟩ := List.pairwise_cons.mp h
      rcases List.mem_cons.mp hp with rfl | hp
      · exact if_pos rfl
      · rw [get?, if_neg (hq p hp)]
        exact ih hrest hp

theorem mem_of_get? {map : List (α × β)} {a : α} {b : β} (h : get? a map = some b) :
    (a, b) ∈ map := by
  induction map with
  | nil => cases h
  | cons q rest ih =>
      obtain ⟨a', b'⟩ := q
      rw [get?] at h
      by_cases ha : a' = a
      · rw [if_pos ha] at h
        cases h
        rw [ha]
        exact List.mem_cons_self ..
      · rw [if_neg ha] at h
        exact List.mem_cons_of_mem _ (ih h)

theorem mem_put {map : List (α × β)} {key : α} {value : β} {p : α × β}
    (h : p ∈ put key value map) : p = (key, value) ∨ p ∈ map := by
  induction map with
  | nil => exact .inl (List.mem_singleton.mp h)
  | cons q rest ih =>
      obtain ⟨a, b⟩ := q
      rw [put] at h
      by_cases ha : a = key
      · rw [if_pos ha, ha] at h
        exact (List.mem_cons.mp h).imp id (List.mem_cons_of_mem _)
      · rw [if_neg ha] at h
        rcases List.mem_cons.mp h with rfl | h
        · exact .inr (List.mem_cons_self ..)
        · exact (ih h).imp id (List.mem_cons_of_mem _)

theorem Unique.put {map : List (α × β)} (h : Unique map) (key : α) (value : β) :
    Unique (put key value map) := by
  induction map with
  | nil => exact List.pairwise_singleton _ _
  | cons q rest ih =>
      obtain ⟨a, b⟩ := q
      obtain ⟨hq, hrest⟩ := List.pairwise_cons.mp h
      rw [LinkedMap.put]
      by_cases ha : a = key
      · rw [if_pos ha]
        exact List.pairwise_cons.mpr ⟨hq, hrest⟩
      · rw [if_neg ha]
        refine List.pairwise_cons.mpr ⟨fun p hp => ?_, ih hrest⟩
        rcases mem_put hp with rfl | hp
        · exact ha
        · exact hq p hp

theorem Unique.remove {map : List (α × β)} (h : Unique map) (key : α) :
    Unique (remove key map) :=
  h.sublist List.filter_sublist

end LinkedMap
