import Mathlib.Order.Lattice
import Mathlib.Data.List.Basic

/-! # Ordered sets by a key

    A `std::set` whose comparison looks at a key only: the elements stand in the
    order of their keys, and an element whose key is there already is not
    inserted. -/

variable {α β κ : Type*} [LinearOrder κ] {key : α → κ} {a b : α} {l : List α}

/-- The elements in the order of their keys, no key twice. -/
structure KeySet (key : α → κ) where
  toList : List α
  sorted : toList.Pairwise fun a b => key a < key b

namespace KeySet

/-- Insert unless the key is there. -/
def insertList (key : α → κ) (a : α) : List α → List α
  | [] => [a]
  | b :: rest =>
      if key a < key b then a :: b :: rest
      else if key b < key a then b :: insertList key a rest
      else b :: rest

theorem mem_of_mem_insertList (h : b ∈ insertList key a l) : b = a ∨ b ∈ l := by
  induction l with
  | nil => exact Or.inl (List.mem_singleton.mp h)
  | cons c l ih =>
      rw [insertList] at h
      by_cases hac : key a < key c
      · rw [if_pos hac] at h
        exact List.mem_cons.mp h
      · rw [if_neg hac] at h
        by_cases hca : key c < key a
        · rw [if_pos hca] at h
          rcases List.mem_cons.mp h with rfl | h
          · exact Or.inr List.mem_cons_self
          · exact (ih h).imp_right (List.mem_cons_of_mem _)
        · rw [if_neg hca] at h
          exact Or.inr h

theorem mem_insertList_of_mem (h : b ∈ l) : b ∈ insertList key a l := by
  induction l with
  | nil => cases h
  | cons c l ih =>
      rw [insertList]
      by_cases hac : key a < key c
      · rw [if_pos hac]
        exact List.mem_cons_of_mem _ h
      · rw [if_neg hac]
        by_cases hca : key c < key a
        · rw [if_pos hca]
          rcases List.mem_cons.mp h with rfl | h
          · exact List.mem_cons_self
          · exact List.mem_cons_of_mem _ (ih h)
        · rw [if_neg hca]
          exact h

/-- Afterwards the key is there. -/
theorem exists_key_insertList (key : α → κ) (a : α) (l : List α) :
    ∃ b ∈ insertList key a l, key b = key a := by
  induction l with
  | nil => exact ⟨a, List.mem_cons_self, rfl⟩
  | cons c l ih =>
      rw [insertList]
      by_cases hac : key a < key c
      · rw [if_pos hac]
        exact ⟨a, List.mem_cons_self, rfl⟩
      · rw [if_neg hac]
        by_cases hca : key c < key a
        · rw [if_pos hca]
          obtain ⟨b, hb, hkey⟩ := ih
          exact ⟨b, List.mem_cons_of_mem _ hb, hkey⟩
        · rw [if_neg hca]
          exact ⟨c, List.mem_cons_self, le_antisymm (le_of_not_gt hac) (le_of_not_gt hca)⟩

theorem sorted_insertList (h : l.Pairwise fun a b => key a < key b) (a : α) :
    (insertList key a l).Pairwise fun a b => key a < key b := by
  induction l with
  | nil => exact List.pairwise_singleton _ a
  | cons c l ih =>
      obtain ⟨hc, hl⟩ := List.pairwise_cons.mp h
      rw [insertList]
      by_cases hac : key a < key c
      · rw [if_pos hac]
        refine List.pairwise_cons.mpr ⟨?_, h⟩
        intro b hb
        rcases List.mem_cons.mp hb with rfl | hb
        · exact hac
        · exact lt_trans hac (hc b hb)
      · rw [if_neg hac]
        by_cases hca : key c < key a
        · rw [if_pos hca]
          refine List.pairwise_cons.mpr ⟨?_, ih hl⟩
          intro b hb
          rcases mem_of_mem_insertList hb with rfl | hb
          · exact hca
          · exact hc b hb
        · rw [if_neg hca]
          exact h

/-- Two elements of the set with one key are one element. -/
theorem eq_of_key_eq (s : KeySet key) (ha : a ∈ s.toList) (hb : b ∈ s.toList)
    (h : key a = key b) : a = b := by
  have hinj : ∀ {l : List α}, l.Pairwise (fun a b => key a < key b) →
      a ∈ l → b ∈ l → a = b := by
    intro l hl ha hb
    induction l with
    | nil => cases ha
    | cons c l ih =>
        obtain ⟨hc, hl⟩ := List.pairwise_cons.mp hl
        rcases List.mem_cons.mp ha with hac | ha
        · rcases List.mem_cons.mp hb with hbc | hb
          · rw [hac, hbc]
          · exact absurd (hac ▸ h) (ne_of_lt (hc b hb))
        · rcases List.mem_cons.mp hb with hbc | hb
          · exact absurd (hbc ▸ h.symm) (ne_of_lt (hc a ha))
          · exact ih hl ha hb
  exact hinj s.sorted ha hb

def empty (key : α → κ) : KeySet key := ⟨[], List.Pairwise.nil⟩

def insert (s : KeySet key) (a : α) : KeySet key :=
  ⟨insertList key a s.toList, sorted_insertList s.sorted a⟩

/-- The elements of the list, inserted one after the other. -/
def insertAll (s : KeySet key) (l : List α) : KeySet key := l.foldl insert s

def ofList (key : α → κ) (l : List α) : KeySet key := insertAll (empty key) l

theorem mem_insertAll {s : KeySet key} (h : a ∈ (insertAll s l).toList) :
    a ∈ s.toList ∨ a ∈ l := by
  induction l generalizing s with
  | nil => exact Or.inl h
  | cons b l ih =>
      rcases ih (s := s.insert b) h with h | h
      · rcases mem_of_mem_insertList h with rfl | h
        · exact Or.inr List.mem_cons_self
        · exact Or.inl h
      · exact Or.inr (List.mem_cons_of_mem _ h)

theorem mem_of_mem_ofList (h : a ∈ (ofList key l).toList) : a ∈ l :=
  (mem_insertAll h).resolve_left List.not_mem_nil

theorem mem_insertAll_of_mem {s : KeySet key} (h : a ∈ s.toList) :
    a ∈ (insertAll s l).toList := by
  induction l generalizing s with
  | nil => exact h
  | cons b l ih => exact ih (s := s.insert b) (mem_insertList_of_mem h)

/-- Each inserted key is there. -/
theorem exists_key_insertAll {s : KeySet key} (h : a ∈ l) :
    ∃ b ∈ (insertAll s l).toList, key b = key a := by
  induction l generalizing s with
  | nil => cases h
  | cons c l ih =>
      rcases List.mem_cons.mp h with rfl | h
      · obtain ⟨b, hb, hkey⟩ := exists_key_insertList key a s.toList
        exact ⟨b, mem_insertAll_of_mem (s := s.insert a) hb, hkey⟩
      · exact ih (s := s.insert c) h

/-- If no two keys are equal, every element is kept. -/
theorem mem_ofList (hl : ∀ a ∈ l, ∀ b ∈ l, key a = key b → a = b) (h : a ∈ l) :
    a ∈ (ofList key l).toList := by
  obtain ⟨b, hb, hkey⟩ := exists_key_insertAll (s := empty key) h
  rwa [hl a h b (mem_of_mem_ofList hb) hkey.symm]

end KeySet
