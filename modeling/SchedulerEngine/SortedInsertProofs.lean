import Mathlib.Order.Lattice
import Mathlib.Data.List.Basic

/-! # Insertion into a list sorted by a key

    Every element has a key in a linear order, and the list is sorted by it.  An
    element is inserted after the ones whose keys are not greater, as a queue
    with priorities does. -/

namespace SortedInsert

variable {α κ : Type*} [LinearOrder κ] {key key' : α → κ} {a b : α} {l l' : List α}

/-- The keys of the list do not decrease. -/
def Sorted (key : α → κ) (l : List α) : Prop := l.Pairwise fun a b => key a ≤ key b

/-- Insert after the elements whose keys are not greater. -/
def insertByKey (key : α → κ) (a : α) : List α → List α
  | [] => [a]
  | b :: rest => if key b ≤ key a then b :: insertByKey key a rest else a :: b :: rest

theorem insertByKey_of_le (h : key b ≤ key a) :
    insertByKey key a (b :: l) = b :: insertByKey key a l := if_pos h

theorem insertByKey_of_lt (h : key a < key b) :
    insertByKey key a (b :: l) = a :: b :: l := if_neg (not_le_of_gt h)

/-- Insertion adds the element and keeps the others. -/
theorem insertByKey_perm (key : α → κ) (a : α) (l : List α) :
    (insertByKey key a l).Perm (a :: l) := by
  induction l with
  | nil => exact List.Perm.refl _
  | cons b l ih =>
      by_cases h : key b ≤ key a
      · rw [insertByKey_of_le h]
        exact (ih.cons b).trans (List.Perm.swap a b l)
      · rw [insertByKey_of_lt (lt_of_not_ge h)]

theorem mem_insertByKey : b ∈ insertByKey key a l ↔ b = a ∨ b ∈ l := by
  rw [(insertByKey_perm key a l).mem_iff, List.mem_cons]

/-- Insertion keeps the list sorted. -/
theorem Sorted.insert (h : Sorted key l) (a : α) :
    Sorted key (insertByKey key a l) := by
  induction l with
  | nil => exact List.pairwise_singleton _ a
  | cons b l ih =>
      obtain ⟨hb, hl⟩ := List.pairwise_cons.mp h
      by_cases hab : key b ≤ key a
      · rw [insertByKey_of_le hab]
        refine List.pairwise_cons.mpr ⟨?_, ih hl⟩
        intro c hc
        obtain rfl | hc := mem_insertByKey.mp hc
        · exact hab
        · exact hb c hc
      · have hlt := lt_of_not_ge hab
        rw [insertByKey_of_lt hlt]
        refine List.pairwise_cons.mpr ⟨?_, h⟩
        intro c hc
        obtain rfl | hc := List.mem_cons.mp hc
        · exact hlt.le
        · exact hlt.le.trans (hb c hc)

/-- Taking elements out keeps the list sorted. -/
theorem Sorted.sublist (h : Sorted key l) (hs : l'.Sublist l) : Sorted key l' :=
  List.Pairwise.sublist hs h

/-- Only the keys of the elements matter. -/
theorem Sorted.congr (h : Sorted key l) (hk : ∀ a ∈ l, key' a = key a) : Sorted key' l := by
  refine h.imp_of_mem ?_
  intro a b ha hb hab
  rw [hk a ha, hk b hb]
  exact hab

/-- The first element that satisfies `p` has the least key of those that do. -/
theorem Sorted.find_le {p : α → Bool} (h : Sorted key l) (hf : l.find? p = some a)
    (hb : b ∈ l) (hp : p b = true) : key a ≤ key b := by
  induction l with
  | nil => cases hb
  | cons c l ih =>
      obtain ⟨hc, hl⟩ := List.pairwise_cons.mp h
      cases hpc : p c with
      | true =>
          rw [List.find?_cons_of_pos hpc] at hf
          cases hf
          obtain rfl | hb := List.mem_cons.mp hb
          · exact le_refl _
          · exact hc b hb
      | false =>
          rw [List.find?_cons_of_neg (by rw [hpc]; nofun)] at hf
          obtain rfl | hb := List.mem_cons.mp hb
          · rw [hpc] at hp
            cases hp
          · exact ih hl hf hb

/-- A new key for one element of the list, that fits between what stands before
    it and what stands after it. -/
theorem Sorted.rekey {before after : List α} (h : Sorted key (before ++ a :: after))
    (hkey : ∀ b, b ∈ before ∨ b ∈ after → key' b = key b)
    (hbefore : ∀ b ∈ before, key b ≤ key' a) (hafter : ∀ b ∈ after, key' a ≤ key b) :
    Sorted key' (before ++ a :: after) := by
  obtain ⟨hb, haa, hcross⟩ := List.pairwise_append.mp h
  obtain ⟨-, ha⟩ := List.pairwise_cons.mp haa
  have hb : Sorted key before := hb
  have ha : Sorted key after := ha
  refine List.pairwise_append.mpr ⟨?_, List.pairwise_cons.mpr ⟨?_, ?_⟩, ?_⟩
  · exact hb.congr fun b hm => hkey b (Or.inl hm)
  · intro b hm
    rw [hkey b (Or.inr hm)]
    exact hafter b hm
  · exact ha.congr fun b hm => hkey b (Or.inr hm)
  · intro b hm c hc
    rw [hkey b (Or.inl hm)]
    obtain rfl | hc := List.mem_cons.mp hc
    · exact hbefore b hm
    · rw [hkey c (Or.inr hc)]
      exact hcross b hm c (List.mem_cons_of_mem _ hc)

end SortedInsert
