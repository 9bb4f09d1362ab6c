import Mathlib.Data.List.Basic

/-! # Lines and chunks

    A text is cut at a separator into lines, and a line into chunks of a length. -/

namespace LineSplit

variable {α : Type} {n : Nat} {l q u : List α} {a : α}

/-! ## Chunks -/

/-- Pieces of length `n`, the last one possibly shorter. -/
def chunks (n : Nat) (l : List α) : List (List α) :=
  if _ : l = [] ∨ n = 0 then []
  else l.take n :: chunks n (l.drop n)
termination_by l.length
decreasing_by
  rename_i h
  rw [List.length_drop]
  have := List.length_pos_iff.mpr (not_or.mp h).1
  have := Nat.pos_of_ne_zero (not_or.mp h).2
  omega

theorem chunks_nil (n : Nat) : chunks n ([] : List α) = [] := by
  rw [chunks, dif_pos (Or.inl rfl)]

theorem chunks_of_ne_nil (hn : 0 < n) (hl : l ≠ []) :
    chunks n l = l.take n :: chunks n (l.drop n) := by
  rw [chunks, dif_neg (not_or.mpr ⟨hl, Nat.pos_iff_ne_zero.mp hn⟩)]

theorem chunks_of_length_le (hn : 0 < n) (hl : l ≠ []) (h : l.length ≤ n) : chunks n l = [l] := by
  rw [chunks_of_ne_nil hn hl, List.take_of_length_le h, List.drop_of_length_le h, chunks_nil]

theorem chunks_append (hn : 0 < n) (hq : q.length = n) (l : List α) :
    chunks n (q ++ l) = q :: chunks n l := by
  have hne : q ++ l ≠ [] := by
    refine List.append_ne_nil_of_left_ne_nil (List.length_pos_iff.mp ?_) l
    rw [hq]
    exact hn
  rw [chunks_of_ne_nil hn hne, List.take_left' hq, List.drop_left' hq]

/-- Full chunks are cut from what follows them. -/
theorem chunks_append_of_dvd (hn : 0 < n) (hq : n ∣ q.length) (l : List α) :
    chunks n (q ++ l) = chunks n q ++ chunks n l := by
  obtain ⟨k, hk⟩ := hq
  induction k generalizing q with
  | zero =>
      obtain rfl := List.length_eq_zero_iff.mp hk
      rw [chunks_nil]
      rfl
  | succ k ih =>
      have hlength : (q.take n).length = n := by
        rw [List.length_take, hk, Nat.mul_succ]
        omega
      have hrest : (q.drop n).length = n * k := by
        rw [List.length_drop, hk, Nat.mul_succ]
        omega
      have hq : q = q.take n ++ q.drop n := (List.take_append_drop n q).symm
      rw [hq, List.append_assoc, chunks_append hn hlength, chunks_append hn hlength, ih hrest]
      rfl

/-- A text is not longer than a chunk, or begins with a full one. -/
theorem chunk_induction {P : List α → Prop} (hn : 0 < n) (short : ∀ l, l.length ≤ n → P l)
    (long : ∀ c d, c.length = n → d ≠ [] → P d → P (c ++ d)) (l : List α) : P l := by
  induction hlength : l.length using Nat.strongRecOn generalizing l with
  | ind m ih =>
      by_cases h : l.length ≤ n
      · exact short l h
      · have hfirst : (l.take n).length = n := by
          rw [List.length_take]
          omega
        have hrest : (l.drop n).length < m := by
          rw [List.length_drop]
          omega
        have hne : l.drop n ≠ [] := by
          rw [← List.length_pos_iff, List.length_drop]
          omega
        rw [← List.take_append_drop n l]
        exact long _ _ hfirst hne (ih _ hrest _ rfl)

/-- The last place of each chunk. -/
def chunkEnd (n k : Nat) : Nat := (k + 1) * n - 1

theorem chunkEnd_zero (hn : 0 < n) : chunkEnd n 0 + 1 = n := by
  rw [chunkEnd]
  omega

theorem chunkEnd_succ (hn : 0 < n) (k : Nat) : chunkEnd n (k + 1) = n + chunkEnd n k := by
  have hk : 0 < (k + 1) * n := Nat.mul_pos (Nat.succ_pos k) hn
  rw [chunkEnd, chunkEnd, Nat.succ_mul (k + 1)]
  omega

theorem le_chunkEnd (n k : Nat) : n ≤ chunkEnd n k + 1 := by
  have h : 1 * n ≤ (k + 1) * n := Nat.mul_le_mul_right n (Nat.succ_le_succ (Nat.zero_le k))
  rw [chunkEnd]
  omega

theorem chunkEnd_of_dvd (hn : 0 < n) (hl : n ∣ l.length) (hne : l ≠ []) :
    ∃ k, chunkEnd n k + 1 = l.length := by
  obtain ⟨k, hk⟩ := hl
  have hpos := List.length_pos_iff.mpr hne
  cases k with
  | zero =>
      rw [Nat.mul_zero] at hk
      omega
  | succ k =>
      have hk' : 0 < (k + 1) * n := Nat.mul_pos (Nat.succ_pos k) hn
      refine ⟨k, ?_⟩
      rw [chunkEnd, hk, Nat.mul_comm n]
      omega

theorem getElem?_chunkEnd_zero (hq : q.length = n) (hn : 0 < n) (l : List α) :
    (q ++ l)[chunkEnd n 0]? = q.getLast? := by
  have hend := chunkEnd_zero hn
  have hlast : chunkEnd n 0 = q.length - 1 := by omega
  rw [List.getElem?_append_left (by omega), List.getLast?_eq_getElem?, hlast]

theorem getElem?_chunkEnd_succ (hq : q.length = n) (hn : 0 < n) (l : List α) (k : Nat) :
    (q ++ l)[chunkEnd n (k + 1)]? = l[chunkEnd n k]? := by
  rw [chunkEnd_succ hn, List.getElem?_append_right (by omega), hq, Nat.add_sub_cancel_left]

/-! ## Lines -/

variable [DecidableEq α]

/-- The last separator cuts a text. -/
theorem exists_last (a : α) (l : List α) : a ∉ l ∨ ∃ u v, l = u ++ a :: v ∧ a ∉ v := by
  induction l with
  | nil => exact Or.inl List.not_mem_nil
  | cons b l ih =>
      rcases ih with ih | ⟨u, v, rfl, hv⟩
      · by_cases h : b = a
        · exact Or.inr ⟨[], l, by rw [h]; rfl, ih⟩
        · refine Or.inl fun hmem => ?_
          rcases List.mem_cons.mp hmem with hmem | hmem
          · exact h hmem.symm
          · exact ih hmem
      · exact Or.inr ⟨b :: u, v, rfl, hv⟩

/-- The last line of a text can be continued. -/
def Open (a : α) (q l : List α) : Prop :=
  a ∉ q ∧ ∃ lines, ∀ t, (l ++ t).splitOn a = lines ++ (q ++ t).splitOn a

theorem open_nil (a : α) : Open a [] [] := ⟨List.not_mem_nil, [], fun _ => rfl⟩

theorem open_cut (a : α) (l : List α) : Open a [] (l ++ [a]) := by
  refine ⟨List.not_mem_nil, l.splitOn a, fun t => ?_⟩
  rw [List.append_assoc]
  exact List.splitOn_append_cons_self l t

theorem Open.append (h : Open a q l) (hu : a ∉ u) : Open a (q ++ u) (l ++ u) := by
  obtain ⟨hq, lines, hlines⟩ := h
  refine ⟨?_, lines, fun t => ?_⟩
  · rw [List.mem_append, not_or]
    exact ⟨hq, hu⟩
  · rw [List.append_assoc, hlines, List.append_assoc]

/-- What is in front of the first separator belongs to the line before it. -/
theorem splitOn_append (hq : a ∉ q) (u : List α) :
    ∃ first rest, u.splitOn a = first :: rest ∧ (q ++ u).splitOn a = (q ++ first) :: rest := by
  induction q with
  | nil =>
      obtain ⟨first, rest, h⟩ := List.exists_cons_of_ne_nil (List.splitOn_ne_nil a u)
      exact ⟨first, rest, h, h⟩
  | cons b q ih =>
      rw [List.mem_cons, not_or] at hq
      obtain ⟨first, rest, hu, hq'⟩ := ih hq.2
      refine ⟨first, rest, hu, ?_⟩
      have hb : ¬(b == a) = true := fun h => hq.1 (eq_of_beq h).symm
      rw [List.cons_append, List.splitOn_cons_eq_if_modifyHead, if_neg hb, hq']
      rfl

theorem length_le_of_mem_splitOn (h : q ∈ l.splitOn a) : q.length ≤ l.length := by
  induction l generalizing q with
  | nil =>
      rw [List.splitOn_nil] at h
      exact Nat.le_of_eq (congrArg List.length (List.mem_singleton.mp h))
  | cons b l ih =>
      rw [List.splitOn_cons_eq_if_modifyHead] at h
      rw [List.length_cons]
      split at h
      · rcases List.mem_cons.mp h with rfl | h
        · exact Nat.zero_le _
        · exact Nat.le_succ_of_le (ih h)
      · obtain ⟨first, rest, hl⟩ := List.exists_cons_of_ne_nil (List.splitOn_ne_nil a l)
        rw [hl, List.modifyHead_cons] at h
        rcases List.mem_cons.mp h with rfl | h
        · exact Nat.succ_le_succ (ih (hl ▸ List.mem_cons_self))
        · exact Nat.le_succ_of_le (ih (hl ▸ List.mem_cons_of_mem _ h))

end LineSplit
