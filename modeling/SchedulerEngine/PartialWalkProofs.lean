import Mathlib.Logic.Function.Basic

/-! # Walks along a partial function

    A partial function `next` sends every point to at most one successor.  A
    walk follows it a number of times, and ends where there is no successor.
    Here is when every walk ends, and what giving one more point a successor,
    or taking one away, does to the walks. -/

namespace PartialWalk

variable {α : Type*} {next : α → Option α} {a b c : α} {j k : Nat}

/-- The point `k` successors after `a`, if there are that many. -/
def walk (next : α → Option α) : Nat → α → Option α
  | 0, a => some a
  | k + 1, a => (next a).bind (walk next k)

/-- The walk from `a` ends at `b`, after `k` successors. -/
def Ends (next : α → Option α) (k : Nat) (a b : α) : Prop :=
  walk next k a = some b ∧ next b = none

/-- No walk comes back to where it started. -/
def Acyclic (next : α → Option α) : Prop :=
  ∀ a k, walk next (k + 1) a ≠ some a

/-! ## Composing walks -/

@[simp] theorem walk_zero (next : α → Option α) (a : α) : walk next 0 a = some a := rfl

theorem walk_succ (next : α → Option α) (k : Nat) (a : α) :
    walk next (k + 1) a = (next a).bind (walk next k) := rfl

/-- The first successor, then the rest. -/
theorem walk_succ_of_next (h : next a = some b) :
    walk next (k + 1) a = walk next k b := by
  rw [walk_succ, h]
  rfl

theorem walk_succ_of_none (h : next a = none) : walk next (k + 1) a = none := by
  rw [walk_succ, h]
  rfl

theorem walk_add (next : α → Option α) (j k : Nat) (a : α) :
    walk next (j + k) a = (walk next j a).bind (walk next k) := by
  induction j generalizing a with
  | zero => simp
  | succ j ih =>
      rw [show j + 1 + k = (j + k) + 1 by omega, walk_succ, walk_succ]
      cases hn : next a with
      | none => rfl
      | some b => exact ih b

/-- A longer walk goes on from where a shorter one stands. -/
theorem walk_from (h : walk next j a = some b) :
    walk next (j + k) a = walk next k b := by
  rw [walk_add, h]
  rfl

theorem Ends.zero (h : next a = none) : Ends next 0 a a := ⟨rfl, h⟩

theorem Ends.succ (h : next a = some b) (he : Ends next k b c) :
    Ends next (k + 1) a c :=
  ⟨(walk_succ_of_next h).trans he.1, he.2⟩

/-- A walk that has a first successor ends where that successor's walk does. -/
theorem Ends.cases_on_next (he : Ends next k a c) :
    (k = 0 ∧ a = c ∧ next a = none) ∨
      ∃ i b, k = i + 1 ∧ next a = some b ∧ Ends next i b c := by
  cases k with
  | zero =>
      have hac : a = c := Option.some.inj he.1
      exact Or.inl ⟨rfl, hac, hac ▸ he.2⟩
  | succ i =>
      cases hn : next a with
      | none =>
          have := he.1
          rw [walk_succ_of_none hn] at this
          cases this
      | some b =>
          refine Or.inr ⟨i, b, rfl, rfl, ?_, he.2⟩
          rw [← walk_succ_of_next hn]
          exact he.1

/-- A walk that ends leaves its last point behind no sooner. -/
theorem Ends.le (h : Ends next j a b) (hk : walk next k a = some c) : k ≤ j := by
  by_contra hlt
  have hk' : walk next (j + ((k - j - 1) + 1)) a = some c := by
    rw [show j + ((k - j - 1) + 1) = k by omega]
    exact hk
  rw [walk_from h.1, walk_succ_of_none h.2] at hk'
  cases hk'

/-- Every point of a walk that ends has a walk that ends there too. -/
theorem Ends.rest (h : Ends next j a b) (hk : walk next k a = some c) :
    Ends next (j - k) c b := by
  have hle := h.le hk
  refine ⟨?_, h.2⟩
  rw [← walk_from hk, show k + (j - k) = j by omega]
  exact h.1

/-- A walk ends at most once. -/
theorem Ends.unique (h : Ends next j a b) (h' : Ends next k a c) : j = k ∧ b = c := by
  have hjk : j = k := Nat.le_antisymm (h'.le h.1) (h.le h'.1)
  subst hjk
  exact ⟨rfl, Option.some.inj (h.1.symm.trans h'.1)⟩

/-- A walk that comes to a point without successor ends there. -/
theorem Ends.at_end (h : Ends next j a b) (hk : walk next k a = some c)
    (hc : next c = none) : k = j ∧ c = b :=
  Ends.unique ⟨hk, hc⟩ h

/-- **WHERE EVERY WALK ENDS, NONE COMES BACK.** -/
theorem acyclic_of_ends (h : ∀ a, ∃ k b, Ends next k a b) : Acyclic next := by
  intro a k hback
  obtain ⟨j, b, he⟩ := h a
  have hrest := he.rest hback
  have hj := (he.unique hrest).1
  have hle := he.le hback
  omega

/-! ## Changing one point -/

variable [DecidableEq α] {n m r : α} {s : Option α}

theorem update_self : Function.update next n s n = s := Function.update_self ..

theorem update_of_ne (h : a ≠ n) : Function.update next n s a = next a :=
  Function.update_of_ne h ..

/-- A walk either passes `n` or does not see what `n`'s successor is: in the
    first case it reaches `n` within its length under any successor of `n`. -/
theorem Ends.update_or (h : Ends next k a b) (s : Option α) :
    (∃ j ≤ k, walk next j a = some n ∧ walk (Function.update next n s) j a = some n) ∨
      Ends (Function.update next n s) k a b := by
  induction k generalizing a with
  | zero =>
      by_cases han : a = n
      · subst han
        exact Or.inl ⟨0, Nat.le_refl _, rfl, rfl⟩
      · obtain ⟨-, rfl, hn⟩ | ⟨i, b', hi, -⟩ := h.cases_on_next
        · exact Or.inr (Ends.zero (by rw [update_of_ne han]; exact hn))
        · omega
  | succ k ih =>
      by_cases han : a = n
      · subst han
        exact Or.inl ⟨0, Nat.zero_le _, rfl, rfl⟩
      · obtain ⟨hk, -⟩ | ⟨i, b', hi, hn, hrest⟩ := h.cases_on_next
        · omega
        · obtain rfl : k = i := by omega
          have hn' : Function.update next n s a = some b' := by
            rw [update_of_ne han]
            exact hn
          obtain ⟨j, hj, hw, hw'⟩ | he := ih hrest
          · refine Or.inl ⟨j + 1, by omega, ?_, ?_⟩
            · exact (walk_succ_of_next hn).trans hw
            · exact (walk_succ_of_next hn').trans hw'
          · exact Or.inr (he.succ hn')

/-- A new successor `m` of the end `n`, from where the walk ends elsewhere: the
    walks that ended at `n` now go on to that end. -/
theorem Ends.link (hn : next n = none) (hm : Ends next k m r) (hr : r ≠ n)
    (h : Ends next j a b) :
    (b = n ∧ Ends (Function.update next n (some m)) (j + (1 + k)) a r) ∨
      (b ≠ n ∧ Ends (Function.update next n (some m)) j a b) := by
  -- the walk from `m` does not pass `n`, where it would have ended
  have hm' : Ends (Function.update next n (some m)) k m r := by
    obtain ⟨i, -, hw, -⟩ | he := hm.update_or (some m)
    · exact absurd (hm.at_end hw hn).2.symm hr
    · exact he
  have hnm : Ends (Function.update next n (some m)) (1 + k) n r := by
    rw [Nat.add_comm]
    exact Ends.succ update_self hm'
  obtain ⟨i, hi, hw, hw'⟩ | he := h.update_or (some m)
  · obtain ⟨rfl, rfl⟩ := h.at_end hw hn
    refine Or.inl ⟨rfl, ?_, hnm.2⟩
    rw [walk_from hw']
    exact hnm.1
  · refine Or.inr ⟨?_, he⟩
    intro hb
    have := he.2
    rw [hb, update_self] at this
    cases this

/-- A point that loses its successor: every walk still ends, and no later. -/
theorem Ends.unlink (h : Ends next k a b) :
    ∃ j ≤ k, ∃ e, Ends (Function.update next n none) j a e ∧ (e = n ∨ e = b) := by
  obtain ⟨j, hj, -, hw⟩ | he := h.update_or (n := n) none
  · exact ⟨j, hj, n, ⟨hw, update_self⟩, Or.inl rfl⟩
  · exact ⟨k, Nat.le_refl _, b, he, Or.inr rfl⟩

end PartialWalk
