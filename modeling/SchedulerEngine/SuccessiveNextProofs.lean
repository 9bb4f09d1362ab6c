import Mathlib.Data.List.Basic
import Mathlib.Order.Lattice
import Mathlib.Data.Int.Order.Basic

/-! # One answer after the other

    A function tells the next instant from a time on.  It is asked again right
    after each instant that it has told. -/

namespace SuccessiveNext

variable {next : Int → Option Int} {Q : Int → Prop} {t x a b : Int} {m n : Nat}

/-- The answer number `n`, when one begins to ask at `t`. -/
def deliver (next : Int → Option Int) (t : Int) : Nat → Option Int
  | 0 => next t
  | n + 1 => (next t).bind fun b => deliver next (b + 1) n

theorem deliver_succ (h : next t = some b) :
    deliver next t (n + 1) = deliver next (b + 1) n := by
  rw [deliver, h]
  rfl

theorem deliver_succ_none (h : next t = none) : deliver next t (n + 1) = none := by
  rw [deliver, h]
  rfl

/-- Each answer is the answer at one of the times of asking. -/
theorem exists_of_deliver (hQ : ∀ t b, Q t → next t = some b → Q (b + 1)) (ht : Q t)
    (h : deliver next t n = some x) : ∃ u, Q u ∧ next u = some x := by
  induction n generalizing t with
  | zero => exact ⟨t, ht, h⟩
  | succ n ih =>
      cases hn : next t with
      | none =>
          rw [deliver_succ_none hn] at h
          cases h
      | some b =>
          rw [deliver_succ hn] at h
          exact ih (hQ t b ht hn) h

/-- After an answer, the next one is asked for right behind it. -/
theorem deliver_next (h : deliver next t n = some b) :
    deliver next t (n + 1) = next (b + 1) := by
  induction n generalizing t with
  | zero => exact deliver_succ h
  | succ n ih =>
      cases hc : next t with
      | none =>
          rw [deliver_succ_none hc] at h
          cases h
      | some c =>
          rw [deliver_succ hc] at h ⊢
          exact ih h

/-- An instant is reached if the answers go on to it without passing it. -/
theorem exists_deliver (hQ : ∀ t b, Q t → next t = some b → Q (b + 1))
    (h : ∀ u, Q u → t ≤ u → u ≤ x → ∃ b, next u = some b ∧ u ≤ b ∧ b ≤ x)
    (hq : Q t) (ht : t ≤ x) : ∃ n, deliver next t n = some x := by
  obtain ⟨d, hd⟩ : ∃ d : Nat, x - t = d := ⟨(x - t).toNat, by omega⟩
  induction d using Nat.strong_induction_on generalizing t with
  | _ d ih =>
      obtain ⟨b, hb, htb, hbx⟩ := h t hq (le_refl t) ht
      rcases eq_or_lt_of_le hbx with rfl | hlt
      · exact ⟨0, hb⟩
      · obtain ⟨n, hn⟩ := ih (x - (b + 1)).toNat (by omega)
          (fun u hqu hu hux => h u hqu (by omega) hux) (t := b + 1) (hQ t b hq hb) (by omega)
          (by omega)
        exact ⟨n + 1, by rw [deliver_succ hb, hn]⟩

/-- Beyond an instant it is not told again if no answer goes back to it. -/
theorem deliver_ne (hQ : ∀ t b, Q t → next t = some b → Q (b + 1))
    (h : ∀ t b, Q t → x < t → next t = some b → x < b) (hq : Q t) (ht : x < t) :
    deliver next t n ≠ some x := by
  induction n generalizing t with
  | zero =>
      intro hn
      exact lt_irrefl x (h t x hq ht hn)
  | succ n ih =>
      intro hn
      cases hb : next t with
      | none =>
          rw [deliver_succ_none hb] at hn
          cases hn
      | some b =>
          rw [deliver_succ hb] at hn
          have hxb := h t b hq ht hb
          exact ih (hQ t b hq hb) (by omega) hn

/-- An instant is told at most once if no later answer goes back to it. -/
theorem deliver_unique (hQ : ∀ t b, Q t → next t = some b → Q (b + 1))
    (h : ∀ t b, Q t → x < t → next t = some b → x < b) (hq : Q t)
    (hm : deliver next t m = some x) (hn : deliver next t n = some x) : m = n := by
  induction m generalizing t n with
  | zero =>
      cases n with
      | zero => rfl
      | succ n =>
          rw [deliver_succ hm] at hn
          exact absurd hn (deliver_ne hQ h (hQ t x hq hm) (by omega))
  | succ m ih =>
      cases hb : next t with
      | none =>
          rw [deliver_succ_none hb] at hm
          cases hm
      | some b =>
          rw [deliver_succ hb] at hm
          cases n with
          | zero =>
              rw [deliver, hb, Option.some.injEq] at hn
              rw [hn] at hb hm
              exact absurd hm (deliver_ne hQ h (hQ t x hq hb) (by omega))
          | succ n =>
              rw [deliver_succ hb] at hn
              rw [ih (hQ t b hq hb) hm hn]

/-- If no answer goes back, the answers increase. -/
theorem deliver_lt (hQ : ∀ t b, Q t → next t = some b → Q (b + 1))
    (h : ∀ t b, Q t → next t = some b → t ≤ b) (hq : Q t) (hmn : m < n)
    (hm : deliver next t m = some a) (hn : deliver next t n = some b) : a < b := by
  -- every answer from a time on is not before it
  have hge : ∀ {k t y}, Q t → deliver next t k = some y → t ≤ y := by
    intro k
    induction k with
    | zero =>
        intro t y hq hk
        exact h t y hq hk
    | succ k ih =>
        intro t y hq hk
        cases hc : next t with
        | none =>
            rw [deliver_succ_none hc] at hk
            cases hk
        | some c =>
            rw [deliver_succ hc] at hk
            have hc' := h t c hq hc
            have hy := ih (hQ t c hq hc) hk
            omega
  induction m generalizing t n with
  | zero =>
      obtain ⟨n, rfl⟩ := Nat.exists_eq_succ_of_ne_zero (Nat.pos_iff_ne_zero.mp hmn)
      rw [Nat.succ_eq_add_one, deliver_succ hm] at hn
      have := hge (hQ t a hq hm) hn
      omega
  | succ m ih =>
      obtain ⟨n, rfl⟩ := Nat.exists_eq_succ_of_ne_zero (Nat.ne_of_gt (Nat.lt_of_le_of_lt (Nat.zero_le _) hmn))
      cases hc : next t with
      | none =>
          rw [deliver_succ_none hc] at hm
          cases hm
      | some c =>
          rw [deliver_succ hc] at hm
          rw [Nat.succ_eq_add_one, deliver_succ hc] at hn
          exact ih (hQ t c hq hc) (Nat.lt_of_succ_lt_succ hmn) hm hn

end SuccessiveNext
