import Mathlib.Algebra.Ring.Int.Defs
import Mathlib.Algebra.Ring.Nat
import Mathlib.Order.Lattice

/-! # Multiples, and 64-bit arithmetic

    The first multiple of a number from a given one on, what truncated division
    makes of it, and what is left of it in 64 bits. -/

namespace Multiple

variable {g g' x y r r' : Int}

/-! ## The next multiple -/

/-- `r` is the first multiple of `g` from `x` on. -/
structure Ceiling (g x r : Int) : Prop where
  dvd : g ∣ r
  ge : x ≤ r
  lt : r < x + g

/-- No multiple of `g` from `x` on comes before the first one. -/
theorem Ceiling.le_of_dvd (h : Ceiling g x r) (hy : g ∣ y) (hxy : x ≤ y) : r ≤ y := by
  by_contra hlt
  have hpos : 0 < r - y := by omega
  have := Int.le_of_dvd hpos (Int.dvd_sub h.dvd hy)
  have := h.lt
  omega

/-- A coarser grid does not change the order. -/
theorem Ceiling.le_of_ceiling (h : Ceiling g x r) (h' : Ceiling g' y r') (hg : g ∣ g')
    (hxy : x ≤ y) : r ≤ r' :=
  h.le_of_dvd (Int.dvd_trans hg h'.dvd) (le_trans hxy h'.ge)

/-- Division truncates: below zero the quotient is rounded up. -/
theorem tdiv_mul_of_nonneg (hg : 0 < g) (hx : 0 ≤ x) :
    x.tdiv g * g ≤ x ∧ x < x.tdiv g * g + g := by
  have h1 := Int.mul_ediv_self_le (x := x) (Int.ne_of_gt hg)
  have h2 := Int.lt_mul_ediv_self_add (x := x) hg
  rw [Int.tdiv_eq_ediv_of_nonneg hx, Int.mul_comm (x / g)]
  exact ⟨h1, h2⟩

theorem tdiv_mul_of_nonpos (hg : 0 < g) (hx : x ≤ 0) :
    x ≤ x.tdiv g * g ∧ x.tdiv g * g < x + g := by
  have h := tdiv_mul_of_nonneg (x := -x) hg (by omega)
  rw [Int.neg_tdiv, Int.neg_mul] at h
  omega

/-! ## In 64 bits -/

/-- What does not fit into 64 bits is wrapped around. -/
theorem exists_bmod (x : Int) : ∃ k : Int, x.bmod (2 ^ 64) = x + k * 2 ^ 64 ∧
    -2 ^ 63 ≤ x.bmod (2 ^ 64) ∧ x.bmod (2 ^ 64) < 2 ^ 63 := by
  refine ⟨if x % 2 ^ 64 < 2 ^ 63 then -(x / 2 ^ 64) else -(x / 2 ^ 64) - 1, ?_⟩
  rw [Int.bmod_def]
  have hpow : ((2 ^ 64 : Nat) : Int) = 2 ^ 64 := rfl
  rw [hpow]
  split <;> split <;> omega

/-- A quotient times its divisor is not wider than the dividend. -/
theorem toInt_div_mul {x g : Int64} (hg : 0 < g.toInt) :
    (x / g * g).toInt = x.toInt.tdiv g.toInt * g.toInt := by
  have b1 := x.le_toInt
  have b2 := x.toInt_lt
  have hdiv : (x / g).toInt = x.toInt.tdiv g.toInt := by
    refine Int64.toInt_div_of_ne_right x g ?_
    rintro rfl
    exact absurd hg (by decide)
  obtain ⟨k, hk⟩ := exists_bmod (x.toInt.tdiv g.toInt * g.toInt)
  rw [Int64.toInt_mul, hdiv]
  rcases le_total 0 x.toInt with hx | hx
  · have h := tdiv_mul_of_nonneg hg hx
    have hnn := Int.mul_nonneg (Int.tdiv_nonneg hx (le_of_lt hg)) (le_of_lt hg)
    omega
  · have h := tdiv_mul_of_nonpos hg hx
    have hnp : x.toInt.tdiv g.toInt * g.toInt ≤ 0 := by
      have := tdiv_mul_of_nonneg (x := -x.toInt) hg (by omega)
      have hnn := Int.mul_nonneg (Int.tdiv_nonneg (a := -x.toInt) (by omega) (le_of_lt hg))
        (le_of_lt hg)
      rw [Int.neg_tdiv, Int.neg_mul] at hnn
      omega
    omega

end Multiple
