import Mathlib.Tactic.SplitIfs
import SchedulerEngine.MultipleProofs

/-! # Rounding up of timer instants

    `TimerService` rounds the instant of a timer up, so that timers share their
    wake-ups.  The granularity grows with the distance from the current time, and
    the milliseconds are 64 bit wide. -/

namespace TimerRounding

open Multiple

variable {g r m : Int}

/-! ## `roundUp` -/

/-- A `java.time.Instant`, in nanoseconds from 1970 on. -/
structure Instant where
  nano : Int
deriving DecidableEq, Repr

namespace Instant

/-- `toEpochMilli` rounds down; what does not fit into 64 bits is refused. -/
def toEpochMilli (t : Instant) : Option Int64 :=
  if -2 ^ 63 ≤ t.nano / 1000000 ∧ t.nano / 1000000 < 2 ^ 63
  then some (Int64.ofInt (t.nano / 1000000)) else none

def ofEpochMilli (millis : Int64) : Instant := ⟨millis.toInt * 1000000⟩

@[simp] theorem ofEpochMilli_nano (d : Int64) : (ofEpochMilli d).nano = d.toInt * 1000000 := rfl

/-- The instant is a whole number of milliseconds. -/
def Whole (t : Instant) : Prop := 1000000 ∣ t.nano

end Instant

/-- `Long.MaxValue`. -/
def neverMillis : Int64 := Int64.maxValue

/-- The private `roundUp`: the granularity for a distance. -/
def granularity (millis : Int64) : Int64 :=
  if 10000 ≤ millis then 1000
  else if 5000 ≤ millis then 500
  else if 1000 ≤ millis then 100
  else if 500 ≤ millis then 50
  else if 100 ≤ millis then 10
  else 1

def roundUp (at_ : Instant) (currentTimeMillis : Int64) : Option Instant := do
  let atMillis ← at_.toEpochMilli
  let round := granularity (atMillis - currentTimeMillis)
  return Instant.ofEpochMilli ((atMillis + round - 1) / round * round)

/-! ## In 64 bits -/

variable {m₁ m₂ : Int} {at_ at₁ at₂ : Instant} {a a₁ a₂ d d₁ d₂ now : Int64}

theorem toEpochMilli_eq (h : at_.toEpochMilli = some a) : a.toInt = at_.nano / 1000000 := by
  rw [Instant.toEpochMilli] at h
  split at h
  · rename_i hfit
    cases h
    exact Int64.toInt_ofInt_of_le hfit.1 hfit.2
  · cases h

theorem granularity_cases (d : Int64) :
    (granularity d = 1000 ∧ 10000 ≤ d.toInt) ∨
    (granularity d = 500 ∧ 5000 ≤ d.toInt ∧ d.toInt < 10000) ∨
    (granularity d = 100 ∧ 1000 ≤ d.toInt ∧ d.toInt < 5000) ∨
    (granularity d = 50 ∧ 500 ≤ d.toInt ∧ d.toInt < 1000) ∨
    (granularity d = 10 ∧ 100 ≤ d.toInt ∧ d.toInt < 500) ∨
    (granularity d = 1 ∧ d.toInt < 100) := by
  have h1 : (10000 : Int64) ≤ d ↔ 10000 ≤ d.toInt := Int64.le_iff_toInt_le
  have h2 : (5000 : Int64) ≤ d ↔ 5000 ≤ d.toInt := Int64.le_iff_toInt_le
  have h3 : (1000 : Int64) ≤ d ↔ 1000 ≤ d.toInt := Int64.le_iff_toInt_le
  have h4 : (500 : Int64) ≤ d ↔ 500 ≤ d.toInt := Int64.le_iff_toInt_le
  have h5 : (100 : Int64) ≤ d ↔ 100 ≤ d.toInt := Int64.le_iff_toInt_le
  simp only [granularity, h1, h2, h3, h4, h5]
  split_ifs <;> simp <;> omega

theorem granularity_bounds (d : Int64) :
    1 ≤ (granularity d).toInt ∧ (granularity d).toInt ≤ 1000 := by
  obtain ⟨h, -⟩ | ⟨h, -⟩ | ⟨h, -⟩ | ⟨h, -⟩ | ⟨h, -⟩ | ⟨h, -⟩ := granularity_cases d <;>
    rw [h] <;> decide

/-- The granularities divide each other. -/
theorem granularity_dvd (h : d₁.toInt ≤ d₂.toInt) :
    (granularity d₁).toInt ∣ (granularity d₂).toInt := by
  obtain ⟨h1, hd1⟩ | ⟨h1, hd1⟩ | ⟨h1, hd1⟩ | ⟨h1, hd1⟩ | ⟨h1, hd1⟩ | ⟨h1, hd1⟩ :=
    granularity_cases d₁ <;>
  obtain ⟨h2, hd2⟩ | ⟨h2, hd2⟩ | ⟨h2, hd2⟩ | ⟨h2, hd2⟩ | ⟨h2, hd2⟩ | ⟨h2, hd2⟩ :=
    granularity_cases d₂ <;>
  first
    | omega
    | simp only [h1, h2]; decide

/-- A granularity that does not divide the one of a later time comes from a
    distance that does not fit into 64 bits. -/
theorem granularity_dvd_or (h : a₁.toInt ≤ a₂.toInt) :
    (granularity (a₁ - now)).toInt ∣ (granularity (a₂ - now)).toInt ∨
      granularity (a₂ - now) = 1 ∨ a₁.toInt + 1000 ≤ a₂.toInt := by
  by_cases hle : (a₁ - now).toInt ≤ (a₂ - now).toInt
  · exact Or.inl (granularity_dvd hle)
  · refine Or.inr ?_
    have b1 := a₁.le_toInt
    have b2 := a₂.toInt_lt
    have b3 := now.le_toInt
    have b4 := now.toInt_lt
    obtain ⟨k₁, hk₁⟩ := exists_bmod (a₁.toInt - now.toInt)
    obtain ⟨k₂, hk₂⟩ := exists_bmod (a₂.toInt - now.toInt)
    rw [Int64.toInt_sub, Int64.toInt_sub] at hle
    by_cases hneg : (a₂ - now).toInt < 100
    · refine Or.inl ?_
      obtain ⟨-, hd⟩ | ⟨-, hd⟩ | ⟨-, hd⟩ | ⟨-, hd⟩ | ⟨-, hd⟩ | ⟨h1, -⟩ :=
        granularity_cases (a₂ - now)
      · omega
      · omega
      · omega
      · omega
      · omega
      · exact h1
    · rw [Int64.toInt_sub] at hneg
      omega

/-- The sum is 64 bits wide. -/
theorem toInt_sum (a : Int64) (d : Int64) :
    (a + granularity d - 1).toInt
      = if a.toInt + (granularity d).toInt ≤ 2 ^ 63
        then a.toInt + (granularity d).toInt - 1
        else a.toInt + (granularity d).toInt - 1 - 2 ^ 64 := by
  have hone : (1 : Int64).toInt = 1 := rfl
  obtain ⟨h1, h2⟩ := granularity_bounds d
  have b1 := a.le_toInt
  have b2 := a.toInt_lt
  obtain ⟨k, hk⟩ := exists_bmod (a.toInt + (granularity d).toInt)
  obtain ⟨j, hj⟩ := exists_bmod ((a.toInt + (granularity d).toInt).bmod (2 ^ 64) - 1)
  rw [Int64.toInt_sub, Int64.toInt_add, hone]
  split <;> omega

/-! ## Which instants are rounded up -/

/-- The rounded instant is not before `at`, and less than the granularity after it. -/
def RoundsUp (now : Int64) (at_ : Instant) : Prop :=
  ∃ a r, at_.toEpochMilli = some a ∧ roundUp at_ now = some r ∧ at_.nano ≤ r.nano ∧
    r.nano < at_.nano + (granularity (a - now)).toInt * 1000000

def InOrder (now : Int64) (at₁ at₂ : Instant) : Prop :=
  ∃ r₁ r₂, roundUp at₁ now = some r₁ ∧ roundUp at₂ now = some r₂ ∧ r₁.nano ≤ r₂.nano

/-- The sum with the granularity fits into 64 bits.  From the last granule before
    1970 on, a fraction of a millisecond is only made up for by rounding; before,
    the division rounds up a second time. -/
def Fits (at_ : Instant) (m g : Int) : Prop :=
  m + g ≤ 2 ^ 63 ∧
    (-g < m ∧ (at_.Whole ∨ ¬g ∣ m) ∨
      m ≤ -g ∧ (at_.Whole ∧ g ∣ m - 1 ∨ ¬at_.Whole ∧ g ≠ 1 ∧ (g ∣ m ∨ g ∣ m - 1)))

theorem roundUp_eq (h : at_.toEpochMilli = some a) :
    roundUp at_ now = some (Instant.ofEpochMilli ((a + granularity (a - now) - 1)
      / granularity (a - now) * granularity (a - now))) := by
  rw [roundUp, h]
  rfl

theorem whole_iff (hm : m = at_.nano / 1000000) : at_.Whole ↔ at_.nano = m * 1000000 := by
  rw [Instant.Whole, hm]
  omega

/-- The quotient is rounded down. -/
theorem ceiling_iff_of_floor (hm : m = at_.nano / 1000000) (hr : g ∣ r)
    (h1 : r ≤ m + g - 1) (h2 : m + g - 1 < r + g) :
    Ceiling (g * 1000000) at_.nano (r * 1000000) ↔ at_.Whole ∨ ¬g ∣ m := by
  have hw := whole_iff hm
  constructor
  · intro h
    by_cases hwhole : at_.Whole
    · exact Or.inl hwhole
    · refine Or.inr fun hd => ?_
      -- `m` itself is the multiple, before `at`
      have hge := h.ge
      have hpos : 0 < r - m := by
        rw [hw] at hwhole
        omega
      have := Int.le_of_dvd hpos (Int.dvd_sub hr hd)
      omega
  · intro h
    refine ⟨Int.mul_dvd_mul hr (Int.dvd_refl _), ?_, by omega⟩
    rcases h with h | h
    · rw [hw] at h
      omega
    · have hne : r ≠ m := fun heq => h (heq ▸ hr)
      omega

/-- The quotient is rounded up. -/
theorem ceiling_iff_of_ceil (hg : 1 ≤ g) (hm : m = at_.nano / 1000000) (hr : g ∣ r)
    (h1 : m + g - 1 ≤ r) (h2 : r < m + g - 1 + g) :
    Ceiling (g * 1000000) at_.nano (r * 1000000) ↔
      at_.Whole ∧ g ∣ m - 1 ∨ ¬at_.Whole ∧ g ≠ 1 ∧ (g ∣ m ∨ g ∣ m - 1) := by
  have hw := whole_iff hm
  have hdvd : ∀ x, r = x + g → g ∣ x := by
    intro x hx
    have := Int.dvd_sub hr (Int.dvd_refl g)
    rw [hx, Int.add_sub_cancel] at this
    exact this
  constructor
  · intro h
    have hge := h.ge
    have hlt := h.lt
    by_cases hwhole : at_.Whole
    · refine Or.inl ⟨hwhole, hdvd _ ?_⟩
      rw [hw] at hwhole
      omega
    · refine Or.inr ⟨hwhole, ?_⟩
      rw [hw] at hwhole
      refine ⟨by omega, ?_⟩
      by_cases hr' : r = m + g
      · exact Or.inl (hdvd _ hr')
      · exact Or.inr (hdvd _ (by omega))
  · -- the next multiple from `m + g - 1` on is that or the one after it
    have hnext : ∀ x, g ∣ x → m - 1 ≤ x → r ≤ x + g := by
      intro x hx hle
      by_contra hlt
      have hpos : 0 < r - x - g := by omega
      have := Int.le_of_dvd hpos (Int.dvd_sub (Int.dvd_sub hr hx) (Int.dvd_refl g))
      omega
    rintro (⟨hwhole, hd⟩ | ⟨hwhole, hne, hd | hd⟩) <;> rw [hw] at hwhole
    · have := hnext _ hd (le_refl _)
      exact ⟨Int.mul_dvd_mul hr (Int.dvd_refl _), by omega, by omega⟩
    · have := hnext _ hd (by omega)
      exact ⟨Int.mul_dvd_mul hr (Int.dvd_refl _), by omega, by omega⟩
    · have := hnext _ hd (le_refl _)
      exact ⟨Int.mul_dvd_mul hr (Int.dvd_refl _), by omega, by omega⟩

/-- The instant is rounded to the first multiple of the granularity if and only
    if it fits. -/
theorem ceiling_iff_fits (h : at_.toEpochMilli = some a) :
    Ceiling ((granularity (a - now)).toInt * 1000000) at_.nano
      (Instant.ofEpochMilli ((a + granularity (a - now) - 1)
        / granularity (a - now) * granularity (a - now))).nano ↔
      Fits at_ a.toInt (granularity (a - now)).toInt := by
  have ha := toEpochMilli_eq h
  obtain ⟨hg, hg'⟩ := granularity_bounds (a - now)
  have b1 := a.le_toInt
  have b2 := a.toInt_lt
  have hsum := toInt_sum a (a - now)
  rw [Instant.ofEpochMilli_nano, toInt_div_mul (by omega), Fits]
  by_cases hfit : a.toInt + (granularity (a - now)).toInt ≤ 2 ^ 63
  · rw [if_pos hfit] at hsum
    rw [and_iff_right hfit, hsum]
    by_cases hneg : -(granularity (a - now)).toInt < a.toInt
    · obtain ⟨h1, h2⟩ := tdiv_mul_of_nonneg (g := (granularity (a - now)).toInt)
        (x := a.toInt + (granularity (a - now)).toInt - 1) (by omega) (by omega)
      rw [ceiling_iff_of_floor ha (Int.dvd_mul_left _ _) h1 h2]
      constructor
      · exact fun hc => Or.inl ⟨hneg, hc⟩
      · rintro (hc | hc)
        · exact hc.2
        · exact absurd hneg (not_lt_of_ge hc.1)
    · obtain ⟨h1, h2⟩ := tdiv_mul_of_nonpos (g := (granularity (a - now)).toInt)
        (x := a.toInt + (granularity (a - now)).toInt - 1) (by omega) (by omega)
      rw [ceiling_iff_of_ceil hg ha (Int.dvd_mul_left _ _) h1 h2]
      constructor
      · exact fun hc => Or.inr ⟨le_of_not_gt hneg, hc⟩
      · rintro (hc | hc)
        · exact absurd hc.1 hneg
        · exact hc.2
  · -- the sum is wrapped around to a negative one
    rw [if_neg hfit] at hsum
    rw [hsum]
    obtain ⟨h1, h2⟩ := tdiv_mul_of_nonpos (g := (granularity (a - now)).toInt)
      (x := a.toInt + (granularity (a - now)).toInt - 1 - 2 ^ 64) (by omega) (by omega)
    constructor
    · intro hc
      have hge := hc.ge
      omega
    · exact fun hc => absurd hc.1 hfit

theorem roundsUp_iff_ceiling (h : at_.toEpochMilli = some a) :
    RoundsUp now at_ ↔ Ceiling ((granularity (a - now)).toInt * 1000000) at_.nano
      (Instant.ofEpochMilli ((a + granularity (a - now) - 1)
        / granularity (a - now) * granularity (a - now))).nano := by
  constructor
  · rintro ⟨b, r, hb, hr, hge, hlt⟩
    obtain rfl : a = b := Option.some.inj (h.symm.trans hb)
    obtain rfl := Option.some.inj ((roundUp_eq h).symm.trans hr)
    refine ⟨?_, hge, hlt⟩
    rw [Instant.ofEpochMilli_nano, toInt_div_mul (by have := granularity_bounds (a - now); omega)]
    exact Int.mul_dvd_mul (Int.dvd_mul_left _ _) (Int.dvd_refl _)
  · intro hc
    exact ⟨a, _, h, roundUp_eq h, hc.ge, hc.lt⟩

/-- Two instants are rounded up and stay in order if and only if both fit, and the
    granularity of the earlier one divides that of the later one or has a multiple
    between them. -/
theorem roundUp_inOrder_iff (h₁ : at₁.toEpochMilli = some a₁) (h₂ : at₂.toEpochMilli = some a₂)
    (hle : at₁.nano ≤ at₂.nano) :
    (RoundsUp now at₁ ∧ RoundsUp now at₂ ∧ InOrder now at₁ at₂) ↔
      Fits at₁ a₁.toInt (granularity (a₁ - now)).toInt ∧
      Fits at₂ a₂.toInt (granularity (a₂ - now)).toInt ∧
      ((granularity (a₁ - now)).toInt ∣ (granularity (a₂ - now)).toInt ∨
        ∃ k : Int, at₁.nano ≤ k * ((granularity (a₁ - now)).toInt * 1000000) ∧
          k * ((granularity (a₁ - now)).toInt * 1000000) ≤ at₂.nano) := by
  rw [roundsUp_iff_ceiling h₁, roundsUp_iff_ceiling h₂, ← ceiling_iff_fits h₁,
    ← ceiling_iff_fits h₂]
  have ha₁ := toEpochMilli_eq h₁
  have ha₂ := toEpochMilli_eq h₂
  constructor
  · rintro ⟨hc₁, hc₂, r₁, r₂, hr₁, hr₂, hr⟩
    refine ⟨hc₁, hc₂, ?_⟩
    obtain rfl := Option.some.inj ((roundUp_eq h₁).symm.trans hr₁)
    obtain rfl := Option.some.inj ((roundUp_eq h₂).symm.trans hr₂)
    obtain ⟨k, hk⟩ := hc₁.dvd
    rw [Int.mul_comm] at hk
    obtain ⟨hg, hg'⟩ := granularity_bounds (a₁ - now)
    have hms : a₁.toInt ≤ a₂.toInt := by omega
    rcases granularity_dvd_or hms with hd | hone | hfar
    · exact Or.inl hd
    · -- the later instant is told as it is
      refine Or.inr ⟨k, hk ▸ hc₁.ge, hk ▸ le_trans hr ?_⟩
      have hg₂ : (granularity (a₂ - now)).toInt = 1 := by
        rw [hone]
        rfl
      have hwhole : at₂.Whole := by
        have hfits := ((ceiling_iff_fits h₂).mp hc₂).2
        rw [hg₂] at hfits
        rcases hfits with ⟨-, hw | hd⟩ | ⟨-, hw | hd⟩
        · exact hw
        · exact absurd (Int.one_dvd _) hd
        · exact hw.1
        · exact absurd rfl hd.2.1
      rw [whole_iff ha₂] at hwhole
      have hlt := hc₂.lt
      rw [hg₂] at hlt
      rw [Instant.ofEpochMilli_nano] at hlt ⊢
      omega
    · refine Or.inr ⟨k, hk ▸ hc₁.ge, hk ▸ ?_⟩
      have hlt := hc₁.lt
      rw [Instant.ofEpochMilli_nano] at hlt ⊢
      omega
  · rintro ⟨hc₁, hc₂, h⟩
    refine ⟨hc₁, hc₂, _, _, roundUp_eq h₁, roundUp_eq h₂, ?_⟩
    rcases h with hd | ⟨k, hk₁, hk₂⟩
    · exact hc₁.le_of_ceiling hc₂ (Int.mul_dvd_mul hd (Int.dvd_refl _)) hle
    · have hle₁ := hc₁.le_of_dvd (Int.dvd_mul_left k _) hk₁
      exact le_trans hle₁ (le_trans hk₂ hc₂.ge)

/-- Far from the end of time and after 1970, whole milliseconds are rounded up. -/
example : roundUp ⟨1234000000⟩ 0 = some ⟨1300000000⟩ := by decide +kernel

def lastButFew : Instant := ⟨(2 ^ 63 - 2) * 1000000⟩

theorem lastButFew_millis : lastButFew.toEpochMilli = some (neverMillis - 1) := by decide +kernel

/-- One millisecond before the last instant: the timer is due long ago. -/
theorem lastButFew_past :
    lastButFew.toEpochMilli = some (neverMillis - 1) ∧ neverMillis - 1 < neverMillis ∧
      roundUp lastButFew 0 = some ⟨-9223372036854774000 * 1000000⟩ ∧ ¬RoundsUp 0 lastButFew := by
  have hround : roundUp lastButFew 0 = some ⟨-9223372036854774000 * 1000000⟩ := by decide +kernel
  refine ⟨lastButFew_millis, by decide, hround, ?_⟩
  rintro ⟨a, r, -, hr, hge, -⟩
  obtain rfl := Option.some.inj (hround.symm.trans hr)
  exact absurd hge (by decide)

theorem second_iff :
    (RoundsUp 0 ⟨1234000000⟩ ∧ RoundsUp 0 ⟨12345000000⟩ ∧ InOrder 0 ⟨1234000000⟩ ⟨12345000000⟩) ↔
      Fits ⟨1234000000⟩ (1234 : Int64).toInt (granularity ((1234 : Int64) - 0)).toInt ∧
      Fits ⟨12345000000⟩ (12345 : Int64).toInt (granularity ((12345 : Int64) - 0)).toInt ∧
      ((granularity ((1234 : Int64) - 0)).toInt ∣ (granularity ((12345 : Int64) - 0)).toInt ∨
        ∃ k : Int, 1234000000 ≤ k * ((granularity ((1234 : Int64) - 0)).toInt * 1000000) ∧
          k * ((granularity ((1234 : Int64) - 0)).toInt * 1000000) ≤ 12345000000) :=
  roundUp_inOrder_iff (by decide +kernel) (by decide +kernel) (by decide)

end TimerRounding
