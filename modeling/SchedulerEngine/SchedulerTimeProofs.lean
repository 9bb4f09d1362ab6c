import Mathlib.Order.Lattice
import Mathlib.Data.Int.Order.Basic

/-! # Times

    A `Time` is a count of seconds since 1970, or since midnight, rounded to
    milliseconds; a `Duration` is a difference of times.  Both are modelled by
    the number of milliseconds.  No time is later than `never`, the largest `int`
    of seconds. -/

namespace SchedulerTime

def never : Int := 2147483647000

def eternal : Int := 2147483647000

def epsilon : Int := 1

def day : Int := 86400000

variable {t s d n : Int}

theorem never_eq : never = 2147483647000 := rfl

theorem day_eq : day = 86400000 := rfl

/-- `Time::set`: what is later than `never` becomes `never`. -/
def setTime (t : Int) : Int := min t never

/-- `Time::operator +` and `Time::operator +=`. -/
def add (t : Int) (d : Int) : Int :=
  if t = never ∨ d = eternal then never else setTime (t + d)

/-- `Time::operator -=`. -/
def sub (t : Int) (d : Int) : Int :=
  if t = never then never else setTime (if d = eternal then never else t - d)

/-- `uint(as_double())`: whole seconds, modulo the size of the type. -/
def toUint (t : Int) : Int := t.tdiv 1000 % 4294967296

def dayNr (t : Int) : Int := toUint t / 86400

/-- The product of `day_nr()` and the seconds of a day is an `int`. -/
def midnight (t : Int) : Int := setTime ((dayNr t * 86400).bmod 4294967296 * 1000)

def timeOfDay (t : Int) : Int := setTime (t - midnight t)

/-- The time `Time(day_nr*(24*60*60))`. -/
def ofDayNr (n : Int) : Int := setTime ((n * 86400).bmod 4294967296 * 1000)

/-- `as_time_t()`. -/
def asTimeT (t : Int) : Int := (t * 10 + 1).tdiv 10000

theorem setTime_of_le (h : t ≤ never) : setTime t = t := min_eq_left h

theorem setTime_le : setTime t ≤ never := min_le_right t never

theorem add_of_lt (ht : t < never) (hd : d ≠ eternal) : add t d = setTime (t + d) :=
  if_neg (not_or.mpr ⟨ne_of_lt ht, hd⟩)

theorem add_never : add never d = never := if_pos (Or.inl rfl)

theorem add_le : add t d ≤ never := by
  rw [add]
  split
  · exact le_refl _
  · exact setTime_le

theorem sub_never : sub never d = never := if_pos rfl

theorem sub_le : sub t d ≤ never := by
  rw [sub]
  split
  · exact le_refl _
  · exact setTime_le

theorem sub_of_lt (ht : t < never) (hd : d ≠ eternal) : sub t d = setTime (t - d) := by
  rw [sub, if_neg (ne_of_lt ht), if_neg hd]

/-- The next instant, as long as there is one. -/
theorem add_epsilon (h : t < never) : add t epsilon = t + 1 := by
  rw [add_of_lt h (by decide)]
  exact setTime_of_le h

theorem toUint_eq (h0 : 0 ≤ t) (ht : t ≤ never) : toUint t = t / 1000 := by
  have hv := never_eq
  rw [toUint, Int.tdiv_eq_ediv_of_nonneg h0]
  omega

theorem dayNr_eq (h0 : 0 ≤ t) (ht : t ≤ never) : dayNr t = t / day := by
  rw [dayNr, toUint_eq h0 ht, day_eq]
  omega

theorem ofDayNr_eq (h0 : 0 ≤ n) (hn : n ≤ 24855) : ofDayNr n = n * day := by
  have hv := never_eq
  have hb : (n * 86400).bmod 4294967296 = n * 86400 :=
    Int.bmod_eq_of_le (by omega) (by omega)
  rw [ofDayNr, hb, setTime_of_le (by omega), day_eq]
  omega

theorem dayNr_le (h0 : 0 ≤ t) (ht : t ≤ never) : 0 ≤ dayNr t ∧ dayNr t ≤ 24855 := by
  have hv := never_eq
  rw [dayNr_eq h0 ht, day_eq]
  omega

theorem midnight_eq (h0 : 0 ≤ t) (ht : t ≤ never) : midnight t = dayNr t * day :=
  ofDayNr_eq (dayNr_le h0 ht).1 (dayNr_le h0 ht).2

theorem timeOfDay_eq (h0 : 0 ≤ t) (ht : t ≤ never) : timeOfDay t = t % day := by
  have hv := never_eq
  rw [timeOfDay, midnight_eq h0 ht, dayNr_eq h0 ht, day_eq, setTime_of_le (by omega)]
  omega

/-- A time is its midnight and its time of day. -/
theorem dayNr_timeOfDay (h0 : 0 ≤ t) (ht : t ≤ never) :
    dayNr t * day + timeOfDay t = t ∧ 0 ≤ timeOfDay t ∧ timeOfDay t < day := by
  rw [day_eq] at *
  rw [timeOfDay_eq h0 ht, dayNr_eq h0 ht, day_eq]
  omega

/-- The parts of a time determine it. -/
theorem eq_of_parts (h0 : 0 ≤ t) (ht : t ≤ never) (hs : t = n * day + s) (h0s : 0 ≤ s)
    (hsd : s < day) : dayNr t = n ∧ timeOfDay t = s := by
  rw [day_eq] at *
  rw [timeOfDay_eq h0 ht, dayNr_eq h0 ht, day_eq]
  omega

theorem asTimeT_eq (h0 : 0 ≤ t) : asTimeT t = t / 1000 := by
  rw [asTimeT, Int.tdiv_eq_ediv_of_nonneg (by omega)]
  omega

theorem dayNr_mono (h0 : 0 ≤ s) (hst : s ≤ t) (ht : t ≤ never) : dayNr s ≤ dayNr t := by
  rw [dayNr_eq h0 (le_trans hst ht), dayNr_eq (le_trans h0 hst) ht, day_eq]
  omega

/-! ## Dates -/

/-- `Sos_date`; the null date consists of zeros. -/
structure SosDate where
  year : Nat
  month : Nat
  day : Nat
deriving DecidableEq, Repr

def schaltjahr (year : Nat) : Bool :=
  year % 4 == 0 && (year % 100 != 0 || year % 400 == 0)

def monatstage (month : Nat) : Nat :=
  [0, 31, 29, 31, 30, 31, 30, 31, 31, 30, 31, 30, 31].getD month 0

/-- The loop of `day_of_year` over the months from March on. -/
def monthLoop : Nat → Nat → Nat → Nat × Nat
  | 0, monat, tag => (monat, tag)
  | fuel + 1, monat, tag =>
      if monatstage monat < tag then monthLoop fuel (monat + 1) (tag - monatstage monat)
      else (monat, tag)

/-- `day_of_year(doy)`. -/
def ofDayOfYear (year doy : Nat) : SosDate :=
  let feb := if schaltjahr year then 29 else 28
  if doy ≤ 31 then ⟨year, 1, doy⟩
  else if doy - 31 ≤ feb then ⟨year, 2, doy - 31⟩
  else
    let m := monthLoop 10 3 (doy - 31 - feb)
    ⟨year, m.1, m.2⟩

/-- The loop of `day_count(tage)` over the years; each takes 365 days at least. -/
def yearLoop (tage : Nat) : Nat → Nat → Nat → Nat × Nat
  | 0, y, t => (y, t)
  | fuel + 1, y, t =>
      let t2 := t + if schaltjahr y then 366 else 365
      if tage < t2 then (y, t) else yearLoop tage fuel (y + 1) t2

/-- `day_count(tage)`: the date that many days after the first of 1900. -/
def ofDayCount (tage : Nat) : SosDate :=
  let y := yearLoop tage (tage / 365 + 1) 1900 0
  ofDayOfYear y.1 (tage - y.2 + 1)

/-- `Sos_date( 1970, 1, 1 ).day_count()`. -/
def zeroDay : Nat := 70 * 365 + (70 + 3) / 4 + 1 - 1 - 1

/-- `set_time_t`: the second 0 stands for the null date. -/
def ofTimeT (tim : Int) : SosDate :=
  if tim = 0 then ⟨0, 0, 0⟩ else ofDayCount (zeroDay + (tim / 86400).toNat)

def dateOf (t : Int) : SosDate := ofTimeT (asTimeT t)

def lastDayOfMonth (date : SosDate) : Nat :=
  if date.month = 2 then if schaltjahr date.year then 29 else 28 else monatstage date.month

/-- The date of a day number. -/
def dateOfDay (n : Int) : SosDate := ofDayCount (zeroDay + n.toNat)

example : dateOfDay 19782 = ⟨2024, 2, 29⟩ := by decide +kernel

/-- After the first second, the date is that of the day. -/
theorem dateOf_eq (h : 1000 ≤ t) (ht : t ≤ never) : dateOf t = dateOfDay (dayNr t) := by
  have hn : asTimeT t ≠ 0 := by
    rw [asTimeT_eq (by omega)]
    omega
  have hd : asTimeT t / 86400 = dayNr t := by
    rw [asTimeT_eq (by omega), dayNr_eq (by omega) ht, day_eq]
    omega
  rw [dateOf, ofTimeT, if_neg hn, hd, dateOfDay]

end SchedulerTime
