import SchedulerEngine.SchedulePeriodProofs

/-! # The search of a schedule

    The inlay of a schedule has sets of days with their periods, instants
    (`<at>`) and holidays.  `next_local_period` looks for the next period day by
    day; a period of a holiday may be moved to a day before or after it. -/

namespace ScheduleInlay

open SchedulerTime SchedulePeriod LeftmostLeast

variable {D : Type} {t s n : Int} {w : WithSingleStart} {p q : Period}

/-! ## The sets of days -/

/-- `Day_set`: `_days` and `_is_day_set_filled`. -/
structure DaySet (D : Type) where
  days : Nat → Option D
  isFilled : Bool

/-- `Month_weekdays`: seven days for each week of the month. -/
structure MonthWeekdays (D : Type) where
  days : Nat → Option D
  isFilled : Bool

def MonthWeekdays.day (m : MonthWeekdays D) (which weekdayNumber : Nat) : Option D :=
  m.days (7 * (which - 1) + weekdayNumber)

structure MonthdaySet (D : Type) where
  daySet : DaySet D
  monthWeekdays : MonthWeekdays D
  reverseMonthWeekdays : MonthWeekdays D

def MonthdaySet.isFilled (m : MonthdaySet D) : Bool :=
  m.daySet.isFilled || m.monthWeekdays.isFilled || m.reverseMonthWeekdays.isFilled

structure Month (D : Type) where
  weekdaySet : DaySet D
  monthdaySet : MonthdaySet D
  ultimoSet : DaySet D

structure Date (D : Type) where
  dayNr : Int
  day : D

/-- A `Time` of an `<at>` element. -/
abbrev AtTime := { a : Int // a ≤ never }

abbrev AtSet := KeySet fun a : AtTime => a.1

structure Holidays where
  daySet : List Int
  weekdays : Nat → Bool

structure Inlay (D : Type) where
  atSet : AtSet
  dateSet : KeySet fun date : Date D => date.dayNr
  weekdaySet : DaySet D
  monthdaySet : MonthdaySet D
  ultimoSet : DaySet D
  months : Fin 12 → Option (Month D)
  hasMonth : Bool
  holidays : Holidays

def weekdayOfDayNumber (dayNumber : Int) : Nat := ((dayNumber + 4) % 7).toNat

def Holidays.isHoliday (h : Holidays) (n : Int) : Bool :=
  h.daySet.contains n || h.weekdays (weekdayOfDayNumber n)

/-- `is_included`. -/
def Holidays.isIncluded (h : Holidays) (t : Int) : Bool := h.isHoliday (dayNr t)

/-- `Time(day_nr*(24*60*60)) + period`, unless the period is empty. -/
def onDay (dayNr : Int) (p : Period) : Period :=
  if p.empty then init else p.addTime (ofDayNr dayNr)

/-- `Weekday_set::next_period_of_same_day`. -/
def DaySet.nextOfWeekday (s : DaySet Day) (t : Int) (w : WithSingleStart) : Period :=
  if s.isFilled then
    match s.days (weekdayOfDayNumber (dayNr t) % 7) with
    | some d => onDay (dayNr t) (d.nextPeriod (timeOfDay t) w)
    | none => init
  else init

/-- `Ultimo_set::next_period_of_same_day`. -/
def DaySet.nextOfUltimo (s : DaySet Day) (t : Int) (w : WithSingleStart) : Period :=
  if s.isFilled then
    match s.days (lastDayOfMonth (dateOf t) - (dateOf t).day) with
    | some d => onDay (dayNr t) (d.nextPeriod (timeOfDay t) w)
    | none => init
  else init

/-- The next period of the day, if the set is filled and has that day. -/
def nextOf (isFilled : Bool) (day : Option Day) (timeOfDay : Int) (w : WithSingleStart)
    (period : Period) : Period :=
  if isFilled then
    match day with
    | some d => pick Period.begin_ period (d.nextPeriod timeOfDay w)
    | none => period
  else period

/-- `Monthday_set::next_period_of_same_day`. -/
def MonthdaySet.next (m : MonthdaySet Day) (t : Int) (w : WithSingleStart) : Period :=
  if m.isFilled then
    let date := dateOf t
    let weekday := weekdayOfDayNumber (dayNr t)
    let period := nextOf m.daySet.isFilled (m.daySet.days date.day) (timeOfDay t) w init
    let period := nextOf m.monthWeekdays.isFilled
      (m.monthWeekdays.day (1 + (date.day - 1) / 7) weekday) (timeOfDay t) w period
    let period := nextOf m.reverseMonthWeekdays.isFilled
      (m.reverseMonthWeekdays.day (1 + (lastDayOfMonth date - date.day) / 7) weekday)
      (timeOfDay t) w period
    onDay (dayNr t) period
  else init

/-- `Month::next_period_of_same_day`. -/
def Month.next (m : Month Day) (t : Int) (w : WithSingleStart) : Period :=
  let result := if m.weekdaySet.isFilled then
    pick Period.begin_ init (m.weekdaySet.nextOfWeekday t w) else init
  let result := if m.monthdaySet.isFilled then
    pick Period.begin_ result (m.monthdaySet.next t w) else result
  if m.ultimoSet.isFilled then
    pick Period.begin_ result (m.ultimoSet.nextOfUltimo t w) else result

/-- The loop of `Date_set::next_period_of_same_day`. -/
def nextOfDates (t : Int) (w : WithSingleStart) : List (Date Day) → Period
  | [] => init
  | date :: rest =>
      if dayNr t ≤ date.dayNr then
        if date.dayNr = dayNr t then onDay date.dayNr (date.day.nextPeriod (timeOfDay t) w)
        else init
      else nextOfDates t w rest

/-- The period of an `<at>`. -/
def atPeriod (a : Int) : Period :=
  { init with
    begin_ := a
    end_ := add a epsilon
    singleStart := true
    letRun := true
    repeat_ := eternal
    absoluteRepeat := eternal }

/-- The loop of `At_set::next_period_of_same_day`. -/
def nextOfAts (t : Int) : List AtTime → Period
  | [] => init
  | a :: rest =>
      if t ≤ a.1 then if dayNr a.1 = dayNr t then atPeriod a.1 else init
      else nextOfAts t rest

/-- `At_set::next_period_of_same_day`; the holiday bits do not count here. -/
def AtSet.next (s : AtSet) (t : Int) (w : WithSingleStart) : Period :=
  if has w (wssNextAnyStart ||| wssNextSingleStart) then nextOfAts t s.toList else init

/-! ## The search -/

namespace Inlay

/-- The month that is configured for itself. -/
def monthAt (i : Inlay D) (date : SosDate) : Option (Month D) :=
  if i.hasMonth then i.months (Fin.ofNat 12 (date.month - 1)) else none

def nextPeriodOfSameDay (i : Inlay Day) (t : Int) (w : WithSingleStart) : Period :=
  let result := if i.atSet.toList.isEmpty then init
    else pick Period.begin_ init (AtSet.next i.atSet t w)
  let result := if i.dateSet.toList.isEmpty then result
    else pick Period.begin_ result (nextOfDates t w i.dateSet.toList)
  match i.monthAt (dateOf t) with
  | some m => pick Period.begin_ result (m.next t w)
  | none =>
      let result := if i.weekdaySet.isFilled then
        pick Period.begin_ result (i.weekdaySet.nextOfWeekday t w) else result
      let result := if i.monthdaySet.isFilled then
        pick Period.begin_ result (i.monthdaySet.next t w) else result
      if i.ultimoSet.isFilled then
        pick Period.begin_ result (i.ultimoSet.nextOfUltimo t w) else result

def foreseeYears : Nat := 20

/-- The loop over the holidays before `t`, the nearest first. -/
def probeBefore (i : Inlay Day) (t : Int) (w : WithSingleStart) : Nat → Int → Period → Period
  | 0, _, result => result
  | fuel + 1, k, result =>
      let before := -(k * day)
      if i.holidays.isIncluded (add t before) then
        let p := i.nextPeriodOfSameDay (add t before) (w ||| wssWhenHolidayNextNonHoliday)
        probeBefore i t w fuel (k + 1)
          (if p.empty then result else pick Period.begin_ result (p.subDuration before))
      else result

/-- The loop over the holidays after `t`, the nearest first. -/
def probeAfter (i : Inlay Day) (t : Int) (w : WithSingleStart) : Nat → Int → Period → Period
  | 0, _, result => result
  | fuel + 1, k, result =>
      let after := k * day
      if add t after ≠ never ∧ i.holidays.isIncluded (add t after) = true then
        let p := i.nextPeriodOfSameDay (add t after) (w ||| wssWhenHolidayPreviousNonHoliday)
        probeAfter i t w fuel (k + 1)
          (if p.empty then result else pick Period.begin_ result (p.subDuration after))
      else result

/-- One turn of the loop over the days.  Both inner loops end with a duration of
    `foresee_years*24*60*60` seconds, which are that many days. -/
def searchDay (i : Inlay Day) (t : Int) (w : WithSingleStart) (result : Period) : Period :=
  if i.holidays.isIncluded t then
    i.nextPeriodOfSameDay t (w ||| wssWhenHolidayIgnoreHoliday)
  else
    probeAfter i t w foreseeYears 1
      (probeBefore i t w foreseeYears 1
        (pick Period.begin_ result (i.nextPeriodOfSameDay t w)))

/-- The loop over the days. -/
def searchDays (i : Inlay Day) (w : WithSingleStart) (limitedBefore : Int) :
    Nat → Int → Period → Period
  | 0, _, result => result
  | fuel + 1, t, result =>
      if result.empty = true ∧ t < limitedBefore then
        searchDays i w limitedBefore fuel (add (midnight t) day) (i.searchDay t w result)
      else result

def isFilled (i : Inlay D) : Bool :=
  !i.atSet.toList.isEmpty || !i.dateSet.toList.isEmpty || i.weekdaySet.isFilled
    || i.monthdaySet.isFilled || i.ultimoSet.isFilled
    || i.hasMonth && (List.finRange 12).any fun m => (i.months m).any fun month =>
      month.weekdaySet.isFilled || month.monthdaySet.isFilled || month.ultimoSet.isFilled

/-- `limited_before`. -/
def limitedBefore (t before : Int) : Int :=
  min before (add t (foreseeYears * 366 * day))

/-- `next_local_period`, without a `start_time_function`.  The days between `t`
    and the limit are not more than the fuel. -/
def nextLocalPeriod (i : Inlay Day) (t : Int) (w : WithSingleStart) (before : Int) : Period :=
  if t ≠ never ∧ i.isFilled = true then
    i.searchDays w (limitedBefore t before) (foreseeYears * 366 + 1) t init
  else init

end Inlay

/-! ## The days that count for a date -/

/-- The day of a set, if the set is filled. -/
def given (isFilled : Bool) (day : Option D) : List D := if isFilled then day.toList else []

def MonthdaySet.daysOf (m : MonthdaySet D) (date : SosDate) (weekday : Nat) : List D :=
  given m.daySet.isFilled (m.daySet.days date.day) ++
  given m.monthWeekdays.isFilled (m.monthWeekdays.day (1 + (date.day - 1) / 7) weekday) ++
  given m.reverseMonthWeekdays.isFilled
    (m.reverseMonthWeekdays.day (1 + (lastDayOfMonth date - date.day) / 7) weekday)

def daysOfSets (weekdaySet : DaySet D) (monthdaySet : MonthdaySet D) (ultimoSet : DaySet D)
    (n : Int) : List D :=
  given weekdaySet.isFilled (weekdaySet.days (weekdayOfDayNumber n)) ++
  monthdaySet.daysOf (dateOfDay n) (weekdayOfDayNumber n) ++
  given ultimoSet.isFilled
    (ultimoSet.days (lastDayOfMonth (dateOfDay n) - (dateOfDay n).day))

/-- The days of the inlay that count for the day `n`, in the order of the search. -/
def Inlay.daysOf (i : Inlay D) (n : Int) : List D :=
  (i.dateSet.toList.filter fun date => date.dayNr = n).map Date.day ++
  match i.monthAt (dateOfDay n) with
  | some m => daysOfSets m.weekdaySet m.monthdaySet m.ultimoSet n
  | none => daysOfSets i.weekdaySet i.monthdaySet i.ultimoSet n

end ScheduleInlay
