import SchedulerEngine.SchedulerTimeProofs
import SchedulerEngine.LeftmostLeastProofs
import SchedulerEngine.KeySetProofs

/-! # Periods

    A `<period>` of a day has a begin and an end, and starts once, or again and
    again until its end.  `is_coming` says whether a period counts from a time of
    day on, for one of several questions. -/

namespace SchedulePeriod

open SchedulerTime LeftmostLeast

/-- `With_single_start`: which periods are looked for. -/
abbrev WithSingleStart := BitVec 7

def wssNextPeriod : WithSingleStart := 0x01#7
def wssNextSingleStart : WithSingleStart := 0x02#7
def wssNextPeriodOrSingleStart : WithSingleStart := 0x03#7
def wssNextBegin : WithSingleStart := 0x04#7
def wssNextBeginOrSingleStart : WithSingleStart := 0x06#7
def wssNextAnyStart : WithSingleStart := 0x08#7
def wssWhenHolidayIgnoreHoliday : WithSingleStart := 0x10#7
def wssWhenHolidayNextNonHoliday : WithSingleStart := 0x20#7
def wssWhenHolidayPreviousNonHoliday : WithSingleStart := 0x40#7

/-- One of the bits is set. -/
def has (singleStart bits : WithSingleStart) : Bool := singleStart &&& bits != 0

inductive WhenHoliday where
  | suppress
  | ignoreHoliday
  | nextNonHoliday
  | previousNonHoliday
deriving DecidableEq, Repr

/-- The times are times of a day, or have a date. -/
structure Period where
  begin_ : Int
  absoluteRepeatBegin : Int
  end_ : Int
  repeat_ : Int
  absoluteRepeat : Int
  singleStart : Bool
  letRun : Bool
  startOnce : Bool
  whenHoliday : WhenHoliday
  schedulePath : String
deriving DecidableEq, Repr

/-- `Period()`. -/
def init : Period where
  begin_ := never
  absoluteRepeatBegin := 0
  end_ := never
  repeat_ := eternal
  absoluteRepeat := eternal
  singleStart := false
  letRun := false
  startOnce := false
  whenHoliday := .suppress
  schedulePath := ""

variable {p q : Period} {t s d : Int} {w : WithSingleStart}

namespace Period

def empty (p : Period) : Bool := p.begin_ = never

def hasRepeatOrOnce (p : Period) : Bool := p.repeat_ ≠ eternal || p.startOnce

/-- `operator +=`; both times are moved. -/
def addTime (p : Period) (t : Int) : Period :=
  { p with begin_ := add p.begin_ t, end_ := add p.end_ t }

/-- `operator -=`. -/
def subDuration (p : Period) (d : Int) : Period :=
  { p with begin_ := sub p.begin_ d, end_ := sub p.end_ d }

def setSingleStart (p : Period) (t : Int) : Period :=
  { p with
    begin_ := t
    end_ := t
    repeat_ := eternal
    absoluteRepeat := eternal
    singleStart := true
    letRun := true }

/-- The instants of `absolute_repeat` lie on a grid that begins with
    `_absolute_repeat_begin`. -/
def nextAbsoluteRepeated (p : Period) (tim : Int) : Int :=
  let t := if tim < p.begin_ then p.begin_ else tim
  let n := (t - p.absoluteRepeatBegin).tdiv p.absoluteRepeat
  let result := setTime (p.absoluteRepeatBegin + (n + 1) * p.absoluteRepeat)
  let result := if result = add t p.absoluteRepeat then t else result
  if result < p.end_ then result else never

def nextRepeatedAllowAfterEnd (p : Period) (t : Int) : Int :=
  if p.repeat_ ≠ eternal then if t < p.begin_ then p.begin_ else add t p.repeat_
  else if p.absoluteRepeat ≠ eternal then p.nextAbsoluteRepeated t
  else never

def nextRepeated (p : Period) (t : Int) : Int :=
  if p.nextRepeatedAllowAfterEnd t < p.end_ then p.nextRepeatedAllowAfterEnd t else never

/-- The holiday bits restrict the search to the periods with that setting. -/
def isComing (p : Period) (timeOfDay : Int) (w : WithSingleStart) : Bool :=
  if has w wssWhenHolidayIgnoreHoliday && p.whenHoliday ≠ .ignoreHoliday then false
  else if has w wssWhenHolidayPreviousNonHoliday && p.whenHoliday ≠ .previousNonHoliday then false
  else if has w wssWhenHolidayNextNonHoliday && p.whenHoliday ≠ .nextNonHoliday then false
  else if has w wssNextPeriod && !p.singleStart && timeOfDay < p.end_ then true
  else if has w wssNextBegin && !p.singleStart && timeOfDay ≤ p.begin_ then true
  else if has w wssNextSingleStart && p.singleStart && timeOfDay ≤ p.begin_ then true
  else if has w wssNextAnyStart &&
    (p.singleStart && timeOfDay ≤ p.begin_ || p.hasRepeatOrOnce && timeOfDay < p.end_) then true
  else if has w (wssNextAnyStart ||| wssNextSingleStart) && p.absoluteRepeat ≠ eternal &&
    p.nextAbsoluteRepeated timeOfDay ≠ never then true
  else false

end Period

/-! ## The elements of a day -/

/-- The attributes of a `<period>`; times of day and durations in seconds. -/
structure PeriodElement where
  nodeName : String := "period"
  letRun : Option Bool := none
  singleStart : Option Nat := none
  begin_ : Option Nat := none
  repeat_ : Option Nat := none
  absoluteRepeat : Option Nat := none
  end_ : Option Nat := none
  startOnce : Option Bool := none
  whenHoliday : Option WhenHoliday := none

inductive PeriodError where
  | scheduler104 (begin_ end_ : Int)
  | scheduler441 (nodeName name value : String)
deriving DecidableEq, Repr

/-- `check( without_date )`. -/
def Period.check (p : Period) : Except PeriodError Period :=
  if p.begin_ < 0 ∨ p.end_ < p.begin_ ∨ day < p.end_ then .error (.scheduler104 p.begin_ p.end_)
  else .ok p

/-- The begin, the end and the repetitions of a period that is no single start. -/
def Period.setRepeat (p : Period) (e : PeriodElement) : Except PeriodError Period :=
  let repeat_ := (e.repeat_.map fun r => (r : Int) * 1000).getD p.repeat_
  let p := { p with
    begin_ := (e.begin_.getD 0 : Nat) * 1000
    repeat_ := if repeat_ = 0 then eternal else repeat_ }
  match e.absoluteRepeat with
  | none => .ok p
  | some 0 => .error (.scheduler441 e.nodeName "absolute_repeat" "0")
  | some a => .ok { p with
      absoluteRepeat := (a : Int) * 1000
      repeat_ := if (a : Int) * 1000 ≠ eternal then eternal else p.repeat_ }

/-- `set_dom` with the default of the enclosing element. -/
def Period.setDom (deflt : Period) (e : PeriodElement) : Except PeriodError Period := do
  let p := { deflt with letRun := e.letRun.getD deflt.letRun }
  let p ← match e.singleStart with
    | some t => pure (p.setSingleStart ((t : Int) * 1000))
    | none => p.setRepeat e
  let p := { p with
    end_ := (e.end_.getD 86400 : Nat) * 1000
    startOnce := e.startOnce.getD p.startOnce
    whenHoliday := e.whenHoliday.getD p.whenHoliday }
  p.check

/-- What `set_dom` ensures: the period lies within a day, its times are whole
    seconds, and its repetitions are positive. -/
structure Period.Checked (p : Period) : Prop where
  begin_nonneg : 0 ≤ p.begin_
  begin_le : p.begin_ ≤ p.end_
  end_le : p.end_ ≤ day
  begin_seconds : p.begin_ % 1000 = 0
  repeat_pos : 0 < p.repeat_
  absoluteRepeat_pos : 0 < p.absoluteRepeat
  absoluteRepeatBegin : p.absoluteRepeatBegin = 0

/-- What is inherited from the default. -/
structure Period.Default (p : Period) : Prop where
  repeat_pos : 0 < p.repeat_
  absoluteRepeat_pos : 0 < p.absoluteRepeat
  absoluteRepeatBegin : p.absoluteRepeatBegin = 0

theorem eternal_pos : 0 < eternal := by decide

theorem Period.default_init : init.Default := ⟨eternal_pos, eternal_pos, rfl⟩

theorem Period.Checked.default (h : p.Checked) : p.Default :=
  ⟨h.repeat_pos, h.absoluteRepeat_pos, h.absoluteRepeatBegin⟩

theorem Period.check_ok (h : p.check = .ok q) :
    q = p ∧ 0 ≤ p.begin_ ∧ p.begin_ ≤ p.end_ ∧ p.end_ ≤ day := by
  rw [check] at h
  split at h
  · cases h
  · cases h
    refine ⟨rfl, ?_⟩
    omega

theorem Period.Default.of_setRepeat {e : PeriodElement} (hp : p.Default) (h : p.setRepeat e = .ok q) :
    q.Default ∧ q.begin_ % 1000 = 0 := by
  have hr : 0 < (e.repeat_.map fun r => (r : Int) * 1000).getD p.repeat_ ∨
      (e.repeat_.map fun r => (r : Int) * 1000).getD p.repeat_ = 0 := by
    cases e.repeat_ with
    | none => exact Or.inl hp.repeat_pos
    | some r =>
        show 0 < (r : Int) * 1000 ∨ (r : Int) * 1000 = 0
        omega
  have hpos : ∀ r : Int, 0 < r ∨ r = 0 → 0 < if r = 0 then eternal else r := by
    intro r hr
    split
    · exact eternal_pos
    · omega
  have hb : ∀ n : Nat, (n : Int) * 1000 % 1000 = 0 := by omega
  rw [Period.setRepeat] at h
  cases ha : e.absoluteRepeat with
  | none =>
      rw [ha] at h
      cases h
      exact ⟨⟨hpos _ hr, hp.absoluteRepeat_pos, hp.absoluteRepeatBegin⟩, hb _⟩
  | some a =>
      cases a with
      | zero =>
          rw [ha] at h
          cases h
      | succ a =>
          rw [ha] at h
          cases h
          refine ⟨⟨?_, ?_, hp.absoluteRepeatBegin⟩, hb _⟩
          · show 0 < if ((a + 1 : Nat) : Int) * 1000 ≠ eternal then eternal else _
            split
            · exact eternal_pos
            · exact hpos _ hr
          · show (0 : Int) < ((a + 1 : Nat) : Int) * 1000
            omega

/-- Every period that is accepted is a well-formed period of a day. -/
theorem Period.setDom_checked {deflt : Period} {e : PeriodElement} (hd : deflt.Default)
    (h : deflt.setDom e = .ok q) : q.Checked := by
  have hd' : ({ deflt with letRun := e.letRun.getD deflt.letRun } : Period).Default :=
    ⟨hd.repeat_pos, hd.absoluteRepeat_pos, hd.absoluteRepeatBegin⟩
  have hb : ∀ n : Nat, (n : Int) * 1000 % 1000 = 0 := by omega
  rw [setDom] at h
  cases hs : e.singleStart with
  | some t =>
      rw [hs] at h
      obtain ⟨rfl, h0, hle, hend⟩ := check_ok h
      exact ⟨h0, hle, hend, hb t, eternal_pos, eternal_pos, hd.absoluteRepeatBegin⟩
  | none =>
      rw [hs] at h
      cases hr : Period.setRepeat { deflt with letRun := e.letRun.getD deflt.letRun } e with
      | error x =>
          rw [hr] at h
          cases h
      | ok r =>
          rw [hr] at h
          obtain ⟨hrd, hrb⟩ := hd'.of_setRepeat hr
          obtain ⟨rfl, h0, hle, hend⟩ := check_ok h
          exact ⟨h0, hle, hend, hrb, hrd.repeat_pos, hrd.absoluteRepeat_pos,
            hrd.absoluteRepeatBegin⟩

/-- A period of a day. -/
abbrev DayPeriod := { p : Period // p.Checked }

/-- `Day`: its `_period_set` is ordered by the begins. -/
abbrev Day := KeySet fun p : DayPeriod => p.1.begin_

/-- `Day::next_period`: the first period that is coming. -/
def Day.nextPeriod (d : Day) (timeOfDay : Int) (w : WithSingleStart) : Period :=
  match d.toList.find? fun p => p.1.isComing timeOfDay w with
  | some p => p.1
  | none => init

/-! ## Coming periods -/

theorem Period.Checked.end_lt_never (h : p.Checked) : p.end_ < never := by
  have := h.end_le
  rw [day_eq] at this
  rw [never_eq]
  omega

theorem Period.Checked.begin_lt_never (h : p.Checked) : p.begin_ < never :=
  lt_of_le_of_lt h.begin_le h.end_lt_never

/-- The time from which on the next instant of the grid is looked for. -/
def Period.gridTime (p : Period) (t : Int) : Int := if t < p.begin_ then p.begin_ else t

/-- The instant of the grid, without regard to the end. -/
def Period.gridNext (p : Period) (t : Int) : Int :=
  let n := (p.gridTime t - p.absoluteRepeatBegin).tdiv p.absoluteRepeat
  let result := setTime (p.absoluteRepeatBegin + (n + 1) * p.absoluteRepeat)
  if result = add (p.gridTime t) p.absoluteRepeat then p.gridTime t else result

theorem Period.nextAbsoluteRepeated_eq :
    p.nextAbsoluteRepeated t = if p.gridNext t < p.end_ then p.gridNext t else never := rfl

/-- A period of a day has a next instant if the grid has one before the end. -/
theorem Period.Checked.nextAbsoluteRepeated_ne (h : p.Checked) :
    p.nextAbsoluteRepeated t ≠ never ↔ p.gridNext t < p.end_ := by
  rw [Period.nextAbsoluteRepeated_eq]
  have hend := h.end_lt_never
  split
  · omega
  · simp only [ne_eq, not_true_eq_false, false_iff]
    assumption

/-- The quotient of the grid, on a day. -/
theorem Period.Checked.gridNext_eq (h : p.Checked) (h0 : 0 ≤ t)
    (he : p.absoluteRepeat ≠ eternal) :
    ∃ n, p.absoluteRepeat * n ≤ p.gridTime t ∧
      p.gridTime t < p.absoluteRepeat * n + p.absoluteRepeat ∧
      p.gridNext t = if min (p.absoluteRepeat * n + p.absoluteRepeat) never
          = min (p.gridTime t + p.absoluteRepeat) never
        then p.gridTime t else min (p.absoluteRepeat * n + p.absoluteRepeat) never := by
  have ha := h.absoluteRepeat_pos
  have hb := h.begin_lt_never
  have hg : 0 ≤ p.gridTime t := by
    have := h.begin_nonneg
    rw [Period.gridTime]
    split <;> omega
  refine ⟨p.gridTime t / p.absoluteRepeat, Int.mul_ediv_self_le (Int.ne_of_gt ha), ?_, ?_⟩
  · have := Int.lt_mul_ediv_self_add (x := p.gridTime t) ha
    exact this
  · have hadd : add (p.gridTime t) p.absoluteRepeat
        = min (p.gridTime t + p.absoluteRepeat) never := by
      by_cases hn : p.gridTime t = never
      · rw [hn, add_never]
        omega
      · rw [add, if_neg (not_or.mpr ⟨hn, he⟩), setTime]
    have hmul : (p.gridTime t / p.absoluteRepeat + 1) * p.absoluteRepeat
        = p.absoluteRepeat * (p.gridTime t / p.absoluteRepeat) + p.absoluteRepeat := by
      rw [Int.add_mul, Int.one_mul, Int.mul_comm]
    rw [Period.gridNext, h.absoluteRepeatBegin, Int.sub_zero, Int.zero_add,
      Int.tdiv_eq_ediv_of_nonneg hg, hmul, hadd, setTime]

/-- The next instant is not before the time itself. -/
theorem Period.Checked.le_gridNext (h : p.Checked) (h0 : 0 ≤ t) (ht : t ≤ never)
    (he : p.absoluteRepeat ≠ eternal) : p.gridTime t ≤ p.gridNext t := by
  have hb := h.begin_lt_never
  have hgn : p.gridTime t ≤ never := by
    rw [Period.gridTime]
    split <;> omega
  obtain ⟨m, hm1, hm2, hm⟩ := h.gridNext_eq h0 he
  rw [hm]
  split <;> omega

/-- If the grid has an instant before the end of the period, it has one from an
    earlier time on. -/
theorem Period.Checked.gridNext_antitone (h : p.Checked) (h0 : 0 ≤ s) (hst : s ≤ t)
    (ht : t ≤ never) (he : p.absoluteRepeat ≠ eternal) (hlt : p.gridNext t < p.end_) :
    p.gridNext s < p.end_ := by
  have hend := h.end_lt_never
  have hb := h.begin_lt_never
  have ha := h.absoluteRepeat_pos
  obtain ⟨m, hm1, hm2, hm⟩ := h.gridNext_eq h0 he
  obtain ⟨n, hn1, hn2, hn⟩ := h.gridNext_eq (le_trans h0 hst) he
  have hmono : p.gridTime s ≤ p.gridTime t := by
    rw [Period.gridTime, Period.gridTime]
    split <;> split <;> omega
  have hge := h.le_gridNext (le_trans h0 hst) ht he
  by_cases hpass : p.absoluteRepeat * m + p.absoluteRepeat ≤ p.gridTime t
  · rw [hm]
    split <;> omega
  · -- no instant of the grid lies between the two times
    have hmn : m = n := by
      have h1 : p.absoluteRepeat * n < p.absoluteRepeat * (m + 1) := by
        rw [Int.mul_add, Int.mul_one]
        omega
      have h2 : p.absoluteRepeat * m < p.absoluteRepeat * (n + 1) := by
        rw [Int.mul_add, Int.mul_one]
        omega
      have := Int.lt_of_mul_lt_mul_left h1 (le_of_lt ha)
      have := Int.lt_of_mul_lt_mul_left h2 (le_of_lt ha)
      omega
    subst hmn
    rw [hm]
    rw [hn] at hlt
    split <;> split at hlt <;> omega

/-- What is coming at a time of day is coming from each earlier time on. -/
theorem Period.Checked.isComing_antitone (h : p.Checked) (h0 : 0 ≤ s) (hst : s ≤ t)
    (ht : t ≤ never) (hc : p.isComing t w = true) : p.isComing s w = true := by
  rw [Period.isComing] at hc ⊢
  simp only [Bool.if_true_left, Bool.if_false_left, Bool.if_false_right, Bool.and_eq_true,
    Bool.or_eq_true, Bool.not_eq_true', decide_eq_true_eq, Bool.and_true] at hc ⊢
  obtain ⟨h1, h2, h3, hc⟩ := hc
  refine ⟨h1, h2, h3, ?_⟩
  rcases hc with hc | hc | hc | hc | hc
  · exact Or.inl ⟨hc.1, lt_of_le_of_lt hst hc.2⟩
  · exact Or.inr (Or.inl ⟨hc.1, le_trans hst hc.2⟩)
  · exact Or.inr (Or.inr (Or.inl ⟨hc.1, le_trans hst hc.2⟩))
  · refine Or.inr (Or.inr (Or.inr (Or.inl ⟨hc.1, ?_⟩)))
    rcases hc.2 with hc | hc
    · exact Or.inl ⟨hc.1, le_trans hst hc.2⟩
    · exact Or.inr ⟨hc.1, lt_of_le_of_lt hst hc.2⟩
  · refine Or.inr (Or.inr (Or.inr (Or.inr ⟨hc.1, ?_⟩)))
    exact h.nextAbsoluteRepeated_ne.mpr
      (h.gridNext_antitone h0 hst ht hc.1.2 (h.nextAbsoluteRepeated_ne.mp hc.2))

/-! ## The holiday bits -/

def WhenHoliday.bits : WhenHoliday → WithSingleStart
  | .suppress => 0#7
  | .ignoreHoliday => wssWhenHolidayIgnoreHoliday
  | .nextNonHoliday => wssWhenHolidayNextNonHoliday
  | .previousNonHoliday => wssWhenHolidayPreviousNonHoliday

/-- No holiday bit is set. -/
def Plain (w : WithSingleStart) : Prop := has w 0x70#7 = false

instance : Decidable (Plain w) := inferInstanceAs (Decidable (has w 0x70#7 = false))

/-- The bit of a holiday setting does not touch the others. -/
theorem Plain.has_bits (hw : Plain w) (wh : WhenHoliday) :
    has (w ||| wh.bits) wssWhenHolidayIgnoreHoliday = decide (wh = .ignoreHoliday) ∧
    has (w ||| wh.bits) wssWhenHolidayPreviousNonHoliday = decide (wh = .previousNonHoliday) ∧
    has (w ||| wh.bits) wssWhenHolidayNextNonHoliday = decide (wh = .nextNonHoliday) ∧
    has (w ||| wh.bits) wssNextPeriod = has w wssNextPeriod ∧
    has (w ||| wh.bits) wssNextBegin = has w wssNextBegin ∧
    has (w ||| wh.bits) wssNextSingleStart = has w wssNextSingleStart ∧
    has (w ||| wh.bits) wssNextAnyStart = has w wssNextAnyStart ∧
    has (w ||| wh.bits) (wssNextAnyStart ||| wssNextSingleStart)
      = has w (wssNextAnyStart ||| wssNextSingleStart) := by
  cases wh <;> revert w <;> decide

/-- With the bit of a holiday setting, the periods with that setting are coming. -/
theorem Period.isComing_bits (hw : Plain w) (wh : WhenHoliday) :
    p.isComing t (w ||| wh.bits)
      = ((wh = .suppress || p.whenHoliday = wh) && p.isComing t w) := by
  obtain ⟨h1, h2, h3, h4, h5, h6, h7, h8⟩ := hw.has_bits wh
  obtain ⟨k1, k2, k3, k4, k5, k6, k7, k8⟩ := hw.has_bits .suppress
  have hzero : w ||| WhenHoliday.suppress.bits = w := BitVec.or_zero
  rw [hzero] at k1 k2 k3
  rw [Period.isComing, Period.isComing, h1, h2, h3, h4, h5, h6, h7, h8, k1, k2, k3]
  cases wh <;> cases p.whenHoliday <;> simp

end SchedulePeriod
