import SchedulerEngine.HolidayShiftProofs

/-! # Single starts around holidays

    Every start of a schedule with single starts is one that the settings for
    holidays give.  A start is missed if it is moved over more days than the
    search probes. -/

namespace HolidayStarts

open SchedulerTime SchedulePeriod ScheduleInlay ScheduleSearch LeftmostLeast SuccessiveNext
  HolidayShift

variable {i : Inlay Day} {t t0 u x n d : Int} {k : Nat} {p : Period}

/-- A `<period single_start="..">`. -/
def IsSingleStart (p : Period) : Prop :=
  p.singleStart = true ∧ p.hasRepeatOrOnce = false ∧ p.absoluteRepeat = eternal

/-- The inlay has single starts only, and no `<at>`. -/
structure SingleStarts (i : Inlay Day) : Prop where
  noAt : i.atSet.toList = []
  single : ∀ n, ∀ d ∈ i.daysOf n, ∀ p ∈ d.toList, IsSingleStart p.1

/-- The period `p` of the day `n` is due on the day `d`. -/
structure DueOn (i : Inlay Day) (n d : Int) (p : DayPeriod) : Prop where
  onDay : OnDay i n (.period p)
  moved : MovedTo i.holidays n d p.1.whenHoliday
  begin_lt : n * day + p.1.begin_ < never

/-- An instant at which the settings for holidays let a period start. -/
def Occurs (i : Inlay Day) (x : Int) : Prop :=
  ∃ n d p, 0 ≤ n ∧ DueOn i n d p ∧ x = d * day + p.1.begin_

/-- The starts from `t0` on increase, and they are the instants at which a period
    has to start, each of the foreseen range once. -/
structure StartsAsSet (i : Inlay Day) (t0 : Int) : Prop where
  increasing : ∀ m n a b, m < n → starts i t0 m = some a → starts i t0 n = some b → a < b
  nothingElse : ∀ n x, starts i t0 n = some x → t0 ≤ x ∧ Occurs i x
  once : ∀ x, Occurs i x → t0 ≤ x → x < foreseen t0 → ∃! n, starts i t0 n = some x

/-- Whatever is due in the foreseen range is due by a period that is moved over
    not more days than are probed, on a day that has not ended at `t0`. -/
def DueInReach (i : Inlay Day) (t0 : Int) : Prop :=
  ∀ x, Occurs i x → t0 ≤ x → x < foreseen t0 →
    ∃ n d p, DueOn i n d p ∧ InReach n d ∧ dayNr t0 ≤ d ∧ x = d * day + p.1.begin_

theorem isComing_single (hp : IsSingleStart p) :
    p.isComing t wssNextAnyStart = true ↔ t ≤ p.begin_ := by
  obtain ⟨hs, hr, ha⟩ := hp
  have h1 : has wssNextAnyStart wssWhenHolidayIgnoreHoliday = false := by decide
  have h2 : has wssNextAnyStart wssWhenHolidayPreviousNonHoliday = false := by decide
  have h3 : has wssNextAnyStart wssWhenHolidayNextNonHoliday = false := by decide
  have h4 : has wssNextAnyStart wssNextPeriod = false := by decide
  have h5 : has wssNextAnyStart wssNextBegin = false := by decide
  have h6 : has wssNextAnyStart wssNextSingleStart = false := by decide
  have h7 : has wssNextAnyStart wssNextAnyStart = true := by decide
  rw [Period.isComing, h1, h2, h3, h4, h5, h6, h7, hs, hr, ha]
  simp

/-- What is coming begins at the time or later, at a whole second. -/
theorem live_single (hs : SingleStarts i) (hin : InRange i u) (hx : x ∈ Live i u) :
    u ≤ x ∧ x % 1000 = 0 ∧
      ∃ n d p, 0 ≤ n ∧ DueOn i n d p ∧ InReach n d ∧ dayNr u ≤ d ∧ x = d * day + p.1.begin_ := by
  obtain ⟨h0, hle, hdom⟩ := hin
  obtain ⟨d, n, item, hd, hmax, hoff, rfl, hlt⟩ := hx
  have htod := timeOfDay_max (by omega) hle hd hmax
  cases item with
  | instant a =>
      have := hoff.onDay.1
      rw [hs.noAt] at this
      cases this
  | period p =>
      obtain ⟨day', hday', hp⟩ := id hoff.onDay
      have hc := (isComing_single (hs.single n day' hday' p hp)).mp hoff.coming
      refine ⟨?_, ?_, n, d, p, ?_, ⟨hoff.onDay, hoff.moves, hoff.begin_lt⟩, hoff.inReach, hd, rfl⟩
      · show u ≤ d * day + p.1.begin_
        omega
      · have hsec := p.2.begin_seconds
        show (d * day + p.1.begin_) % 1000 = 0
        rw [day_eq]
        omega
      · have h1 := hoff.inReach.1
        have h2 := hoff.inReach.2
        have hreach : Inlay.foreseeYears = 20 := rfl
        rw [hreach] at h1 h2
        rcases hdom with hfar | hnone
        · have := dayNr_eq (t := u) (by omega) hle
          rw [day_eq] at *
          omega
        · have hdn : d = n := (movedTo_of_not (hnone n)).mp hoff.moves
          have := (dayNr_le (t := u) (by omega) hle).1
          omega

/-- What is due in reach is coming. -/
theorem live_of_due (hs : SingleStarts i) (hin : InRange i u) {p : DayPeriod}
    (hdue : DueOn i n d p) (hreach : InReach n d) (hd : dayNr u ≤ d)
    (hu : u ≤ d * day + p.1.begin_) (hlt : d * day + p.1.begin_ < never) :
    d * day + p.1.begin_ ∈ Live i u := by
  have h0 : 0 ≤ u := by
    have := hin.1
    omega
  have hb := p.2.begin_nonneg
  have hmax : max u (d * day) < never := by omega
  have htod := timeOfDay_max h0 hin.2.1 hd hmax
  obtain ⟨day', hday', hp⟩ := id hdue.onDay
  refine ⟨d, n, .period p, hd, hmax, ⟨hdue.onDay, hdue.moved, hreach, ?_, hdue.begin_lt, ?_⟩, rfl,
    hlt⟩
  · refine (isComing_single (hs.single n day' hday' p hp)).mpr ?_
    omega
  · have := hdue.begin_lt
    rw [day_eq] at *
    omega

/-- The search goes on right after each start. -/
theorem inRange_next (hs : SingleStarts i) (hin : InRange i u) {b : Int}
    (hb : nextStart i u = some b) : InRange i (b + 1) := by
  have hlive := nextStart_live hin hb
  have := (live_single hs hin hlive).1
  have := live_lt hlive
  exact hin.mono (by omega) (by omega)

/-- Each start is due in reach, and not before the time of asking. -/
theorem starts_due (hs : SingleStarts i) (hin : InRange i t0) (hx : starts i t0 k = some x) :
    t0 ≤ x ∧ ∃ n d p, 0 ≤ n ∧ DueOn i n d p ∧ InReach n d ∧ dayNr t0 ≤ d ∧
      x = d * day + p.1.begin_ := by
  obtain ⟨u, ⟨hu, htu⟩, hux⟩ := exists_of_deliver (Q := fun u => InRange i u ∧ t0 ≤ u)
    (fun u b hq hb => ⟨inRange_next hs hq.1 hb, by
      have := (live_single hs hq.1 (nextStart_live hq.1 hb)).1
      omega⟩) ⟨hin, le_refl t0⟩ hx
  obtain ⟨hle, -, n, d, p, hn, hdue, hreach, hd, rfl⟩ := live_single hs hu (nextStart_live hu hux)
  refine ⟨le_trans htu hle, n, d, p, hn, hdue, hreach, ?_, rfl⟩
  exact le_trans (dayNr_mono (by have := hin.1; omega) htu hu.2.1) hd

theorem starts_increasing (hs : SingleStarts i) (hin : InRange i t0) {m : Nat} {a b : Int}
    (hmk : m < k) (ha : starts i t0 m = some a) (hb : starts i t0 k = some b) : a < b :=
  deliver_lt (Q := fun u => InRange i u) (fun _ _ hq hb => inRange_next hs hq hb)
    (fun _ _ hq hb => (live_single hs hq (nextStart_live hq hb)).1) hin hmk ha hb

/-- What is due in reach is started. -/
theorem exists_start (hs : SingleStarts i) (hin : InRange i t0) {p : DayPeriod}
    (hdue : DueOn i n d p) (hreach : InReach n d) (hd : dayNr t0 ≤ d)
    (ht : t0 ≤ d * day + p.1.begin_) (hx : d * day + p.1.begin_ < foreseen t0) :
    ∃ k, starts i t0 k = some (d * day + p.1.begin_) := by
  have hsec : (d * day + p.1.begin_) % 1000 = 0 := by
    have := p.2.begin_seconds
    rw [day_eq]
    omega
  have hnever : d * day + p.1.begin_ < never :=
    lt_of_lt_of_le hx (le_foreseen (le_refl t0) hin.2.1).2.1
  -- the search is repeated one millisecond behind a whole second, so that it does
  -- not begin at the end of the day
  refine exists_deliver (Q := fun u => InRange i u ∧ (u = t0 ∨ u % 1000 = 1)) ?_ ?_
    ⟨hin, Or.inl rfl⟩ ht
  · rintro u b ⟨hu, -⟩ hb
    have := (live_single hs hu (nextStart_live hu hb)).2.1
    exact ⟨inRange_next hs hu hb, Or.inr (by omega)⟩
  · rintro u ⟨hu, hq⟩ htu hux
    have hdu : dayNr u ≤ d := by
      rcases hq with rfl | hq
      · exact hd
      · have := p.2.begin_le
        have := p.2.end_le
        exact dayNr_le_of_lt (by have := hin.1; omega) hu.2.1 (by omega)
    have hlive := live_of_due hs hu hdue hreach hdu hux hnever
    obtain ⟨b, hb, hbx⟩ := nextStart_le hu hlive
      (lt_of_lt_of_le hx (le_foreseen htu hu.2.1).1)
    exact ⟨b, hb, (live_single hs hu (nextStart_live hu hb)).1, hbx⟩

/-- The starts are what the settings for holidays give if and only if everything
    due in the foreseen range is due in reach of the probes. -/
theorem startsAsSet_iff (hs : SingleStarts i) (hin : InRange i t0) :
    StartsAsSet i t0 ↔ DueInReach i t0 := by
  constructor
  · intro h x hx ht hf
    obtain ⟨k, hk, -⟩ := h.once x hx ht hf
    obtain ⟨-, n, d, p, -, hdue, hreach, hd, hxe⟩ := starts_due hs hin hk
    exact ⟨n, d, p, hdue, hreach, hd, hxe⟩
  · intro h
    refine ⟨?_, ?_, ?_⟩
    · intro m n a b hmn ha hb
      exact starts_increasing hs hin hmn ha hb
    · intro n x hx
      obtain ⟨ht, n, d, p, hn, hdue, -, -, hxe⟩ := starts_due hs hin hx
      exact ⟨ht, n, d, p, hn, hdue, hxe⟩
    · intro x hx ht hf
      obtain ⟨n, d, p, hdue, hreach, hd, rfl⟩ := h x hx ht hf
      obtain ⟨k, hk⟩ := exists_start hs hin hdue hreach hd ht hf
      refine ⟨k, hk, ?_⟩
      intro m hm
      rcases lt_trichotomy m k with hlt | heq | hgt
      · exact absurd (starts_increasing hs hin hlt hm hk) (lt_irrefl _)
      · exact heq
      · exact absurd (starts_increasing hs hin hgt hk hm) (lt_irrefl _)

/-! ## A start that is missed -/

/-- `<period single_start="12:00" when_holiday=".."/>`. -/
def noonElement (wh : WhenHoliday) : PeriodElement :=
  { singleStart := some 43200, whenHoliday := some wh }

def noonPeriod (wh : WhenHoliday) : Period :=
  { init.setSingleStart 43200000 with end_ := 86400000, whenHoliday := wh }

theorem setDom_noon (wh : WhenHoliday) :
    init.setDom (noonElement wh) = .ok (noonPeriod wh) := by
  cases wh <;> decide +kernel

def noon (wh : WhenHoliday) : DayPeriod :=
  ⟨noonPeriod wh, Period.setDom_checked Period.default_init (setDom_noon wh)⟩

def noDays {D : Type} : DaySet D := ⟨fun _ => none, false⟩

def noMonthdays {D : Type} : MonthdaySet D :=
  ⟨noDays, ⟨fun _ => none, false⟩, ⟨fun _ => none, false⟩⟩

/-- An inlay with dates and holidays only. -/
def datesOnly (dates : List (Date Day)) (holidays : Holidays) : Inlay Day where
  atSet := KeySet.empty _
  dateSet := KeySet.ofList _ dates
  weekdaySet := noDays
  monthdaySet := noMonthdays
  ultimoSet := noDays
  months := fun _ => none
  hasMonth := false
  holidays := holidays

theorem mem_daysOf_datesOnly {dates : List (Date Day)} {holidays : Holidays} {e : Day}
    (he : e ∈ (datesOnly dates holidays).daysOf n) : ∃ date ∈ dates, date.dayNr = n ∧ date.day = e := by
  have hsets : daysOfSets (noDays (D := Day)) noMonthdays noDays n = [] := rfl
  rcases List.mem_append.mp he with he | he
  · obtain ⟨date, hdate, rfl⟩ := List.mem_map.mp he
    obtain ⟨hmem, hday⟩ := List.mem_filter.mp hdate
    exact ⟨date, KeySet.mem_of_mem_ofList hmem, of_decide_eq_true hday, rfl⟩
  · replace he : e ∈ daysOfSets (noDays (D := Day)) noMonthdays noDays n := he
    rw [hsets] at he
    cases he

/-- A period of the day 101, which is a holiday like the 20 days after it, and a
    period of the day 123. -/
def longHolidays : Inlay Day :=
  datesOnly [⟨101, KeySet.ofList _ [noon .nextNonHoliday]⟩,
    ⟨123, KeySet.ofList _ [noon .suppress]⟩]
    ⟨(List.range 21).map fun k => 101 + (k : Int), fun _ => false⟩

theorem longHolidays_start :
    starts longHolidays (100 * day) 0 = some (123 * day + 43200000) := by decide +kernel

theorem longHolidays_isHoliday :
    longHolidays.holidays.isHoliday n = true ↔ 101 ≤ n ∧ n ≤ 121 := by
  have hmem : n ∈ (List.range 21).map (fun k : Nat => 101 + (k : Int)) ↔ 101 ≤ n ∧ n ≤ 121 := by
    rw [List.mem_map]
    constructor
    · rintro ⟨k, hk, rfl⟩
      rw [List.mem_range] at hk
      omega
    · intro hn
      exact ⟨(n - 101).toNat, List.mem_range.mpr (by omega), by omega⟩
  rw [← hmem, ← List.contains_iff_mem]
  show (_ || false) = true ↔ _
  rw [Bool.or_false]
  exact Iff.rfl

theorem longHolidays_single : SingleStarts longHolidays := by
  refine ⟨rfl, ?_⟩
  intro n e he p hp
  obtain ⟨date, hdate, -, rfl⟩ := mem_daysOf_datesOnly he
  rcases List.mem_cons.mp hdate with rfl | hdate
  · rw [List.mem_singleton.mp (KeySet.mem_of_mem_ofList hp)]
    exact ⟨rfl, by decide, rfl⟩
  · rw [List.mem_singleton.mp hdate] at hp
    rw [List.mem_singleton.mp (KeySet.mem_of_mem_ofList hp)]
    exact ⟨rfl, by decide, rfl⟩

theorem longHolidays_inRange : InRange longHolidays (100 * day) :=
  ⟨by decide, by decide, Or.inl (by decide)⟩

theorem longHolidays_iff :
    StartsAsSet longHolidays (100 * day) ↔ DueInReach longHolidays (100 * day) :=
  startsAsSet_iff longHolidays_single longHolidays_inRange

/-- The period of the first of 21 holidays, with `next_non_holiday`, is due on the
    day after them, and it does not start there. -/
theorem longHolidays_missed :
    SingleStarts longHolidays ∧ InRange longHolidays (100 * day) ∧
      ¬StartsAsSet longHolidays (100 * day) := by
  refine ⟨longHolidays_single, longHolidays_inRange, ?_⟩
  intro h
  have hnot : longHolidays.holidays.isHoliday 122 = false := by
    refine Bool.eq_false_iff.mpr fun ht => ?_
    have := longHolidays_isHoliday.mp ht
    omega
  have hocc : Occurs longHolidays (122 * day + 43200000) := by
    refine ⟨101, 122, noon .nextNonHoliday, by decide, ⟨⟨_, List.mem_cons_self, List.mem_cons_self⟩,
      ?_, by decide⟩, rfl⟩
    refine (movedTo_next (longHolidays_isHoliday.mpr (by omega))).mpr ⟨by decide, hnot, ?_⟩
    intro m hm hm'
    exact longHolidays_isHoliday.mpr (by omega)
  obtain ⟨k, hk, -⟩ := h.once _ hocc (by decide) (by decide)
  cases k with
  | zero =>
      rw [longHolidays_start] at hk
      exact absurd hk (by decide)
  | succ k =>
      have := h.increasing 0 (k + 1) _ _ (Nat.succ_pos k) longHolidays_start hk
      exact absurd this (by decide)

end HolidayStarts
