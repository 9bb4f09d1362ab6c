import SchedulerEngine.AnyStartProofs

/-! # The next start of a repeated order

    `Order::next_start_time` pieces the next start together: from the period that the
    order remembers, from the period behind it, and from a search for a single start. -/

namespace NextStart

open SchedulerTime SchedulePeriod ScheduleInlay ScheduleSearch LeftmostLeast CoveringSchedule
open HolidayShift ScheduleUse AnyStart

variable {c : Configuration} {path : String} {t now n x y : Int} {w : WithSingleStart}
  {p q current next single : Period} {item : Item}

/-! ## `Order::next_start_time` -/

def isSeamlessRepeatOf (p o : Period) : Bool :=
  p.begin_ = o.end_ && p.repeat_ ≠ eternal && p.repeat_ = o.repeat_

/-- The time from which on the period behind the current one is looked for. -/
def behind (now : Int) (period : Period) : Int := if period.end_ = never then now else period.end_

/-- The part for a repetition that is over. -/
def afterPeriod (s : Schedule) (zone : TimeZone) (now : Int) (period : Period) (result : Int) :
    Option (Int × Period) := do
  let nextPeriod_ ← nextPeriod s zone (behind now period) wssNextAnyStart never
  if result = never then some (nextPeriod_.begin_, nextPeriod_)
  else if nextPeriod_.end_ ≤ result then do
    let nextPeriod_ ← nextPeriod s zone nextPeriod_.end_ wssNextAnyStart never
    some (nextPeriod_.begin_, nextPeriod_)
  else if !isSeamlessRepeatOf nextPeriod_ period then some (nextPeriod_.begin_, nextPeriod_)
  else some (result, nextPeriod_)

/-- The remembered period, unless it is over. -/
def currentPeriod (s : Schedule) (zone : TimeZone) (now : Int) (period : Period) : Option Period :=
  if period.end_ < now then nextPeriod s zone now wssNextAnyStart never else some period

def repeatedStart (s : Schedule) (zone : TimeZone) (now : Int) (period : Period) :
    Option (Int × Period) :=
  let result := period.nextRepeatedAllowAfterEnd now
  if period.end_ ≤ result then afterPeriod s zone now period result else some (result, period)

/-- A single start that comes before the result. -/
def singleStartBefore (now : Int) (single : Period) (r : Int × Period) : Int × Period :=
  if single.singleStart && (single.begin_ < r.1 || r.1 < now) then (single.begin_, single) else r

/-- The next start, and the period that is remembered; 0 stands for a start that is due. -/
def nextStartTime (scheduleUse : Option Schedule) (zone : TimeZone) (now : Int) (period : Period) :
    Option (Int × Period) :=
  match scheduleUse with
  | none => some (never, period)
  | some s => do
      let period ← currentPeriod s zone now period
      let r ← repeatedStart s zone now period
      let single ← nextPeriod s zone now wssNextSingleStart never
      let r := singleStartBefore now single r
      some (if r.1 < now then 0 else r.1, r.2)

/-! ## What a search finds -/

/-- The period that a search of the schedule finds from a time on. -/
def Finds (c : Configuration) (path : String) (w : WithSingleStart) (t : Int) (q : Period) : Prop :=
  (∃ n item, LeadsFor w (built c) t n item ∧ q = told path (periodOn n item)) ∨
    (∀ n item, ¬LeadsFor w (built c) t n item) ∧ q = nothing

theorem nextPeriod_iff_finds (hnone : ∀ n, c.holidays.isHoliday n = false)
    (hw : has w (wssNextAnyStart ||| wssNextSingleStart) = true) (ht : 1000 ≤ t) (htn : t ≤ never) :
    nextPeriod (alone (built c) path) .utc t w never = some q ↔ Finds c path w t q := by
  have hin : InRange (built c) t := ⟨ht, htn, Or.inr hnone⟩
  rw [nextPeriod_alone path (by omega) htn, Option.some_inj]
  by_cases hlt : ((built c).nextLocalPeriod t w never).begin_ < never
  · obtain ⟨n, item, hleads, heq⟩ := exists_leadsFor hin hnone hw hlt
    rw [if_pos hlt, heq]
    constructor
    · rintro rfl
      exact Or.inl ⟨n, item, hleads, rfl⟩
    · rintro (⟨n', item', hleads', rfl⟩ | ⟨hno, -⟩)
      · obtain ⟨rfl, rfl⟩ := hleads.unique hleads'
        rfl
      · exact absurd hleads (hno n item)
  · have hno : ∀ n item, ¬LeadsFor w (built c) t n item := fun n item hleads =>
      hlt (begin_lt_of_leadsFor hin hnone hleads)
    rw [if_neg hlt]
    constructor
    · rintro rfl
      exact Or.inr ⟨hno, rfl⟩
    · rintro (⟨n, item, hleads, -⟩ | ⟨-, rfl⟩)
      · exact absurd hleads (hno n item)
      · rfl

/-! ## The periods that are found -/

/-- Single starts and periods with an `absolute_repeat`, and nothing else. -/
structure Plainly (p : Period) : Prop where
  unmixed : Unmixed p
  notRepeated : p.repeat_ = eternal
  starts : p.absoluteRepeat ≠ eternal ∨ p.singleStart = true

/-- The starts of a period that has a date. -/
def starts (q : Period) : Set Int :=
  if q.absoluteRepeat ≠ eternal then
    {x | x < q.end_ ∧ ∃ k : Int, 0 ≤ k ∧ x = q.begin_ + k * q.absoluteRepeat}
  else {q.begin_}

/-- A period that is empty. -/
structure Blank (q : Period) : Prop where
  begin_eq : q.begin_ = never
  end_eq : q.end_ = never
  repeat_eq : q.repeat_ = eternal
  absoluteRepeat_eq : q.absoluteRepeat = eternal
  not_single : q.singleStart = false

theorem blank_init : Blank init := ⟨rfl, rfl, rfl, rfl, rfl⟩

theorem blank_nothing : Blank nothing := ⟨rfl, rfl, rfl, rfl, rfl⟩

/-- A period that is told for a configured one. -/
structure PeriodOf (c : Configuration) (n : Int) (item : Item) (q : Period) : Prop where
  configured : Configured c n item
  begin_eq : q.begin_ = n * day + item.begin_
  lt_never : q.begin_ < never
  begin_le : q.begin_ ≤ q.end_
  end_le : q.end_ ≤ never
  repeat_eq : q.repeat_ = eternal
  absoluteRepeat_pos : 0 < q.absoluteRepeat
  counted : q.absoluteRepeat ≠ eternal → q.absoluteRepeatBegin = q.begin_
  grid_iff : HasGrid item ↔ q.absoluteRepeat ≠ eternal
  single : q.singleStart = true ↔ q.absoluteRepeat = eternal
  starts_eq : ∀ x, x < never → (x ∈ startsOn n item ↔ x ∈ starts q)

theorem periodOf_told (path : String) (hkind : ∀ p, item = .period p → Plainly p.1)
    (hon : Configured c n item) (h0 : 0 ≤ n) (hn : n ≤ 24855) (hlt : n * day + item.begin_ < never) :
    PeriodOf c n item (told path (periodOn n item)) := by
  cases item with
  | instant a =>
      obtain ⟨-, ha0, hday⟩ := id hon
      have h1 := (dayNr_timeOfDay ha0 a.2).1
      rw [hday] at h1
      have hb : a.1 = n * day + (Item.instant a).begin_ := h1.symm
      have hend : add a.1 epsilon = min (a.1 + 1) never := by
        rw [add_of_lt (by omega) (by decide), setTime]
        rfl
      refine ⟨hon, hb, lt_of_eq_of_lt hb hlt, ?_, ?_, rfl, eternal_pos, fun h => absurd rfl h,
        ⟨False.elim, fun h => absurd rfl h⟩, ⟨fun _ => rfl, fun _ => rfl⟩, fun x _ => Iff.rfl⟩
      · show a.1 ≤ add a.1 epsilon
        omega
      · show add a.1 epsilon ≤ never
        omega
  | period p =>
      have hk := hkind p rfl
      have hle := p.2.begin_le
      have hlt : n * day + p.1.begin_ < never := hlt
      by_cases hne : p.1.absoluteRepeat ≠ eternal
      · have hs : ¬p.1.singleStart = true := fun hs => hne (hk.unmixed.single hs).2
        rw [told_of_grid path h0 hn hlt hs]
        refine ⟨hon, rfl, hlt, ?_, min_le_right _ _, hk.notRepeated, p.2.absoluteRepeat_pos,
          fun _ => rfl, Iff.rfl, ⟨fun h => absurd h hs, fun h => absurd h hne⟩, ?_⟩
        · show n * day + p.1.begin_ ≤ min (n * day + p.1.end_) never
          omega
        · intro x hx
          rw [startsOn, starts, if_pos hne, if_pos hne]
          constructor
          · exact fun h => ⟨lt_min h.1 hx, h.2⟩
          · exact fun h => ⟨lt_of_lt_of_le h.1 (min_le_left _ _), h.2⟩
      · have hab := not_not.mp hne
        have hs := hk.starts.resolve_left hne
        rw [addTime_eq h0 hn p hlt, told, if_pos hs]
        refine ⟨hon, rfl, hlt, ?_, min_le_right _ _, hk.notRepeated, p.2.absoluteRepeat_pos,
          fun h => absurd hab h, Iff.rfl, ⟨fun _ => hab, fun _ => hs⟩, ?_⟩
        · show n * day + p.1.begin_ ≤ min (n * day + p.1.end_) never
          omega
        · intro x _
          rw [startsOn, starts, if_neg hne, if_neg hne, if_pos (Or.inl hs)]

/-- One of the two searches of `next_start_time`. -/
def Asked (w : WithSingleStart) : Prop := w = wssNextAnyStart ∨ w = wssNextSingleStart

theorem Asked.has (h : Asked w) : has w (wssNextAnyStart ||| wssNextSingleStart) = true := by
  rcases h with rfl | rfl
  · decide
  · decide

/-- What is coming begins later, or has an instant of its grid left. -/
theorem coming_cases {p : DayPeriod} (hk : Plainly p.1) (hw : Asked w)
    (h : p.1.isComing x w = true) :
    (p.1.singleStart = true → x ≤ p.1.begin_) ∧
      (p.1.absoluteRepeat ≠ eternal → p.1.gridNext x < p.1.end_) := by
  have honce : p.1.hasRepeatOrOnce = false := by
    rw [Period.hasRepeatOrOnce, hk.unmixed.notOnce, hk.notRepeated, Bool.or_false]
    rfl
  have hcases : p.1.singleStart = true ∧ x ≤ p.1.begin_ ∨
      p.1.absoluteRepeat ≠ eternal ∧ p.1.nextAbsoluteRepeated x ≠ never := by
    rw [Period.isComing, honce] at h
    rcases hw with rfl | rfl
    · simpa [SchedulePeriod.has, wssNextAnyStart, wssNextSingleStart, wssNextPeriod, wssNextBegin,
        wssWhenHolidayIgnoreHoliday, wssWhenHolidayPreviousNonHoliday,
        wssWhenHolidayNextNonHoliday] using h
    · simpa [SchedulePeriod.has, wssNextAnyStart, wssNextSingleStart, wssNextPeriod, wssNextBegin,
        wssWhenHolidayIgnoreHoliday, wssWhenHolidayPreviousNonHoliday,
        wssWhenHolidayNextNonHoliday] using h
  rcases hcases with ⟨hs, hle⟩ | ⟨hne, hnext⟩
  · exact ⟨fun _ => hle, fun hne => absurd (hk.unmixed.single hs).2 hne⟩
  · exact ⟨fun hs => absurd (hk.unmixed.single hs).2 hne,
      fun _ => p.2.nextAbsoluteRepeated_ne.mp hnext⟩

/-- A period that is found from a time on. -/
structure FoundFrom (c : Configuration) (t : Int) (q : Period) : Prop where
  le_end : t ≤ q.end_
  single_le : q.singleStart = true → t ≤ q.begin_
  begins : q.begin_ ∈ starts q

/-- A single start that is found does not begin before the time of day. -/
theorem begin_of_not_grid (hkinds : ∀ n p, Configured c n (.period p) → Plainly p.1)
    (hw : Asked w) (hleads : LeadsFor w (built c) t n item) (hg : ¬HasGrid item) :
    timeOfDay (max t (n * day)) ≤ item.begin_ := by
  have hcoming := hleads.coming
  cases item with
  | instant a =>
      rw [Item.isComing, Bool.and_eq_true, decide_eq_true_eq] at hcoming
      exact hcoming.2
  | period p =>
      have hk := hkinds n p (configured_of_onDay hleads.onDay)
      exact (coming_cases hk hw hcoming).1 (hk.starts.resolve_left hg)

/-- A grid that is found has not ended. -/
theorem lt_end_of_grid (path : String) (hkinds : ∀ n p, Configured c n (.period p) → Plainly p.1)
    (hw : Asked w) (ht : 0 ≤ t) (htn : t ≤ never) (hleads : LeadsFor w (built c) t n item)
    (h0 : 0 ≤ n) (hn : n ≤ 24855) (hmax : max t (n * day) < never) (hg : HasGrid item) :
    t ≤ (told path (periodOn n item)).end_ ∧
      (told path (periodOn n item)).begin_ < (told path (periodOn n item)).end_ := by
  cases item with
  | instant a => exact False.elim hg
  | period p =>
      have hk := hkinds n p (configured_of_onDay hleads.onDay)
      have hs : ¬p.1.singleStart = true := fun hs => hg (hk.unmixed.single hs).2
      have hlt : n * day + p.1.begin_ < never := hleads.lt_never
      have hgrid := (coming_cases hk hw hleads.coming).2 hg
      have hparts := dayNr_timeOfDay (t := max t (n * day)) (by omega) (le_of_lt hmax)
      have hle := p.2.le_gridNext (t := timeOfDay (max t (n * day))) hparts.2.1
        (le_of_lt (lt_trans hparts.2.2 (by decide))) hg
      have htod := timeOfDay_max ht htn hleads.day_le hmax
      rw [told_of_grid path h0 hn hlt hs]
      show t ≤ min (n * day + p.1.end_) never ∧
        n * day + p.1.begin_ < min (n * day + p.1.end_) never
      rw [Period.gridTime] at hle
      split at hle <;> omega

theorem Finds.spec (hkinds : ∀ n p, Configured c n (.period p) → Plainly p.1) (hw : Asked w)
    (ht : 1000 ≤ t) (htn : t ≤ never) (h : Finds c path w t q) :
    Blank q ∨ (∃ n item, PeriodOf c n item q) ∧ FoundFrom c t q := by
  rcases h with ⟨n, item, hleads, rfl⟩ | ⟨-, rfl⟩
  · refine Or.inr ?_
    have hon := configured_of_onDay hleads.onDay
    have hfn := (le_foreseen (le_refl t) htn).2.1
    have hmax : max t (n * day) < never := lt_of_lt_of_le hleads.foreseen hfn
    have hn0 : 0 ≤ n := le_trans (dayNr_le (by omega) htn).1 hleads.day_le
    have hn : n ≤ 24855 := by
      have := (dayNr_le (t := max t (n * day)) (by omega) (le_of_lt hmax)).2
      rwa [dayNr_max (by omega) htn hleads.day_le hmax] at this
    have htod := timeOfDay_max (by omega) htn hleads.day_le hmax
    have hof : PeriodOf c n item (told path (periodOn n item)) :=
      periodOf_told path (fun p hp => hkinds n p (hp ▸ hon)) hon hn0 hn hleads.lt_never
    refine ⟨⟨n, item, hof⟩, ?_⟩
    by_cases hg : HasGrid item
    · obtain ⟨hend, hlt⟩ := lt_end_of_grid path hkinds hw (by omega) htn hleads hn0 hn hmax hg
      have hne := hof.grid_iff.mp hg
      refine ⟨hend, fun hs => absurd (hof.single.mp hs) hne, ?_⟩
      rw [starts, if_pos hne]
      exact ⟨hlt, 0, le_refl _, by omega⟩
    · have hle := begin_of_not_grid hkinds hw hleads hg
      have hbegin : t ≤ (told path (periodOn n item)).begin_ := by
        rw [hof.begin_eq]
        omega
      refine ⟨le_trans hbegin hof.begin_le, fun _ => hbegin, ?_⟩
      rw [starts, if_neg fun hne => hg (hof.grid_iff.mpr hne)]
      rfl
  · exact Or.inl blank_nothing

/-! ## The repetition of a period -/

/-- The configured starts from a time on. -/
def AllStarts (c : Configuration) (t : Int) : Set Int :=
  {x | t ≤ x ∧ x < never ∧ ∃ n item, Configured c n item ∧ x ∈ startsOn n item}

/-- The starts of a period from a time on. -/
def startsFrom (t : Int) (q : Period) : Set Int := {x | t ≤ x ∧ x < never ∧ x ∈ starts q}

/-- The instants of the grid of a period from a time on. -/
def gridFrom (t : Int) (q : Period) : Set Int := {x | q.absoluteRepeat ≠ eternal ∧ x ∈ startsFrom t q}

/-- The grid reaches the end of time before its next instant. -/
def GridBeyond (t : Int) (q : Period) : Prop :=
  q.absoluteRepeat ≠ eternal ∧ BeyondTime t q.begin_ q.end_ q.absoluteRepeat

/-- A period of the schedule, or an empty one. -/
def Known (c : Configuration) (q : Period) : Prop := Blank q ∨ ∃ n item, PeriodOf c n item q

/-- The periods that an order can have remembered. -/
def Remembered (c : Configuration) (path : String) (p : Period) : Prop :=
  p = init ∨ ∃ t w, 1000 ≤ t ∧ t ≤ never ∧ Asked w ∧
    nextPeriod (alone (built c) path) .utc t w never = some p

/-- What repetitions need. -/
structure Regular (q : Period) : Prop where
  repeat_eq : q.repeat_ = eternal
  end_le : q.end_ ≤ never
  absoluteRepeat_pos : 0 < q.absoluteRepeat
  grid : q.absoluteRepeat ≠ eternal → q.absoluteRepeatBegin = q.begin_ ∧ q.begin_ < never

theorem Known.regular (h : Known c q) : Regular q := by
  rcases h with h | ⟨n, item, h⟩
  · refine ⟨h.repeat_eq, le_of_eq h.end_eq, ?_, fun hne => absurd h.absoluteRepeat_eq hne⟩
    rw [h.absoluteRepeat_eq]
    exact eternal_pos
  · exact ⟨h.repeat_eq, h.end_le, h.absoluteRepeat_pos, fun hne => ⟨h.counted hne, h.lt_never⟩⟩

/-- The starts of a known period are configured. -/
theorem Known.startsFrom_subset (h : Known c q) (hx : x ∈ startsFrom t q) : x ∈ AllStarts c t := by
  obtain ⟨htx, hxn, hmem⟩ := hx
  rcases h with h | ⟨n, item, h⟩
  · rw [starts, if_neg (not_not_intro h.absoluteRepeat_eq)] at hmem
    have hx : x = q.begin_ := hmem
    rw [hx, h.begin_eq] at hxn
    exact absurd hxn (lt_irrefl _)
  · exact ⟨htx, hxn, n, item, h.configured, (h.starts_eq x hxn).mpr hmem⟩

theorem Regular.nextRepeated_eq (h : Regular q) :
    q.nextRepeatedAllowAfterEnd t = q.nextRepeated t := by
  have hr : ¬q.repeat_ ≠ eternal := fun hne => hne h.repeat_eq
  have hend := h.end_le
  rw [Period.nextRepeated, Period.nextRepeatedAllowAfterEnd, if_neg hr]
  by_cases hne : q.absoluteRepeat ≠ eternal
  · rw [if_pos hne, Period.nextAbsoluteRepeated_eq]
    by_cases hlt : q.gridNext t < q.end_
    · rw [if_pos hlt, if_pos hlt]
    · rw [if_neg hlt, if_neg (not_lt_of_ge hend)]
  · rw [if_neg hne, if_neg (not_lt_of_ge hend)]

/-- The repetition tells the next instant of the grid. -/
theorem Regular.repetition (h : Regular q) (ht : t < never) :
    (GridBeyond t q → q.nextRepeatedAllowAfterEnd t = t) ∧
      (¬GridBeyond t q → LeastOr (gridFrom t q) never (q.nextRepeatedAllowAfterEnd t)) := by
  rw [h.nextRepeated_eq]
  by_cases hne : q.absoluteRepeat ≠ eternal
  · obtain ⟨hb, hbn⟩ := h.grid hne
    constructor
    · exact fun hbeyond => nextRepeated_of_beyond h.absoluteRepeat_pos h.repeat_eq hne hb h.end_le
        ht hbeyond.2
    · intro hnot
      have hleast := nextRepeated_leastOr h.absoluteRepeat_pos h.repeat_eq hne hb hbn h.end_le ht
        fun hbeyond => hnot ⟨hne, hbeyond⟩
      refine hleast.congr fun y hy => ?_
      rw [Grid, gridFrom, startsFrom, starts, if_pos hne]
      exact ⟨fun hg => ⟨hne, hg.1, hy, hg.2⟩, fun hg => ⟨hg.2.1, hg.2.2.2⟩⟩
  · have hr : ¬q.repeat_ ≠ eternal := fun hr => hr h.repeat_eq
    have hnever : q.nextRepeated t = never := by
      rw [Period.nextRepeated, Period.nextRepeatedAllowAfterEnd,
        if_neg hr, if_neg hne, if_neg (not_lt_of_ge h.end_le)]
    refine ⟨fun hbeyond => absurd hbeyond.1 hne, fun _ => ?_⟩
    rw [hnever]
    exact leastOr_bound fun y hy => absurd hy.1 hne

/-! ## The parts of the result -/

/-- The current period: the remembered one, unless it is over. -/
def Current (c : Configuration) (path : String) (now : Int) (p current : Period) : Prop :=
  if p.end_ < now then Finds c path wssNextAnyStart now current else current = p

/-- The start after the search for a single start. -/
def preferred (now : Int) (single : Period) (r : Int) : Int :=
  if single.singleStart = true ∧ (single.begin_ < r ∨ r < now) then single.begin_ else r

/-- Nothing in the past is told. -/
def finished (now : Int) (single : Period) (r : Int) : Int :=
  if preferred now single r < now then 0 else preferred now single r

theorem finished_of_le {r : Int} (h : now ≤ preferred now single r) :
    finished now single r = preferred now single r :=
  if_neg (not_lt_of_ge h)

theorem Regular.repeatedStart_eq {s : Schedule} {zone : TimeZone} (h : Regular current)
    (hnext : nextPeriod s zone (behind now current) wssNextAnyStart never = some next) :
    ∃ q, repeatedStart s zone now current = some
      (if current.nextRepeatedAllowAfterEnd now < current.end_
        then current.nextRepeatedAllowAfterEnd now else next.begin_, q) := by
  have hend := h.end_le
  by_cases hlt : current.nextRepeatedAllowAfterEnd now < current.end_
  · refine ⟨current, ?_⟩
    rw [repeatedStart, if_neg (not_le_of_gt hlt), if_pos hlt]
  · -- a repetition that is over tells `never`
    have hnever : current.nextRepeatedAllowAfterEnd now = never := by
      rw [h.nextRepeated_eq] at hlt ⊢
      rw [Period.nextRepeated] at hlt ⊢
      split at hlt
      · contradiction
      · rename_i hno
        rw [if_neg hno]
    refine ⟨next, ?_⟩
    rw [repeatedStart, if_pos (le_of_not_gt hlt), if_neg hlt, hnever, afterPeriod, hnext,
      Option.bind_eq_bind, Option.bind_some, if_pos rfl]

theorem singleStartBefore_fst (now : Int) (single : Period) (r : Int × Period) :
    (singleStartBefore now single r).1 = preferred now single r.1 := by
  have hiff : (single.singleStart && (single.begin_ < r.1 || r.1 < now)) = true ↔
      single.singleStart = true ∧ (single.begin_ < r.1 ∨ r.1 < now) := by simp
  rw [singleStartBefore, preferred]
  by_cases h : single.singleStart = true ∧ (single.begin_ < r.1 ∨ r.1 < now)
  · rw [if_pos (hiff.mpr h), if_pos h]
  · rw [if_neg fun hb => h (hiff.mp hb), if_neg h]

theorem nextStartTime_some {s : Schedule} {zone : TimeZone} (h : Regular current)
    (hcurrent : currentPeriod s zone now p = some current)
    (hnext : nextPeriod s zone (behind now current) wssNextAnyStart never = some next)
    (hsingle : nextPeriod s zone now wssNextSingleStart never = some single) :
    ∃ q, nextStartTime (some s) zone now p = some (finished now single
      (if current.nextRepeatedAllowAfterEnd now < current.end_
        then current.nextRepeatedAllowAfterEnd now else next.begin_), q) := by
  obtain ⟨q, hr⟩ := h.repeatedStart_eq hnext
  rw [nextStartTime, hcurrent, Option.bind_eq_bind, Option.bind_some, hr, Option.bind_eq_bind,
    Option.bind_some, hsingle]
  simp only [Option.bind_some, singleStartBefore_fst]
  exact ⟨_, rfl⟩

/-- The single start is one more start that is looked at. -/
theorem finished_leastOr {R L : Set Int} {r : Int}
    (hL : ∀ x, x ∈ L ↔ x ∈ R ∨ single.singleStart = true ∧ x = single.begin_)
    (hs : single.singleStart = true → now ≤ single.begin_ ∧ single.begin_ < never)
    (hr : now ≤ r → LeastOr R never r) (hpast : r < now → single.singleStart = true ∧ R = ∅) :
    LeastOr L never (finished now single r) := by
  by_cases h : single.singleStart = true ∧ (single.begin_ < r ∨ r < now)
  · obtain ⟨hsn, hsv⟩ := hs h.1
    have hp : preferred now single r = single.begin_ := if_pos h
    rw [finished_of_le (le_of_le_of_eq hsn hp.symm), hp]
    refine leastOr_of_mem ((hL _).mpr (Or.inr ⟨h.1, rfl⟩)) ?_ (le_of_lt hsv)
    intro y hy
    rcases (hL y).mp hy with hy | ⟨-, rfl⟩
    · rcases h.2 with hlt | hlt
      · exact le_trans (le_of_lt hlt) ((hr (le_trans hsn (le_of_lt hlt))).le y hy)
      · rw [(hpast hlt).2] at hy
        exact absurd hy (Set.notMem_empty y)
    · exact le_refl _
  · have hle : now ≤ r := by
      by_contra hlt
      have hlt := lt_of_not_ge hlt
      exact h ⟨(hpast hlt).1, Or.inr hlt⟩
    have hp : preferred now single r = r := if_neg h
    rw [finished_of_le (le_of_le_of_eq hle hp.symm), hp]
    refine ⟨fun hr' => (hL r).mpr (Or.inl ((hr hle).mem hr')), ?_, (hr hle).le_bound⟩
    intro y hy
    rcases (hL y).mp hy with hy | ⟨hsingle, rfl⟩
    · exact (hr hle).le y hy
    · exact le_of_not_gt fun hlt => h ⟨hsingle, Or.inl hlt⟩

/-! ## The starts that are looked at -/

/-- The starts that are looked at: the instants of the current period; if it has none
    left, the begin of the period behind it; and a single start, if one is found. -/
def Looked (c : Configuration) (path : String) (now : Int) (p : Period) : Set Int :=
  {x | now ≤ x ∧ x < never ∧
    ((∃ current, Current c path now p current ∧ (x ∈ gridFrom now current ∨
      gridFrom now current = ∅ ∧
        ∃ next, Finds c path wssNextAnyStart (behind now current) next ∧ x = next.begin_)) ∨
    ∃ single, Finds c path wssNextSingleStart now single ∧ single.singleStart = true ∧
      x = single.begin_)}

/-- The first start is among those that are looked at, and among those of the period
    that `next_any_start` finds. -/
structure InSight (c : Configuration) (path : String) (now : Int) (p : Period) : Prop where
  inTime : ∀ current, Current c path now p current → ¬GridBeyond now current
  notOver : ∀ current next, Current c path now p current → gridFrom now current = ∅ →
    Finds c path wssNextAnyStart (behind now current) next → next.begin_ < now →
      ∃ single, Finds c path wssNextSingleStart now single ∧ single.singleStart = true
  looked : ∀ y ∈ AllStarts c now, ∃ x ∈ Looked c path now p, x ≤ y
  asked : ∀ q, Finds c path wssNextAnyStart now q →
    ¬GridBeyond now q ∧ ∀ y ∈ AllStarts c now, ∃ x ∈ startsFrom now q, x ≤ y

/-- The next start is the first configured one, and the one that `next_any_start` tells. -/
def TellsNextStart (c : Configuration) (path : String) (now : Int) (p : Period) : Prop :=
  ∃ x q, nextStartTime (some (alone (built c) path)) .utc now p = some (x, q) ∧
    LeastOr (AllStarts c now) never x ∧ nextAnyStart (alone (built c) path) .utc now = some x

theorem Finds.unique (h : Finds c path w t p) (h' : Finds c path w t q) : p = q := by
  rcases h with ⟨n, item, hleads, rfl⟩ | ⟨hno, rfl⟩
  · rcases h' with ⟨n', item', hleads', rfl⟩ | ⟨hno', -⟩
    · obtain ⟨rfl, rfl⟩ := hleads.unique hleads'
      rfl
    · exact absurd hleads (hno' n item)
  · rcases h' with ⟨n', item', hleads', -⟩ | ⟨-, rfl⟩
    · exact absurd hleads' (hno n' item')
    · rfl

theorem exists_finds (path : String) (hnone : ∀ n, c.holidays.isHoliday n = false) (hw : Asked w)
    (ht : 1000 ≤ t) (htn : t ≤ never) :
    ∃ q, nextPeriod (alone (built c) path) .utc t w never = some q ∧ Finds c path w t q := by
  have h := nextPeriod_alone (i := built c) (w := w) path (t := t) (by omega) htn
  exact ⟨_, h, (nextPeriod_iff_finds hnone hw.has ht htn).mp h⟩

/-- What is found, with the facts about it. -/
theorem Finds.known (hkinds : ∀ n p, Configured c n (.period p) → Plainly p.1) (hw : Asked w)
    (ht : 1000 ≤ t) (htn : t ≤ never) (h : Finds c path w t q) :
    Known c q ∧ t ≤ q.end_ ∧ (q.singleStart = true → t ≤ q.begin_ ∧ q.begin_ < never) ∧
      (q.begin_ < never → q.begin_ ∈ starts q) ∧ q.begin_ ≤ never := by
  rcases h.spec hkinds hw ht htn with h | ⟨⟨n, item, hof⟩, hfound⟩
  · refine ⟨Or.inl h, le_of_le_of_eq htn h.end_eq.symm, ?_, ?_, le_of_eq h.begin_eq⟩
    · intro hs
      exact absurd (h.not_single.symm.trans hs) Bool.false_ne_true
    · intro hlt
      rw [h.begin_eq] at hlt
      exact absurd hlt (lt_irrefl _)
  · exact ⟨Or.inr ⟨n, item, hof⟩, hfound.le_end, fun hs => ⟨hfound.single_le hs, hof.lt_never⟩,
      fun _ => hfound.begins, le_of_lt hof.lt_never⟩

theorem Remembered.known (hnone : ∀ n, c.holidays.isHoliday n = false)
    (hkinds : ∀ n p, Configured c n (.period p) → Plainly p.1) (h : Remembered c path p) :
    Known c p := by
  rcases h with rfl | ⟨t, w, ht, htn, hw, h⟩
  · exact Or.inl blank_init
  · exact (((nextPeriod_iff_finds hnone hw.has ht htn).mp h).known hkinds hw ht htn).1

/-- The current period, with the facts about it. -/
theorem exists_current (hnone : ∀ n, c.holidays.isHoliday n = false)
    (hkinds : ∀ n p, Configured c n (.period p) → Plainly p.1) (hnow : 1000 ≤ now)
    (hn : now < never) (hp : Remembered c path p) :
    ∃ current, currentPeriod (alone (built c) path) .utc now p = some current ∧
      Current c path now p current ∧ Known c current ∧ now ≤ current.end_ ∧
      ∀ q, Current c path now p q → q = current := by
  rw [currentPeriod]
  by_cases hlt : p.end_ < now
  · obtain ⟨q, hq, hfinds⟩ := exists_finds path hnone (Or.inl rfl) hnow (le_of_lt hn)
    obtain ⟨hknown, hend, -⟩ := hfinds.known hkinds (Or.inl rfl) hnow (le_of_lt hn)
    refine ⟨q, by rw [if_pos hlt, hq], by rw [Current, if_pos hlt]; exact hfinds, hknown, hend, ?_⟩
    intro q' hq'
    rw [Current, if_pos hlt] at hq'
    exact hq'.unique hfinds
  · refine ⟨p, if_neg hlt, by rw [Current, if_neg hlt], hp.known hnone hkinds, le_of_not_gt hlt, ?_⟩
    intro q' hq'
    rwa [Current, if_neg hlt] at hq'

theorem behind_range (hnow : 1000 ≤ now) (hn : now < never) (hle : now ≤ current.end_)
    (hend : current.end_ ≤ never) : 1000 ≤ behind now current ∧ behind now current ≤ never := by
  rw [behind]
  split <;> omega

/-- The starts of the current period and of the one behind it. -/
theorem repetition_leastOr (h : Regular current) (hn : now < never)
    (hbeyond : ¬GridBeyond now current) {b : Int} (hb : b ≤ never)
    {r : Int} (hr : r = if current.nextRepeatedAllowAfterEnd now < current.end_
      then current.nextRepeatedAllowAfterEnd now else b) :
    (now ≤ r → LeastOr {x | now ≤ x ∧ x < never ∧
      (x ∈ gridFrom now current ∨ gridFrom now current = ∅ ∧ x = b)} never r) ∧
    (r < now → gridFrom now current = ∅ ∧ r = b) := by
  have hleast := (h.repetition hn).2 hbeyond
  by_cases hlt : current.nextRepeatedAllowAfterEnd now < never
  · have hmem := hleast.mem hlt
    obtain ⟨hne, hnr, -, hstart⟩ := id hmem
    rw [starts, if_pos hne] at hstart
    rw [if_pos hstart.1] at hr
    subst hr
    refine ⟨fun _ => leastOr_of_mem ⟨hnr, hlt, Or.inl hmem⟩ ?_ (le_of_lt hlt),
      fun hlt' => absurd hlt' (not_lt_of_ge hnr)⟩
    rintro y ⟨-, -, hy | ⟨hempty, -⟩⟩
    · exact hleast.le y hy
    · rw [hempty] at hmem
      exact absurd hmem (Set.notMem_empty _)
  · have hnever := le_antisymm hleast.le_bound (le_of_not_gt hlt)
    have hempty : gridFrom now current = ∅ := by
      refine Set.eq_empty_iff_forall_notMem.mpr fun y hy => ?_
      exact absurd (le_trans (le_of_eq hnever.symm) (hleast.le y hy)) (not_le_of_gt hy.2.2.1)
    have hend : ¬current.nextRepeatedAllowAfterEnd now < current.end_ := by
      rw [hnever]
      exact not_lt_of_ge h.end_le
    rw [if_neg hend] at hr
    subst hr
    refine ⟨fun hle => ⟨fun hlt' => ⟨hle, hlt', Or.inr ⟨hempty, rfl⟩⟩, ?_, hb⟩,
      fun _ => ⟨hempty, rfl⟩⟩
    rintro y ⟨-, -, hy | ⟨-, rfl⟩⟩
    · rw [hempty] at hy
      exact absurd hy (Set.notMem_empty _)
    · exact le_refl _

section Results

variable (hnone : ∀ n, c.holidays.isHoliday n = false)
  (hkinds : ∀ n p, Configured c n (.period p) → Plainly p.1)
  (hnow : 1000 ≤ now) (hn : now < never) (hp : Remembered c path p)
include hnone hkinds hnow hn hp

/-- The pieces of the result. -/
theorem nextStartTime_pieces :
    ∃ current next single q, Known c current ∧ Current c path now p current ∧
      Finds c path wssNextAnyStart (behind now current) next ∧
      Finds c path wssNextSingleStart now single ∧ next.begin_ ≤ never ∧
      (∀ r, Current c path now p r → r = current) ∧
      (single.singleStart = true → now ≤ single.begin_ ∧ single.begin_ < never) ∧
      nextStartTime (some (alone (built c) path)) .utc now p = some (finished now single
        (if current.nextRepeatedAllowAfterEnd now < current.end_
          then current.nextRepeatedAllowAfterEnd now else next.begin_), q) := by
  obtain ⟨current, hcode, hcurrent, hknown, hle, hunique⟩ :=
    exists_current hnone hkinds hnow hn hp
  have hbehind := behind_range hnow hn hle hknown.regular.end_le
  obtain ⟨next, hnext, hfindsNext⟩ := exists_finds path hnone (Or.inl rfl) hbehind.1 hbehind.2
  obtain ⟨single, hsingle, hfindsSingle⟩ :=
    exists_finds path hnone (w := wssNextSingleStart) (Or.inr rfl) hnow (le_of_lt hn)
  obtain ⟨q, hq⟩ := nextStartTime_some hknown.regular hcode hnext hsingle
  exact ⟨current, next, single, q, hknown, hcurrent, hfindsNext, hfindsSingle,
    (hfindsNext.known hkinds (Or.inl rfl) hbehind.1 hbehind.2).2.2.2.2, hunique,
    (hfindsSingle.known hkinds (Or.inr rfl) hnow (le_of_lt hn)).2.2.1, hq⟩

/-- The least of the starts that are looked at is told. -/
theorem nextStartTime_leastOr
    (hin : ∀ current, Current c path now p current → ¬GridBeyond now current)
    (hover : ∀ current next, Current c path now p current → gridFrom now current = ∅ →
      Finds c path wssNextAnyStart (behind now current) next → next.begin_ < now →
        ∃ single, Finds c path wssNextSingleStart now single ∧ single.singleStart = true) :
    ∃ x q, nextStartTime (some (alone (built c) path)) .utc now p = some (x, q) ∧
      LeastOr (Looked c path now p) never x := by
  obtain ⟨current, next, single, q, hknown, hcurrent, hnext, hsingle, hbn, hunique, hs, heq⟩ :=
    nextStartTime_pieces hnone hkinds hnow hn hp
  refine ⟨_, q, heq, ?_⟩
  obtain ⟨hleast, hpast⟩ := repetition_leastOr hknown.regular hn (hin current hcurrent) hbn rfl
  refine finished_leastOr ?_ hs hleast ?_
  · intro x
    constructor
    · rintro ⟨hnx, hxn, ⟨q, hq, hx⟩ | ⟨s, hfs, hst, rfl⟩⟩
      · obtain rfl := hunique q hq
        refine Or.inl ⟨hnx, hxn, ?_⟩
        rcases hx with hx | ⟨hempty, n', hn', rfl⟩
        · exact Or.inl hx
        · exact Or.inr ⟨hempty, congrArg Period.begin_ (hn'.unique hnext)⟩
      · obtain rfl := hfs.unique hsingle
        exact Or.inr ⟨hst, rfl⟩
    · rintro (⟨hnx, hxn, hx⟩ | ⟨hst, rfl⟩)
      · refine ⟨hnx, hxn, Or.inl ⟨current, hcurrent, ?_⟩⟩
        rcases hx with hx | ⟨hempty, rfl⟩
        · exact Or.inl hx
        · exact Or.inr ⟨hempty, next, hnext, rfl⟩
      · exact ⟨(hs hst).1, (hs hst).2, Or.inr ⟨single, hsingle, hst, rfl⟩⟩
  · intro hlt
    obtain ⟨hempty, hr⟩ := hpast hlt
    rw [hr] at hlt
    obtain ⟨s, hfs, hst⟩ := hover current next hcurrent hempty hnext hlt
    obtain rfl := hfs.unique hsingle
    refine ⟨hst, Set.eq_empty_iff_forall_notMem.mpr ?_⟩
    rintro x ⟨hnx, -, hx | ⟨-, rfl⟩⟩
    · rw [hempty] at hx
      exact absurd hx (Set.notMem_empty _)
    · exact absurd hlt (not_lt_of_ge hnx)

/-- What is looked at is configured. -/
theorem looked_subset (hx : x ∈ Looked c path now p) : x ∈ AllStarts c now := by
  obtain ⟨current, -, hcurrent, hknown, hle, hunique⟩ := exists_current hnone hkinds hnow hn hp
  have hbehind := behind_range hnow hn hle hknown.regular.end_le
  obtain ⟨hnx, hxn, ⟨q, hq, hx⟩ | ⟨s, hfs, hst, rfl⟩⟩ := hx
  · obtain rfl := hunique q hq
    rcases hx with hx | ⟨-, next, hnext, rfl⟩
    · exact hknown.startsFrom_subset hx.2
    · obtain ⟨hk, -, -, hstart, -⟩ := hnext.known hkinds (Or.inl rfl) hbehind.1 hbehind.2
      exact hk.startsFrom_subset ⟨hnx, hxn, hstart hxn⟩
  · obtain ⟨hk, -, -, hstart, -⟩ := hfs.known hkinds (Or.inr rfl) hnow (le_of_lt hn)
    exact hk.startsFrom_subset ⟨hnx, hxn, hstart hxn⟩

/-- Behind the last instant before the end of time, the time itself is told. -/
theorem nextStartTime_of_beyond (hcurrent : Current c path now p current)
    (hbeyond : GridBeyond now current) :
    ∃ q, nextStartTime (some (alone (built c) path)) .utc now p = some (now, q) := by
  obtain ⟨current', next, single, q, hknown, -, -, -, -, hunique, hs, heq⟩ :=
    nextStartTime_pieces hnone hkinds hnow hn hp
  obtain rfl := hunique current hcurrent
  have hp : preferred now single now = now := by
    refine if_neg ?_
    rintro ⟨hst, hlt | hlt⟩
    · exact absurd hlt (not_lt_of_ge (hs hst).1)
    · exact lt_irrefl _ hlt
  rw [(hknown.regular.repetition hn).1 hbeyond, if_pos hbeyond.2.1,
    finished_of_le (le_of_eq hp.symm), hp] at heq
  exact ⟨q, heq⟩

/-- Where the next period has begun, and no single start is found, 0 is told. -/
theorem nextStartTime_of_over (hcurrent : Current c path now p current)
    (hbeyond : ¬GridBeyond now current) (hempty : gridFrom now current = ∅)
    (hnext : Finds c path wssNextAnyStart (behind now current) next) (hlt : next.begin_ < now)
    (hsingle : ∀ single, Finds c path wssNextSingleStart now single → ¬single.singleStart = true) :
    ∃ q, nextStartTime (some (alone (built c) path)) .utc now p = some (0, q) := by
  obtain ⟨current', next', single, q, hknown, -, hnext', hfs, -, hunique, -, heq⟩ :=
    nextStartTime_pieces hnone hkinds hnow hn hp
  obtain rfl := hunique current hcurrent
  obtain rfl := hnext.unique hnext'
  have hover : ¬current.nextRepeatedAllowAfterEnd now < current.end_ := by
    intro hr
    have hmem := ((hknown.regular.repetition hn).2 hbeyond).mem
      (lt_of_lt_of_le hr hknown.regular.end_le)
    rw [hempty] at hmem
    exact Set.notMem_empty _ hmem
  have hp : preferred now single next.begin_ = next.begin_ := if_neg fun h => hsingle single hfs h.1
  have hfin : finished now single next.begin_ = 0 := by
    rw [finished, hp, if_pos hlt]
  rw [if_neg hover, hfin] at heq
  exact ⟨q, heq⟩

omit hp in
/-- `next_any_start` tells the first start of the period it finds. -/
theorem asked_leastOr (hfinds : Finds c path wssNextAnyStart now q) :
    nextAnyStart (alone (built c) path) .utc now = some (startOf now q) ∧
      (GridBeyond now q → startOf now q = now) ∧
      (¬GridBeyond now q → LeastOr (startsFrom now q) never (startOf now q)) := by
  obtain ⟨hk, -, hs, -, hbn⟩ := hfinds.known hkinds (Or.inl rfl) hnow (le_of_lt hn)
  have hcode := (nextPeriod_iff_finds hnone (by decide) hnow (le_of_lt hn)).mpr hfinds
  refine ⟨by rw [nextAnyStart, hcode, Option.map_some], ?_⟩
  have hrep := hk.regular.repetition (t := now) hn
  rw [hk.regular.nextRepeated_eq] at hrep
  by_cases hne : q.absoluteRepeat ≠ eternal
  · rw [startOf, if_pos hne]
    refine ⟨hrep.1, fun hnot => (hrep.2 hnot).congr fun y _ => ?_⟩
    exact ⟨fun hy => hy.2, fun hy => ⟨hne, hy⟩⟩
  · rw [startOf, if_neg hne]
    refine ⟨fun hbeyond => absurd hbeyond.1 hne, fun _ => ?_⟩
    have hstarts : starts q = {q.begin_} := if_neg hne
    refine ⟨fun hlt => ⟨?_, hlt, by rw [hstarts]; rfl⟩, ?_, hbn⟩
    · rcases hk with hk | ⟨n, item, hk⟩
      · rw [hk.begin_eq] at hlt
        exact absurd hlt (lt_irrefl _)
      · exact (hs (hk.single.mpr (not_not.mp hne))).1
    · rintro y ⟨-, -, hy⟩
      rw [hstarts] at hy
      exact le_of_eq hy.symm

end Results

theorem leastOr_of_subset {S T : Set Int} (h : LeastOr T never x) (hsub : ∀ y ∈ T, y ∈ S)
    (hle : ∀ y ∈ S, ∃ z ∈ T, z ≤ y) : LeastOr S never x := by
  refine ⟨fun hx => hsub x (h.mem hx), ?_, h.le_bound⟩
  intro y hy
  obtain ⟨z, hz, hzy⟩ := hle y hy
  exact le_trans (h.le z hz) hzy

theorem LeastOr.eq {S : Set Int} (h : LeastOr S never x) (h' : LeastOr S never y) : x = y := by
  have hle : ∀ {x y : Int}, LeastOr S never x → LeastOr S never y → x ≤ y := by
    intro x y hx hy
    by_cases hlt : y < never
    · exact hx.le y (hy.mem hlt)
    · exact le_trans hx.le_bound (le_of_not_gt hlt)
  exact le_antisymm (hle h h') (hle h' h)

/-- Each hour of the day. -/
def everyHourPeriod : Period :=
  { init with begin_ := 0, absoluteRepeat := 3600000, end_ := 86400000 }

def halfPastTenPeriod : Period :=
  { init with begin_ := 37800000, end_ := 86400000, singleStart := true, letRun := true }

theorem setDom_everyHour :
    init.setDom { absoluteRepeat := some 3600 } = .ok everyHourPeriod := by decide +kernel

theorem setDom_halfPastTen :
    init.setDom { singleStart := some 37800 } = .ok halfPastTenPeriod := by decide +kernel

def everyHour : DayPeriod :=
  ⟨everyHourPeriod, Period.setDom_checked Period.default_init setDom_everyHour⟩

def halfPastTen : DayPeriod :=
  ⟨halfPastTenPeriod, Period.setDom_checked Period.default_init setDom_halfPastTen⟩

/-- On the day 100 there is a start each hour, and one at half past ten. -/
def beside : Configuration where
  atSet := KeySet.empty _
  dateSet := KeySet.ofList _ [⟨100, [everyHour, halfPastTen]⟩]
  weekdaySet := HolidayStarts.noDays
  monthdaySet := HolidayStarts.noMonthdays
  ultimoSet := HolidayStarts.noDays
  months := fun _ => none
  hasMonth := false
  holidays := ⟨[], fun _ => false⟩

theorem beside_configured (h : Configured beside n item) :
    n = 100 ∧ (item = .period everyHour ∨ item = .period halfPastTen) := by
  cases item with
  | instant a => exact absurd h.1 (List.not_mem_nil)
  | period p =>
      have hsets : daysOfSets (HolidayStarts.noDays (D := List DayPeriod)) HolidayStarts.noMonthdays
          HolidayStarts.noDays n = [] := rfl
      obtain ⟨l, hl, hp⟩ := h
      rcases List.mem_append.mp hl with hl | hl
      · obtain ⟨date, hdate, rfl⟩ := List.mem_map.mp hl
        have hday := of_decide_eq_true (List.mem_filter.mp hdate).2
        obtain rfl := List.mem_singleton.mp
          (KeySet.mem_of_mem_ofList (List.mem_of_mem_filter hdate))
        refine ⟨hday.symm, ?_⟩
        rcases List.mem_cons.mp hp with rfl | hp
        · exact Or.inl rfl
        · exact Or.inr (congrArg Item.period (List.mem_singleton.mp hp))
      · replace hl : l ∈ daysOfSets (HolidayStarts.noDays (D := List DayPeriod))
          HolidayStarts.noMonthdays HolidayStarts.noDays n := hl
        rw [hsets] at hl
        cases hl

theorem beside_plainly (n : Int) (p : DayPeriod) (h : Configured beside n (.period p)) :
    Plainly p.1 := by
  obtain ⟨-, h | h⟩ := beside_configured h
  · obtain rfl := Item.period.inj h
    exact ⟨⟨rfl, fun hs => absurd hs Bool.false_ne_true, Or.inl rfl⟩, rfl, Or.inl (by decide)⟩
  · obtain rfl := Item.period.inj h
    exact ⟨⟨rfl, fun _ => ⟨rfl, rfl⟩, Or.inl rfl⟩, rfl, Or.inr rfl⟩

/-- The hourly period of the day, as the order remembers it. -/
def running : Period :=
  { everyHourPeriod with
    begin_ := 100 * day
    absoluteRepeatBegin := 100 * day
    end_ := 101 * day }

theorem running_remembered : Remembered beside "" running :=
  Or.inr ⟨100 * day + 36900000, wssNextAnyStart, by decide, by decide, Or.inl rfl,
    by decide +kernel⟩

/-- At a quarter past ten nothing starts. -/
theorem beside_noStart : 100 * day + 36900000 ∉ AllStarts beside (100 * day + 36900000) := by
  rintro ⟨-, -, n, item, hon, hmem⟩
  obtain ⟨rfl, rfl | rfl⟩ := beside_configured hon
  · obtain ⟨-, k, -, hk⟩ := hmem
    have hk : 100 * day + 36900000 = 100 * day + 0 + k * 3600000 := hk
    omega
  · have hk : 100 * day + 36900000 = 100 * day + 37800000 := hmem
    omega

theorem beside_told :
    (nextStartTime (some (alone (built beside) "")) .utc (100 * day + 36900000) running).map
      Prod.fst = some (100 * day + 39600000) := by decide +kernel

end NextStart
