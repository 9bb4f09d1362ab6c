import SchedulerEngine.ScheduleUseProofs

/-! # The first start

    What `next_any_start` tells is compared with the configured starts: the begins
    of the single starts and of the repeated periods, and the instants of an
    `absolute_repeat`, counted from the begin of its period. -/

namespace AnyStart

open SchedulerTime SchedulePeriod ScheduleInlay ScheduleSearch LeftmostLeast CoveringSchedule
open HolidayShift ScheduleUse

variable {D E : Type} {t n x : Int} {p q : Period} {item : Item}

/-! ## Configurations -/

def mapDays (f : D → E) (s : DaySet D) : DaySet E := ⟨fun k => (s.days k).map f, s.isFilled⟩

def mapMonthWeekdays (f : D → E) (m : MonthWeekdays D) : MonthWeekdays E :=
  ⟨fun k => (m.days k).map f, m.isFilled⟩

def mapMonthdays (f : D → E) (m : MonthdaySet D) : MonthdaySet E :=
  ⟨mapDays f m.daySet, mapMonthWeekdays f m.monthWeekdays, mapMonthWeekdays f m.reverseMonthWeekdays⟩

def mapMonth (f : D → E) (m : Month D) : Month E :=
  ⟨mapDays f m.weekdaySet, mapMonthdays f m.monthdaySet, mapDays f m.ultimoSet⟩

def mapDate (f : D → E) (date : Date D) : Date E := ⟨date.dayNr, f date.day⟩

/-- The inlay with other days. -/
def mapInlay (f : D → E) (i : Inlay D) : Inlay E where
  atSet := i.atSet
  dateSet := ⟨i.dateSet.toList.map (mapDate f), List.pairwise_map.mpr i.dateSet.sorted⟩
  weekdaySet := mapDays f i.weekdaySet
  monthdaySet := mapMonthdays f i.monthdaySet
  ultimoSet := mapDays f i.ultimoSet
  months := fun m => (i.months m).map (mapMonth f)
  hasMonth := i.hasMonth
  holidays := i.holidays

theorem given_map (f : D → E) (isFilled : Bool) (day : Option D) :
    given isFilled (day.map f) = (given isFilled day).map f := by
  cases isFilled with
  | false => rfl
  | true =>
      cases day with
      | none => rfl
      | some d => rfl

theorem daysOfSets_map (f : D → E) (ws : DaySet D) (ms : MonthdaySet D) (us : DaySet D) (n : Int) :
    daysOfSets (mapDays f ws) (mapMonthdays f ms) (mapDays f us) n
      = (daysOfSets ws ms us n).map f := by
  simp only [daysOfSets, MonthdaySet.daysOf, List.map_append, ← given_map]
  rfl

/-- The days that count for a date, with other days. -/
theorem daysOf_map (f : D → E) (i : Inlay D) (n : Int) :
    (mapInlay f i).daysOf n = (i.daysOf n).map f := by
  have hdates : ((i.dateSet.toList.map (mapDate f)).filter fun date => date.dayNr = n).map Date.day
      = ((i.dateSet.toList.filter fun date => date.dayNr = n).map Date.day).map f := by
    rw [List.filter_map, List.map_map, List.map_map]
    rfl
  have hmonth : (mapInlay f i).monthAt (dateOfDay n)
      = (i.monthAt (dateOfDay n)).map (mapMonth f) := by
    rw [Inlay.monthAt, Inlay.monthAt]
    cases hm : i.hasMonth with
    | true => exact if_pos hm
    | false => exact if_neg fun ht => Bool.false_ne_true (hm.symm.trans ht)
  rw [Inlay.daysOf, Inlay.daysOf, hmonth, List.map_append]
  congr 1
  cases i.monthAt (dateOfDay n) with
  | none => exact daysOfSets_map f _ _ _ n
  | some m => exact daysOfSets_map f _ _ _ n

/-- An inlay whose days have their periods in the order in which they were added. -/
abbrev Configuration := Inlay (List DayPeriod)

/-- The inlay that is built: each day is a set. -/
def built (c : Configuration) : Inlay Day := mapInlay (KeySet.ofList _) c

variable {c : Configuration}

/-- The instants and the periods that were configured for the day `n`. -/
def Configured (c : Configuration) (n : Int) : Item → Prop
  | .instant a => a ∈ c.atSet.toList ∧ 0 ≤ a.1 ∧ dayNr a.1 = n
  | .period p => ∃ l ∈ c.daysOf n, p ∈ l

theorem configured_of_onDay (h : OnDay (built c) n item) : Configured c n item := by
  cases item with
  | instant a => exact h
  | period p =>
      obtain ⟨d, hd, hp⟩ := h
      rw [built, daysOf_map] at hd
      obtain ⟨l, hl, rfl⟩ := List.mem_map.mp hd
      exact ⟨l, hl, KeySet.mem_of_mem_ofList hp⟩

/-- The period is of one kind: a single start, repeated, with an
    `absolute_repeat`, or without any start. -/
structure Unmixed (p : Period) : Prop where
  notOnce : p.startOnce = false
  single : p.singleStart = true → p.repeat_ = eternal ∧ p.absoluteRepeat = eternal
  repeated : p.repeat_ = eternal ∨ p.absoluteRepeat = eternal

/-- The starts of an item of the day `n`. -/
def startsOn (n : Int) : Item → Set Int
  | .instant a => {a.1}
  | .period p =>
      if p.1.absoluteRepeat ≠ eternal then
        {x | x < n * day + p.1.end_ ∧
          ∃ k : Int, 0 ≤ k ∧ x = n * day + p.1.begin_ + k * p.1.absoluteRepeat}
      else if p.1.singleStart = true ∨ p.1.repeat_ ≠ eternal then {n * day + p.1.begin_}
      else ∅

/-- The configured starts from `t` on, of the days that begin in the foreseen
    range. -/
def Starts (c : Configuration) (t : Int) : Set Int :=
  {x | t ≤ x ∧ x < never ∧ ∃ n item, n * day < foreseen t ∧ Configured c n item ∧
    x ∈ startsOn n item}

/-! ## The instants of a grid -/

/-- The next instant of the grid lies behind the end of time. -/
def BeyondTime (t b e a : Int) : Prop :=
  t < e ∧ ∃ k : Int, 0 ≤ k ∧ b + k * a < t ∧ never ≤ b + (k + 1) * a

/-- The instants of a grid from `t` on. -/
def Grid (t b e a : Int) : Set Int := {x | t ≤ x ∧ x < e ∧ ∃ k : Int, 0 ≤ k ∧ x = b + k * a}

/-- The parts of the grid around a time. -/
theorem gridNext_of_begin (h0 : 0 < p.absoluteRepeat) (he : p.absoluteRepeat ≠ eternal)
    (hb : p.absoluteRepeatBegin = p.begin_) (hbn : p.begin_ < never) (ht : t < never) :
    ∃ k : Int, 0 ≤ k ∧ p.begin_ + k * p.absoluteRepeat ≤ max t p.begin_ ∧
      max t p.begin_ < p.begin_ + (k + 1) * p.absoluteRepeat ∧
      p.gridNext t = if min (p.begin_ + (k + 1) * p.absoluteRepeat) never
          = min (max t p.begin_ + p.absoluteRepeat) never
        then max t p.begin_ else min (p.begin_ + (k + 1) * p.absoluteRepeat) never := by
  have htime : p.gridTime t = max t p.begin_ := by
    rw [Period.gridTime]
    split <;> omega
  have hnn : 0 ≤ max t p.begin_ - p.begin_ := by omega
  have hmul := Int.mul_ediv_self_le (x := max t p.begin_ - p.begin_) (Int.ne_of_gt h0)
  have hlt := Int.lt_mul_ediv_self_add (x := max t p.begin_ - p.begin_) h0
  rw [Int.mul_comm] at hmul hlt
  refine ⟨(max t p.begin_ - p.begin_) / p.absoluteRepeat,
    Int.ediv_nonneg hnn (le_of_lt h0), by omega, ?_, ?_⟩
  · rw [Int.add_mul, Int.one_mul]
    omega
  · rw [Period.gridNext, htime, hb, Int.tdiv_eq_ediv_of_nonneg hnn,
      add_of_lt (by omega) he, setTime, setTime]

theorem nextRepeated_eq (hr : p.repeat_ = eternal) (he : p.absoluteRepeat ≠ eternal)
    (hend : p.end_ ≤ never) :
    p.nextRepeated t = if p.gridNext t < p.end_ then p.gridNext t else never := by
  have hr' : ¬p.repeat_ ≠ eternal := fun h => h hr
  rw [Period.nextRepeated, Period.nextRepeatedAllowAfterEnd, if_neg hr', if_pos he,
    Period.nextAbsoluteRepeated_eq]
  by_cases hlt : p.gridNext t < p.end_
  · rw [if_pos hlt, if_pos hlt]
  · rw [if_neg hlt, if_neg (not_lt_of_ge hend)]

/-- Behind the last instant before the end of time, the time itself is told. -/
theorem nextRepeated_of_beyond (h0 : 0 < p.absoluteRepeat) (hr : p.repeat_ = eternal)
    (he : p.absoluteRepeat ≠ eternal) (hb : p.absoluteRepeatBegin = p.begin_)
    (hend : p.end_ ≤ never) (ht : t < never)
    (hbeyond : BeyondTime t p.begin_ p.end_ p.absoluteRepeat) : p.nextRepeated t = t := by
  obtain ⟨hte, j, hj, hjt, hjn⟩ := hbeyond
  have hja : 0 ≤ j * p.absoluteRepeat := Int.mul_nonneg hj (le_of_lt h0)
  obtain ⟨k, hk, hk1, hk2, hgrid⟩ := gridNext_of_begin h0 he hb (by omega) ht
  rw [max_eq_left (by omega)] at hk1 hk2 hgrid
  -- the time lies between the same instants
  have hjk : j = k := by
    rw [Int.add_mul, Int.one_mul] at hjn hk2
    have h1 : j * p.absoluteRepeat < (k + 1) * p.absoluteRepeat := by
      rw [Int.add_mul, Int.one_mul]
      omega
    have h2 : k * p.absoluteRepeat < (j + 1) * p.absoluteRepeat := by
      rw [Int.add_mul, Int.one_mul]
      omega
    have := Int.lt_of_mul_lt_mul_right h1 (le_of_lt h0)
    have := Int.lt_of_mul_lt_mul_right h2 (le_of_lt h0)
    omega
  subst hjk
  have hmin : min (p.begin_ + (j + 1) * p.absoluteRepeat) never
      = min (t + p.absoluteRepeat) never := by
    rw [Int.add_mul, Int.one_mul] at hjn ⊢
    omega
  rw [if_pos hmin] at hgrid
  rw [nextRepeated_eq hr he hend, hgrid, if_pos hte]

/-- Else it is the next instant of the grid. -/
theorem nextRepeated_leastOr (h0 : 0 < p.absoluteRepeat) (hr : p.repeat_ = eternal)
    (he : p.absoluteRepeat ≠ eternal) (hb : p.absoluteRepeatBegin = p.begin_)
    (hbn : p.begin_ < never) (hend : p.end_ ≤ never) (ht : t < never)
    (hbeyond : ¬BeyondTime t p.begin_ p.end_ p.absoluteRepeat) :
    LeastOr (Grid t p.begin_ p.end_ p.absoluteRepeat) never (p.nextRepeated t) := by
  obtain ⟨k, hk, hk1, hk2, hgrid⟩ := gridNext_of_begin h0 he hb hbn ht
  have hexp : (k + 1) * p.absoluteRepeat = k * p.absoluteRepeat + p.absoluteRepeat := by
    rw [Int.add_mul, Int.one_mul]
  -- the instants from `t` on are those from the `k`-th, or from the next one on
  have hstep : ∀ j m : Int, p.begin_ + m * p.absoluteRepeat < p.begin_ + j * p.absoluteRepeat →
      p.begin_ + (m + 1) * p.absoluteRepeat ≤ p.begin_ + j * p.absoluteRepeat := by
    intro j m hlt
    have h1 := Int.lt_of_mul_lt_mul_right (Int.lt_of_add_lt_add_left hlt) (le_of_lt h0)
    exact Int.add_le_add_left (Int.mul_le_mul_of_nonneg_right (by omega) (le_of_lt h0)) _
  have hge : ∀ y ∈ Grid t p.begin_ p.end_ p.absoluteRepeat, max t p.begin_ ≤ y := by
    rintro y ⟨hty, -, j, hj, rfl⟩
    have := Int.mul_nonneg hj (le_of_lt h0)
    omega
  rw [nextRepeated_eq hr he hend]
  by_cases hon : max t p.begin_ = p.begin_ + k * p.absoluteRepeat
  · have hmin : min (p.begin_ + (k + 1) * p.absoluteRepeat) never
        = min (max t p.begin_ + p.absoluteRepeat) never := by omega
    rw [if_pos hmin] at hgrid
    rw [hgrid]
    by_cases hlt : max t p.begin_ < p.end_
    · rw [if_pos hlt]
      exact leastOr_of_mem ⟨le_max_left _ _, hlt, k, hk, hon⟩ hge (by omega)
    · rw [if_neg hlt]
      refine leastOr_bound ?_
      intro y hy
      have := hge y hy
      have := hy.2.1
      omega
  · have hoff : p.begin_ + k * p.absoluteRepeat < max t p.begin_ := by omega
    have hka := Int.mul_nonneg hk (le_of_lt h0)
    have hnext : ∀ y ∈ Grid t p.begin_ p.end_ p.absoluteRepeat,
        p.begin_ + (k + 1) * p.absoluteRepeat ≤ y := by
      intro y hy
      have hmax := hge y hy
      obtain ⟨-, -, j, -, rfl⟩ := hy
      exact hstep j k (by omega)
    by_cases hnever : p.begin_ + (k + 1) * p.absoluteRepeat < never
    · have hmin : ¬min (p.begin_ + (k + 1) * p.absoluteRepeat) never
          = min (max t p.begin_ + p.absoluteRepeat) never := by omega
      rw [if_neg hmin, min_eq_left (le_of_lt hnever)] at hgrid
      rw [hgrid]
      by_cases hlt : p.begin_ + (k + 1) * p.absoluteRepeat < p.end_
      · rw [if_pos hlt]
        exact leastOr_of_mem ⟨by omega, hlt, k + 1, by omega, rfl⟩ hnext (le_of_lt hnever)
      · rw [if_neg hlt]
        refine leastOr_bound ?_
        intro y hy
        have := hnext y hy
        have := hy.2.1
        omega
    · have hmin : min (p.begin_ + (k + 1) * p.absoluteRepeat) never
          = min (max t p.begin_ + p.absoluteRepeat) never := by omega
      rw [if_pos hmin] at hgrid
      have hlt : ¬max t p.begin_ < p.end_ := by
        intro hlt
        exact hbeyond ⟨by omega, k, hk, by omega, by omega⟩
      rw [hgrid, if_neg hlt]
      refine leastOr_bound ?_
      intro y hy
      have := hnext y hy
      omega

/-! ## What is told for the item that leads -/

/-- The item has a grid of instants. -/
def HasGrid : Item → Prop
  | .instant _ => False
  | .period p => p.1.absoluteRepeat ≠ eternal

/-- An item of the day `n` whose next instant lies behind the end of time. -/
def Beyond (t n : Int) : Item → Prop
  | .instant _ => False
  | .period p => p.1.absoluteRepeat ≠ eternal ∧
      BeyondTime t (n * day + p.1.begin_) (min (n * day + p.1.end_) never) p.1.absoluteRepeat

theorem addTime_eq (h0 : 0 ≤ n) (hn : n ≤ 24855) (p : DayPeriod)
    (hlt : n * day + p.1.begin_ < never) :
    periodOn n (.period p)
      = { p.1 with begin_ := n * day + p.1.begin_, end_ := min (n * day + p.1.end_) never } := by
  have hne : n * day ≠ eternal := by
    rw [day_eq, eternal]
    omega
  have hempty : p.1.empty = false := decide_eq_false (ne_of_lt p.2.begin_lt_never)
  have hb : add p.1.begin_ (n * day) = n * day + p.1.begin_ := by
    rw [add_of_lt p.2.begin_lt_never hne, setTime]
    omega
  have he : add p.1.end_ (n * day) = min (n * day + p.1.end_) never := by
    rw [add_of_lt p.2.end_lt_never hne, setTime, Int.add_comm]
  rw [periodOn, onDay, hempty, if_neg Bool.false_ne_true, Period.addTime, ofDayNr_eq h0 hn, hb, he]

/-- Without a grid, the begin is told. -/
theorem startOf_of_not_grid (path : String) (h0 : 0 ≤ n) (hn : n ≤ 24855)
    (hon : Configured c n item) (hlt : n * day + item.begin_ < never) (hg : ¬HasGrid item)
    (hcoming : item.isComing x wssNextAnyStart = true)
    (hkind : ∀ p, item = .period p → Unmixed p.1) :
    startOf t (told path (periodOn n item)) = n * day + item.begin_ ∧
      startsOn n item = {n * day + item.begin_} := by
  cases item with
  | instant a =>
      obtain ⟨-, ha0, hday⟩ := hon
      have h1 := (dayNr_timeOfDay ha0 a.2).1
      rw [hday] at h1
      show a.1 = n * day + timeOfDay a.1 ∧ ({a.1} : Set Int) = {n * day + timeOfDay a.1}
      rw [h1]
      exact ⟨rfl, rfl⟩
  | period p =>
      have hab : p.1.absoluteRepeat = eternal := by
        by_contra hne
        exact hg hne
      have hb0 := p.2.begin_nonneg
      constructor
      · rw [addTime_eq h0 hn p hlt, startOf, told]
        split
        · rw [if_neg (not_not_intro hab)]
          rfl
        · rw [if_neg (not_not_intro hab)]
          have : 0 ≤ n * day + p.1.begin_ := by
            rw [day_eq]
            omega
          exact max_eq_left this
      · have hstart : p.1.singleStart = true ∨ p.1.repeat_ ≠ eternal := by
          -- a period without starts is not coming
          by_contra hcon
          obtain ⟨hs, hr⟩ := not_or.mp hcon
          have hs := Bool.eq_false_iff.mpr hs
          have honce := (hkind p rfl).notOnce
          have hrep : p.1.hasRepeatOrOnce = false := by
            rw [Period.hasRepeatOrOnce, honce, Bool.or_false]
            exact decide_eq_false hr
          rw [Item.isComing, Period.isComing, hs, hrep, hab] at hcoming
          simp [has, wssNextAnyStart, wssNextPeriod, wssNextBegin] at hcoming
        rw [startsOn, if_neg (not_not_intro hab), if_pos hstart]
        rfl

/-- What is told for a period that is no single start. -/
theorem told_of_grid (path : String) (h0 : 0 ≤ n) (hn : n ≤ 24855) {p : DayPeriod}
    (hlt : n * day + p.1.begin_ < never) (hs : ¬p.1.singleStart = true) :
    told path (periodOn n (.period p)) = { p.1 with
      schedulePath := path
      absoluteRepeatBegin := n * day + p.1.begin_
      begin_ := n * day + p.1.begin_
      end_ := min (n * day + p.1.end_) never } := by
  have hb0 := p.2.begin_nonneg
  have hB0 : 0 ≤ n * day + p.1.begin_ := by
    rw [day_eq]
    omega
  rw [addTime_eq h0 hn p hlt, told, if_neg hs]
  simp only [max_eq_left hB0, min_assoc, min_self]

/-- With a grid, the next instant is told. -/
theorem startOf_of_grid (path : String) (h0 : 0 ≤ n) (hn : n ≤ 24855) (ht : t < never)
    (hlt : n * day + item.begin_ < never) (hg : HasGrid item)
    (hkind : ∀ p, item = .period p → Unmixed p.1) :
    (Beyond t n item → startOf t (told path (periodOn n item)) = t) ∧
      (¬Beyond t n item → LeastOr {x | t ≤ x ∧ x < never ∧ x ∈ startsOn n item} never
        (startOf t (told path (periodOn n item)))) := by
  cases item with
  | instant a => exact False.elim hg
  | period p =>
      have hne : p.1.absoluteRepeat ≠ eternal := hg
      have hkind := hkind p rfl
      have hr := hkind.repeated.resolve_right hne
      have hlt : n * day + p.1.begin_ < never := hlt
      have htold := told_of_grid path h0 hn hlt (fun hs => hne (hkind.single hs).2)
      rw [htold, startOf, if_pos hne]
      constructor
      · rintro ⟨-, hbeyond⟩
        exact nextRepeated_of_beyond p.2.absoluteRepeat_pos hr hne rfl (min_le_right _ _) ht hbeyond
      · intro hnot
        have hleast := nextRepeated_leastOr (p := { p.1 with
          schedulePath := path
          absoluteRepeatBegin := n * day + p.1.begin_
          begin_ := n * day + p.1.begin_
          end_ := min (n * day + p.1.end_) never }) (t := t) p.2.absoluteRepeat_pos hr hne rfl
          hlt (min_le_right _ _) ht fun hb => hnot ⟨hne, hb⟩
        refine hleast.congr ?_
        intro y hy
        rw [Grid, startsOn, if_pos hne]
        constructor
        · rintro ⟨hty, hye, hk⟩
          have hye : y < min (n * day + p.1.end_) never := hye
          exact ⟨hty, hy, by omega, hk⟩
        · rintro ⟨hty, -, hye, hk⟩
          exact ⟨hty, lt_min hye hy, hk⟩

/-! ## The first start -/

/-- `next_any_start` tells the first configured start, or `never` if there is none. -/
def TellsFirstStart (c : Configuration) (path : String) (t : Int) : Prop :=
  ∃ x, nextAnyStart (alone (built c) path) .utc t = some x ∧ LeastOr (Starts c t) never x

/-- No start comes before the next one of the item. -/
def Unbeaten (c : Configuration) (t n : Int) (item : Item) : Prop :=
  (∃ x ∈ startsOn n item, t ≤ x ∧ x < never ∧ ∀ y ∈ Starts c t, x ≤ y) ∨
  (HasGrid item ∧ ¬Beyond t n item ∧ Starts c t = ∅) ∨
  (Beyond t n item ∧ t ∈ Starts c t)

theorem mem_starts_of_leads (h : Leads (built c) t n item) (htx : t ≤ x) (hx : x < never)
    (hmem : x ∈ startsOn n item) : x ∈ Starts c t :=
  ⟨htx, hx, n, item, lt_of_le_of_lt (le_max_right _ _) h.foreseen,
    configured_of_onDay h.onDay, hmem⟩

theorem hasGrid_of_beyond (h : Beyond t n item) : HasGrid item := by
  cases item with
  | instant a => exact h
  | period p => exact h.1

theorem leastOr_never_iff : LeastOr (Starts c t) never never ↔ Starts c t = ∅ := by
  constructor
  · intro h
    refine Set.eq_empty_iff_forall_notMem.mpr ?_
    intro y hy
    exact absurd hy.2.1 (not_lt_of_ge (h.le y hy))
  · intro h
    rw [h]
    exact leastOr_bound fun y hy => absurd hy (Set.notMem_empty y)

/-- What is told for the item that leads is the first start if and only if the
    item is unbeaten. -/
theorem leastOr_iff_unbeaten (path : String) (h : Leads (built c) t n item) (ht : 0 ≤ t)
    (htn : t < never) (hkind : ∀ p, item = .period p → Unmixed p.1) :
    LeastOr (Starts c t) never (startOf t (told path (periodOn n item))) ↔ Unbeaten c t n item := by
  have hn0 : 0 ≤ n := le_trans (dayNr_le ht (le_of_lt htn)).1 h.day_le
  have hmax : max t (n * day) < never :=
    lt_of_lt_of_le h.foreseen (le_foreseen (le_refl t) (le_of_lt htn)).2.1
  have hn : n ≤ 24855 := by
    have := (dayNr_le (t := n * day) (by rw [day_eq]; omega) (by omega)).2
    rwa [(dayNr_mul hn0 (by omega)).1] at this
  have hstarts : ∀ x, t ≤ x → x < never → x ∈ startsOn n item → x ∈ Starts c t :=
    fun x htx hx hmem => mem_starts_of_leads h htx hx hmem
  by_cases hg : HasGrid item
  · obtain ⟨hbeyond, hnot⟩ := startOf_of_grid (t := t) path hn0 hn htn h.lt_never hg hkind
    by_cases hb : Beyond t n item
    · rw [hbeyond hb]
      constructor
      · intro hleast
        exact Or.inr (Or.inr ⟨hb, hleast.mem htn⟩)
      · rintro (⟨x, hx, htx, hxn, -⟩ | ⟨-, hnb, -⟩ | ⟨-, hmem⟩)
        · -- no instant of the grid is left
          cases item with
          | instant a => exact False.elim hg
          | period p =>
              obtain ⟨hne, -, k, hk, hkt, hkn⟩ := hb
              rw [startsOn, if_pos hne] at hx
              obtain ⟨-, j, hj, rfl⟩ := hx
              have hlt : k * p.1.absoluteRepeat < j * p.1.absoluteRepeat := by omega
              have hkj := Int.lt_of_mul_lt_mul_right hlt (le_of_lt p.2.absoluteRepeat_pos)
              have := Int.mul_le_mul_of_nonneg_right (Int.add_one_le_of_lt hkj)
                (le_of_lt p.2.absoluteRepeat_pos)
              omega
        · exact absurd hb hnb
        · exact leastOr_of_mem hmem (fun y hy => hy.1) (le_of_lt htn)
    · have hleast := hnot hb
      constructor
      · intro hall
        by_cases hlt : startOf t (told path (periodOn n item)) < never
        · obtain ⟨h1, h2, h3⟩ := hleast.mem hlt
          exact Or.inl ⟨_, h3, h1, h2, hall.le⟩
        · have heq := le_antisymm hall.le_bound (le_of_not_gt hlt)
          rw [heq] at hall
          exact Or.inr (Or.inl ⟨hg, hb, leastOr_never_iff.mp hall⟩)
      · rintro (⟨x, hx, htx, hxn, hle⟩ | ⟨-, -, hnone⟩ | ⟨hb', -⟩)
        · have hlex := hleast.le x ⟨htx, hxn, hx⟩
          obtain ⟨h1, h2, h3⟩ := hleast.mem (lt_of_le_of_lt hlex hxn)
          refine leastOr_of_mem (hstarts _ h1 h2 h3) ?_ hleast.le_bound
          exact fun y hy => le_trans hlex (hle y hy)
        · by_cases hlt : startOf t (told path (periodOn n item)) < never
          · obtain ⟨h1, h2, h3⟩ := hleast.mem hlt
            have hmem := hstarts _ h1 h2 h3
            rw [hnone] at hmem
            exact absurd hmem (Set.notMem_empty _)
          · rw [le_antisymm hleast.le_bound (le_of_not_gt hlt)]
            exact leastOr_never_iff.mpr hnone
        · exact absurd hb' hb
  · obtain ⟨heq, hset⟩ := startOf_of_not_grid (t := t) path hn0 hn (configured_of_onDay h.onDay)
      h.lt_never hg h.coming hkind
    have hlt := h.lt_never
    rw [heq]
    constructor
    · intro hleast
      have hmem := hleast.mem hlt
      refine Or.inl ⟨n * day + item.begin_, ?_, hmem.1, hlt, hleast.le⟩
      rw [hset]
      exact rfl
    · rintro (⟨x, hx, htx, hxn, hle⟩ | ⟨hg', -⟩ | ⟨hb, -⟩)
      · rw [hset] at hx
        have hx : x = n * day + item.begin_ := hx
        subst hx
        refine leastOr_of_mem (hstarts _ htx hxn ?_) hle (le_of_lt hxn)
        rw [hset]
        exact rfl
      · exact absurd hg' hg
      · exact absurd (hasGrid_of_beyond hb) hg

/-- Each hour from 00:30 on, until 02:00. -/
def hourlyElement : PeriodElement :=
  { begin_ := some 1800, absoluteRepeat := some 3600, end_ := some 7200 }

def hourlyPeriod : Period :=
  { init with begin_ := 1800000, absoluteRepeat := 3600000, end_ := 7200000 }

theorem setDom_hourly : init.setDom hourlyElement = .ok hourlyPeriod := by decide +kernel

def hourly : DayPeriod := ⟨hourlyPeriod, Period.setDom_checked Period.default_init setDom_hourly⟩

/-- The period is configured for the days 100 and 101. -/
def halfPast : Configuration where
  atSet := KeySet.empty _
  dateSet := KeySet.ofList _ [⟨100, [hourly]⟩, ⟨101, [hourly]⟩]
  weekdaySet := HolidayStarts.noDays
  monthdaySet := HolidayStarts.noMonthdays
  ultimoSet := HolidayStarts.noDays
  months := fun _ => none
  hasMonth := false
  holidays := ⟨[], fun _ => false⟩

theorem halfPast_kinds (n : Int) (p : DayPeriod) (h : Configured halfPast n (.period p)) :
    Unmixed p.1 := by
  have hsets : daysOfSets (HolidayStarts.noDays (D := List DayPeriod)) HolidayStarts.noMonthdays
      HolidayStarts.noDays n = [] := rfl
  obtain ⟨l, hl, hp⟩ := h
  rcases List.mem_append.mp hl with hl | hl
  · obtain ⟨date, hdate, rfl⟩ := List.mem_map.mp hl
    have hday : date.day = [hourly] := by
      rcases List.mem_cons.mp (KeySet.mem_of_mem_ofList (List.mem_of_mem_filter hdate)) with
        rfl | hdate
      · rfl
      · rw [List.mem_singleton.mp hdate]
    rw [hday] at hp
    rw [List.mem_singleton.mp hp]
    exact ⟨rfl, fun h => absurd h Bool.false_ne_true, Or.inl rfl⟩
  · replace hl : l ∈ daysOfSets (HolidayStarts.noDays (D := List DayPeriod))
      HolidayStarts.noMonthdays HolidayStarts.noDays n := hl
    rw [hsets] at hl
    cases hl

theorem halfPast_told :
    nextAnyStart (alone (built halfPast) "") .utc (100 * day + 4200000)
      = some (101 * day + 1800000) := by decide +kernel

end AnyStart
