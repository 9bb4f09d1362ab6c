import SchedulerEngine.ScheduleInlayProofs

/-! # What the search of a schedule finds

    The period found for a day begins with the least of the instants that are
    configured for the day and not over yet; the search over the days finds the
    least instant in the foreseen range. -/

namespace ScheduleSearch

open SchedulerTime SchedulePeriod LeftmostLeast ScheduleInlay

variable {D : Type} {t s n : Int} {w : WithSingleStart} {p q acc : Period} {i : Inlay Day}

/-! ## One day -/

theorem begin_nextPeriod_le (d : Day) : (d.nextPeriod t w).begin_ ≤ never := by
  rw [Day.nextPeriod]
  split
  · rename_i p _
    exact le_of_lt p.2.begin_lt_never
  · exact le_refl _

theorem begin_onDay :
    (onDay n p).begin_ = if p.begin_ = never then never else add p.begin_ (ofDayNr n) := by
  rw [onDay, Period.empty]
  by_cases h : p.begin_ = never
  · rw [if_pos h, if_pos (decide_eq_true h)]
    rfl
  · rw [if_neg h, if_neg (fun hd => h (of_decide_eq_true hd))]
    rfl

theorem begin_onDay_le : (onDay n p).begin_ ≤ never := by
  rw [begin_onDay]
  split
  · exact le_refl _
  · exact add_le

/-- Moving periods to a day keeps their order, up to `never`. -/
theorem monotoneBelow_onDay {l : List Period} (hl : ∀ p ∈ l, p.begin_ ≤ never) :
    MonotoneBelow Period.begin_ Period.begin_ never (onDay n) l := by
  intro a ha b hb
  have ha := hl a ha
  have hb := hl b hb
  have hale := begin_onDay_le (n := n) (p := a)
  by_cases hbn : b.begin_ = never
  · have hfb : (onDay n b).begin_ = never := by rw [begin_onDay, if_pos hbn]
    omega
  · by_cases han : a.begin_ = never
    · have hfa : (onDay n a).begin_ = never := by rw [begin_onDay, if_pos han]
      omega
    · rw [begin_onDay, begin_onDay, if_neg hbn, if_neg han]
      by_cases hd : ofDayNr n = eternal
      · rw [add, add, if_pos (Or.inr hd), if_pos (Or.inr hd)]
        omega
      · rw [add_of_lt (by omega) hd, add_of_lt (by omega) hd, setTime, setTime]
        omega


/-- The next period of a day, moved to that day. -/
def ofDay (n tod : Int) (w : WithSingleStart) (d : Day) : Period := onDay n (d.nextPeriod tod w)

/-- A period that is moved to a day after the choice, or before. -/
theorem pick_onDay_least {l : List Period} (hl : ∀ p ∈ l, p.begin_ ≤ never)
    (hacc : acc.begin_ ≤ never) :
    pick Period.begin_ acc (onDay n (least Period.begin_ init l))
      = least Period.begin_ acc (l.map (onDay n)) := by
  have hinit : onDay n init = init := rfl
  rw [pick_map_least (monotoneBelow_onDay ?_) hacc, hinit]
  · congr 1
    exact pick_of_le hacc
  · intro p hp
    rcases List.mem_cons.mp hp with rfl | hp
    · exact le_refl _
    · exact hl p hp

theorem weekdayOfDayNumber_lt (n : Int) : weekdayOfDayNumber n < 7 := by
  rw [weekdayOfDayNumber]
  omega

theorem least_nextOfWeekday (s : DaySet Day) (hacc : acc.begin_ ≤ never) :
    (if s.isFilled then pick Period.begin_ acc (s.nextOfWeekday t w) else acc)
      = least Period.begin_ acc ((given s.isFilled
        (s.days (weekdayOfDayNumber (dayNr t)))).map (ofDay (dayNr t) (timeOfDay t) w)) := by
  rw [DaySet.nextOfWeekday, Nat.mod_eq_of_lt (weekdayOfDayNumber_lt _), given]
  cases s.isFilled with
  | false => rfl
  | true =>
      cases s.days (weekdayOfDayNumber (dayNr t)) with
      | none => exact pick_of_le hacc
      | some d => rfl

theorem least_nextOfUltimo (s : DaySet Day) (hacc : acc.begin_ ≤ never) :
    (if s.isFilled then pick Period.begin_ acc (s.nextOfUltimo t w) else acc)
      = least Period.begin_ acc ((given s.isFilled
        (s.days (lastDayOfMonth (dateOf t) - (dateOf t).day))).map
          (ofDay (dayNr t) (timeOfDay t) w)) := by
  rw [DaySet.nextOfUltimo, given]
  cases s.isFilled with
  | false => rfl
  | true =>
      cases s.days (lastDayOfMonth (dateOf t) - (dateOf t).day) with
      | none => exact pick_of_le hacc
      | some d => rfl

theorem nextOf_eq (isFilled : Bool) (day : Option Day) :
    nextOf isFilled day t w p
      = least Period.begin_ p ((given isFilled day).map fun d => d.nextPeriod t w) := by
  cases isFilled with
  | false => rfl
  | true =>
      cases day with
      | none => rfl
      | some d => rfl

theorem least_nextOfMonthday (m : MonthdaySet Day) (hacc : acc.begin_ ≤ never) :
    (if m.isFilled then pick Period.begin_ acc (m.next t w) else acc)
      = least Period.begin_ acc ((m.daysOf (dateOf t) (weekdayOfDayNumber (dayNr t))).map
          (ofDay (dayNr t) (timeOfDay t) w)) := by
  cases hf : m.isFilled with
  | false =>
      rw [MonthdaySet.isFilled, Bool.or_eq_false_iff, Bool.or_eq_false_iff] at hf
      rw [MonthdaySet.daysOf, hf.1.1, hf.1.2, hf.2]
      rfl
  | true =>
      rw [if_pos rfl, MonthdaySet.next, if_pos hf]
      simp only [nextOf_eq, ← least_append, ← List.map_append]
      rw [pick_onDay_least ?_ hacc, List.map_map, ← MonthdaySet.daysOf]
      · rfl
      · intro p hp
        obtain ⟨d, -, rfl⟩ := List.mem_map.mp hp
        exact begin_nextPeriod_le d

/-- A weekday set, a monthday set and an ultimo set, one after the other. -/
theorem least_nextOfSets (ws : DaySet Day) (ms : MonthdaySet Day) (us : DaySet Day)
    (hacc : acc.begin_ ≤ never) (h : 1000 ≤ t) (ht : t ≤ never) :
    (let result := if ws.isFilled then pick Period.begin_ acc (ws.nextOfWeekday t w) else acc
     let result := if ms.isFilled then pick Period.begin_ result (ms.next t w) else result
     if us.isFilled then pick Period.begin_ result (us.nextOfUltimo t w) else result)
      = least Period.begin_ acc
          ((daysOfSets ws ms us (dayNr t)).map (ofDay (dayNr t) (timeOfDay t) w)) := by
  have hle : (least Period.begin_ acc ((given ws.isFilled
      (ws.days (weekdayOfDayNumber (dayNr t)))).map
        (ofDay (dayNr t) (timeOfDay t) w))).begin_ ≤ never := le_trans key_least_le_init hacc
  simp only [least_nextOfWeekday ws hacc]
  rw [least_nextOfMonthday ms hle, ← least_append,
    least_nextOfUltimo us (le_trans key_least_le_init hacc), ← least_append, ← List.map_append,
    ← List.map_append, dateOf_eq h ht, ← daysOfSets]

/-- The dates stand in the order of their days, and each day once. -/
theorem pick_nextOfDates (l : List (Date Day)) (hl : l.Pairwise fun a b => a.dayNr < b.dayNr)
    (hacc : acc.begin_ ≤ never) :
    pick Period.begin_ acc (nextOfDates t w l)
      = least Period.begin_ acc (((l.filter fun date => date.dayNr = dayNr t).map
          Date.day).map (ofDay (dayNr t) (timeOfDay t) w)) := by
  induction l with
  | nil => exact pick_of_le hacc
  | cons date l ih =>
      obtain ⟨hd, hl⟩ := List.pairwise_cons.mp hl
      rw [nextOfDates]
      by_cases hle : dayNr t ≤ date.dayNr
      · have hrest : l.filter (fun date => date.dayNr = dayNr t) = [] := by
          refine List.filter_eq_nil_iff.mpr ?_
          intro b hb heq
          have := hd b hb
          have := of_decide_eq_true heq
          omega
        rw [if_pos hle]
        by_cases heq : date.dayNr = dayNr t
        · simp only [if_pos heq, List.filter_cons, decide_eq_true heq, if_true, hrest]
          rw [heq]
          rfl
        · simp only [if_neg heq, List.filter_cons, decide_eq_false heq, Bool.false_eq_true,
            if_false, hrest]
          exact pick_of_le hacc
      · have hne : ¬date.dayNr = dayNr t := by omega
        simp only [if_neg hle, List.filter_cons, decide_eq_false hne, Bool.false_eq_true, if_false]
        exact ih hl

/-- The period found for a day is the first of the least of those of its days. -/
theorem nextPeriodOfSameDay_eq (h : 1000 ≤ t) (ht : t ≤ never) :
    i.nextPeriodOfSameDay t w
      = least Period.begin_ (pick Period.begin_ init (AtSet.next i.atSet t w))
          ((i.daysOf (dayNr t)).map (ofDay (dayNr t) (timeOfDay t) w)) := by
  have hat : (if i.atSet.toList.isEmpty then init
      else pick Period.begin_ init (AtSet.next i.atSet t w))
        = pick Period.begin_ init (AtSet.next i.atSet t w) := by
    cases hl : i.atSet.toList with
    | cons a l => rfl
    | nil =>
        rw [AtSet.next, hl]
        cases has w (wssNextAnyStart ||| wssNextSingleStart) with
        | true => rfl
        | false => rfl
  have hle : (pick Period.begin_ init (AtSet.next i.atSet t w)).begin_ ≤ never :=
    key_pick_le_left
  have hdates : (if i.dateSet.toList.isEmpty then
        pick Period.begin_ init (AtSet.next i.atSet t w)
      else pick Period.begin_ (pick Period.begin_ init (AtSet.next i.atSet t w))
        (nextOfDates t w i.dateSet.toList))
        = least Period.begin_ (pick Period.begin_ init (AtSet.next i.atSet t w))
          (((i.dateSet.toList.filter fun date => date.dayNr = dayNr t).map
            Date.day).map (ofDay (dayNr t) (timeOfDay t) w)) := by
    rw [← pick_nextOfDates i.dateSet.toList i.dateSet.sorted hle]
    cases hl : i.dateSet.toList with
    | cons a l => rfl
    | nil => exact (pick_of_le hle).symm
  rw [Inlay.nextPeriodOfSameDay, Inlay.daysOf]
  simp only [hat, hdates, List.map_append, least_append, dateOf_eq h ht]
  have hle' : (least Period.begin_ (pick Period.begin_ init (AtSet.next i.atSet t w))
      (((i.dateSet.toList.filter fun date => date.dayNr = dayNr t).map
        Date.day).map (ofDay (dayNr t) (timeOfDay t) w))).begin_ ≤ never :=
    le_trans key_least_le_init hle
  cases i.monthAt (dateOfDay (dayNr t)) with
  | some m =>
      have hm : m.next t w = least Period.begin_ init
          ((daysOfSets m.weekdaySet m.monthdaySet m.ultimoSet (dayNr t)).map
            (ofDay (dayNr t) (timeOfDay t) w)) :=
        least_nextOfSets _ _ _ (le_refl _) h ht
      show pick Period.begin_ _ (m.next t w) = _
      rw [hm, pick_least hle']
  | none => exact least_nextOfSets _ _ _ hle' h ht

/-! ## Instants and periods of a day -/

/-- What can be found on a day: an `<at>`, or a period. -/
inductive Item where
  | instant (a : AtTime)
  | period (p : DayPeriod)

/-- The time of day at which it begins. -/
def Item.begin_ : Item → Int
  | .instant a => timeOfDay a.1
  | .period p => p.1.begin_

def Item.isComing (tod : Int) (w : WithSingleStart) : Item → Bool
  | .instant a => has w (wssNextAnyStart ||| wssNextSingleStart) && tod ≤ timeOfDay a.1
  | .period p => p.1.isComing tod w

/-- The instants and the periods that are configured for the day `n`. -/
def OnDay (i : Inlay Day) (n : Int) : Item → Prop
  | .instant a => a ∈ i.atSet.toList ∧ 0 ≤ a.1 ∧ dayNr a.1 = n
  | .period p => ∃ d ∈ i.daysOf n, p ∈ d.toList

/-- The begins of what is coming on the day of `t`. -/
def Found (i : Inlay Day) (t : Int) (w : WithSingleStart) : Set Int :=
  {x | ∃ item, OnDay i (dayNr t) item ∧ item.isComing (timeOfDay t) w = true ∧
    x = dayNr t * day + item.begin_}

theorem nextOfAts_leastOr (l : List AtTime) (hl : l.Pairwise fun a b => a.1 < b.1)
    (h0 : 0 ≤ t) :
    LeastOr {x | ∃ a ∈ l, t ≤ a.1 ∧ dayNr a.1 = dayNr t ∧ x = a.1} never
      (nextOfAts t l).begin_ := by
  induction l with
  | nil =>
      refine leastOr_bound ?_
      rintro y ⟨a, ha, -⟩
      cases ha
  | cons a l ih =>
      obtain ⟨hal, hl⟩ := List.pairwise_cons.mp hl
      rw [nextOfAts]
      by_cases hta : t ≤ a.1
      · rw [if_pos hta]
        by_cases hday : dayNr a.1 = dayNr t
        · rw [if_pos hday]
          refine leastOr_of_mem ⟨a, List.mem_cons_self, hta, hday, rfl⟩ ?_ a.2
          rintro y ⟨b, hb, -, -, rfl⟩
          rcases List.mem_cons.mp hb with rfl | hb
          · exact le_refl _
          · exact le_of_lt (hal b hb)
        · -- the later ones are not on that day either
          rw [if_neg hday]
          refine leastOr_bound ?_
          rintro y ⟨b, hb, -, hdb, -⟩
          rcases List.mem_cons.mp hb with rfl | hb
          · exact absurd hdb hday
          · have h1 := dayNr_mono h0 hta a.2
            have h2 := dayNr_mono (le_trans h0 hta) (le_of_lt (hal b hb)) b.2
            omega
      · rw [if_neg hta]
        refine (ih hl).congr ?_
        intro y _
        constructor
        · rintro ⟨b, hb, hy⟩
          exact ⟨b, List.mem_cons_of_mem _ hb, hy⟩
        · rintro ⟨b, hb, hy⟩
          rcases List.mem_cons.mp hb with rfl | hb
          · exact absurd hy.1 hta
          · exact ⟨b, hb, hy⟩

/-- On a day of its own an instant is not over if its time of day is not. -/
theorem le_iff_timeOfDay_le {a : Int} (h0 : 0 ≤ t) (ht : t ≤ never) (ha0 : 0 ≤ a)
    (ha : a ≤ never) (hday : dayNr a = dayNr t) : t ≤ a ↔ timeOfDay t ≤ timeOfDay a := by
  have h1 := (dayNr_timeOfDay h0 ht).1
  have h2 := (dayNr_timeOfDay ha0 ha).1
  rw [hday] at h2
  omega

theorem atSet_leastOr (s : AtSet) (h0 : 0 ≤ t) (ht : t ≤ never) :
    LeastOr {x | ∃ a ∈ s.toList, 0 ≤ a.1 ∧ dayNr a.1 = dayNr t ∧
        (Item.instant a).isComing (timeOfDay t) w = true ∧
        x = dayNr t * day + (Item.instant a).begin_} never
      (pick Period.begin_ init (AtSet.next s t w)).begin_ := by
  have hparts : ∀ a ∈ s.toList, 0 ≤ a.1 → dayNr a.1 = dayNr t →
      dayNr t * day + timeOfDay a.1 = a.1 := by
    intro a _ ha0 hday
    rw [← hday]
    exact (dayNr_timeOfDay ha0 a.2).1
  rw [AtSet.next]
  cases hw : has w (wssNextAnyStart ||| wssNextSingleStart) with
  | false =>
      refine leastOr_bound ?_
      rintro y ⟨a, -, -, -, hc, -⟩
      rw [Item.isComing, hw, Bool.false_and] at hc
      cases hc
  | true =>
      have hempty : LeastOr (∅ : Set Int) never init.begin_ := leastOr_bound (by rintro y ⟨⟩)
      have hpick := hempty.pick (nextOfAts_leastOr s.toList s.sorted h0)
      refine hpick.congr ?_
      intro y _
      constructor
      · rintro (⟨⟨⟩⟩ | ⟨a, ha, hta, hday, rfl⟩)
        have ha0 := le_trans h0 hta
        refine ⟨a, ha, ha0, hday, ?_, (hparts a ha ha0 hday).symm⟩
        rw [Item.isComing, hw, Bool.true_and]
        exact decide_eq_true ((le_iff_timeOfDay_le h0 ht ha0 a.2 hday).mp hta)
      · rintro ⟨a, ha, ha0, hday, hc, rfl⟩
        rw [Item.isComing, hw, Bool.true_and] at hc
        refine Or.inr ⟨a, ha, ?_, hday, hparts a ha ha0 hday⟩
        exact (le_iff_timeOfDay_le h0 ht ha0 a.2 hday).mpr (of_decide_eq_true hc)

theorem begin_onDay_of_lt (h0 : 0 ≤ n) (hn : n ≤ 24855) (hp : p.begin_ < never) :
    (onDay n p).begin_ = min (n * day + p.begin_) never := by
  have hne : n * day ≠ eternal := by
    rw [day_eq, eternal]
    omega
  rw [begin_onDay, if_neg (ne_of_lt hp), ofDayNr_eq h0 hn, add_of_lt hp hne, setTime,
    Int.add_comm]

/-- The period found in one set of periods. -/
theorem ofDay_leastOr (d : Day) (h0 : 0 ≤ n) (hn : n ≤ 24855) :
    LeastOr {x | ∃ p ∈ d.toList, p.1.isComing t w = true ∧ x = n * day + p.1.begin_} never
      (ofDay n t w d).begin_ := by
  rw [ofDay, Day.nextPeriod]
  cases hf : d.toList.find? (fun p => p.1.isComing t w) with
  | none =>
      refine leastOr_bound ?_
      rintro y ⟨p, hp, hc, -⟩
      exact absurd hc (List.find?_eq_none.mp hf p hp)
  | some p =>
      obtain ⟨hc, as, bs, hl, has⟩ := List.find?_eq_some_iff_append.mp hf
      have hmem : p ∈ d.toList := List.mem_of_find?_eq_some hf
      show LeastOr _ _ (onDay n p.1).begin_
      rw [begin_onDay_of_lt h0 hn p.2.begin_lt_never]
      refine ⟨?_, ?_, min_le_right _ _⟩
      · intro hlt
        exact ⟨p, hmem, hc, by omega⟩
      · rintro y ⟨q, hq, hqc, rfl⟩
        have hpq : p.1.begin_ ≤ q.1.begin_ := by
          have hsorted := d.sorted
          rw [hl] at hq hsorted
          rcases List.mem_append.mp hq with hq | hq
          · have hnot := has q hq
            rw [hqc] at hnot
            cases hnot
          · rcases List.mem_cons.mp hq with rfl | hq
            · exact le_refl _
            · have := (List.pairwise_cons.mp (List.pairwise_append.mp hsorted).2.1).1 q hq
              exact le_of_lt this
        omega

/-- The period found for a day begins with the least instant that is coming. -/
theorem nextPeriodOfSameDay_leastOr (h : 1000 ≤ t) (ht : t ≤ never) :
    LeastOr (Found i t w) never (i.nextPeriodOfSameDay t w).begin_ := by
  have h0 : 0 ≤ t := by omega
  obtain ⟨hn0, hn⟩ := dayNr_le h0 ht
  rw [nextPeriodOfSameDay_eq h ht]
  refine ((atSet_leastOr i.atSet h0 ht).least_map (l := i.daysOf (dayNr t))
    (U := fun d => {x | ∃ p ∈ d.toList, p.1.isComing (timeOfDay t) w = true ∧
      x = dayNr t * day + p.1.begin_})
    (fun d _ => ofDay_leastOr d hn0 hn)).congr ?_
  intro y _
  constructor
  · rintro (⟨a, ha, ha0, hday, hc, rfl⟩ | ⟨d, hd, p, hp, hc, rfl⟩)
    · exact ⟨.instant a, ⟨ha, ha0, hday⟩, hc, rfl⟩
    · exact ⟨.period p, ⟨d, hd, hp⟩, hc, rfl⟩
  · rintro ⟨item, hon, hc, rfl⟩
    cases item with
    | instant a => exact Or.inl ⟨a, hon.1, hon.2.1, hon.2.2, hc, rfl⟩
    | period p =>
        obtain ⟨d, hd, hp⟩ := hon
        exact Or.inr ⟨d, hd, p, hp, hc, rfl⟩

/-! ## The holidays around a day -/

/-- What the search on the day of `t` chooses from: on a holiday, what ignores
    holidays; else what belongs to the day, and what is moved there from the
    holidays right before and right after it. -/
def Searched (i : Inlay Day) (t : Int) (w : WithSingleStart) : Set Int :=
  if i.holidays.isHoliday (dayNr t) then Found i t (w ||| wssWhenHolidayIgnoreHoliday)
  else
    Found i t w ∪
    {x | ∃ k : Int, 1 ≤ k ∧ k ≤ Inlay.foreseeYears ∧
      (∀ j, 1 ≤ j → j ≤ k → i.holidays.isHoliday (dayNr t - j) = true) ∧
      ∃ y ∈ Found i (t - k * day) (w ||| wssWhenHolidayNextNonHoliday),
        y < never ∧ x = y + k * day} ∪
    {x | ∃ k : Int, 1 ≤ k ∧ k ≤ Inlay.foreseeYears ∧
      (∀ j, 1 ≤ j → j ≤ k → t + j * day < never ∧ i.holidays.isHoliday (dayNr t + j) = true) ∧
      ∃ y ∈ Found i (t + k * day) (w ||| wssWhenHolidayPreviousNonHoliday),
        y < never ∧ x = y - k * day}

/-- The search does not go back to the first day of 1970: there are no holidays,
    or the time is later than the days that are probed. -/
def InRange (i : Inlay Day) (t : Int) : Prop :=
  1000 ≤ t ∧ t ≤ never ∧ (21 * day ≤ t ∨ ∀ n, i.holidays.isHoliday n = false)

/-- A probe: what is found on another day is moved by the distance of the days. -/
theorem probe_leastOr {S F : Set Int} {result : Period} {d : Int}
    (hr : LeastOr S never result.begin_) (hp : LeastOr F never p.begin_) (hd : d ≠ eternal) :
    LeastOr (S ∪ {x | ∃ y ∈ F, y < never ∧ x = y - d}) never
      (if p.empty then result else pick Period.begin_ result (p.subDuration d)).begin_ := by
  have hsub : LeastOr {x | ∃ y ∈ F, y < never ∧ x = y - d} never (p.subDuration d).begin_ := by
    show LeastOr _ never (sub p.begin_ d)
    have hle := hp.le_bound
    by_cases hn : p.begin_ = never
    · rw [hn, sub_never]
      refine leastOr_bound ?_
      rintro x ⟨y, hy, hlt, -⟩
      have := hp.le y hy
      omega
    · rw [sub_of_lt (by omega) hd, setTime]
      refine ⟨?_, ?_, min_le_right _ _⟩
      · intro hlt
        exact ⟨p.begin_, hp.mem (by omega), by omega, by omega⟩
      · rintro x ⟨y, hy, -, rfl⟩
        have := hp.le y hy
        omega
  have hif : (if p.empty then result else pick Period.begin_ result (p.subDuration d))
      = pick Period.begin_ result (p.subDuration d) := by
    cases he : p.empty with
    | false => rfl
    | true =>
        have hbegin : (p.subDuration d).begin_ = never := by
          show sub p.begin_ d = never
          rw [of_decide_eq_true he, sub_never]
        rw [if_pos rfl, pick_of_le]
        rw [hbegin]
        exact hr.le_bound
  rw [hif]
  exact hr.pick hsub

theorem add_day (k : Int) (hk : 0 ≤ k) (hk' : k ≤ 20) (ht : t < never) :
    add t (-(k * day)) = t - k * day ∧ add t (k * day) = min (t + k * day) never ∧
      -(k * day) ≠ eternal ∧ k * day ≠ eternal := by
  have h1 : -(k * day) ≠ eternal := by
    rw [day_eq, eternal]
    omega
  have h2 : k * day ≠ eternal := by
    rw [day_eq, eternal]
    omega
  refine ⟨?_, ?_, h1, h2⟩
  · rw [add_of_lt ht h1, setTime, day_eq]
    omega
  · rw [add_of_lt ht h2, setTime]

/-- The days around a time. -/
theorem dayNr_shift (k : Int) (h0 : 0 ≤ t) (ht : t ≤ never) (h0' : 0 ≤ t + k * day)
    (ht' : t + k * day ≤ never) :
    dayNr (t + k * day) = dayNr t + k ∧ timeOfDay (t + k * day) = timeOfDay t := by
  obtain ⟨h, htod, htod'⟩ := dayNr_timeOfDay h0 ht
  refine eq_of_parts h0' ht' ?_ htod htod'
  rw [Int.add_mul]
  omega

theorem probeBefore_leastOr (fuel : Nat) (k : Int) (hk : 1 ≤ k)
    (hfuel : k + fuel = Inlay.foreseeYears + 1) (h : 21 * day ≤ t) (ht : t < never)
    {S : Set Int} {result : Period} (hr : LeastOr S never result.begin_) :
    LeastOr (S ∪ {x | ∃ m, k ≤ m ∧ m ≤ Inlay.foreseeYears ∧
        (∀ j, k ≤ j → j ≤ m → i.holidays.isHoliday (dayNr t - j) = true) ∧
        ∃ y ∈ Found i (t - m * day) (w ||| wssWhenHolidayNextNonHoliday),
          y < never ∧ x = y + m * day}) never
      (i.probeBefore t w fuel k result).begin_ := by
  induction fuel generalizing k S result with
  | zero =>
      refine hr.congr ?_
      intro x _
      refine ⟨Or.inl, ?_⟩
      rintro (hx | ⟨m, hkm, hm, -⟩)
      · exact hx
      · omega
  | succ fuel ih =>
      have hk20 : k ≤ 20 := by
        rw [Inlay.foreseeYears] at hfuel
        omega
      obtain ⟨hadd, -, hne, -⟩ := add_day (t := t) k (by omega) hk20 ht
      rw [day_eq] at h
      have h0 : 1000 ≤ t - k * day := by
        rw [day_eq]
        omega
      have hle : t - k * day ≤ never := by
        rw [day_eq]
        omega
      have hshift := dayNr_shift (t := t) (-k) (by omega) (le_of_lt ht)
        (by rw [Int.neg_mul]; omega) (by rw [Int.neg_mul]; omega)
      have hday : dayNr (t - k * day) = dayNr t - k := by
        rw [Int.neg_mul] at hshift
        exact hshift.1
      rw [Inlay.probeBefore]
      simp only [hadd, Holidays.isIncluded, hday]
      cases hhol : i.holidays.isHoliday (dayNr t - k) with
      | false =>
          refine hr.congr ?_
          intro x _
          refine ⟨Or.inl, ?_⟩
          rintro (hx | ⟨m, hkm, -, hall, -⟩)
          · exact hx
          · have := hall k (le_refl k) hkm
            rw [hhol] at this
            cases this
      | true =>
          have hp := probe_leastOr hr (nextPeriodOfSameDay_leastOr (i := i)
            (w := w ||| wssWhenHolidayNextNonHoliday) h0 hle) hne
          refine (ih (k + 1) (by omega) (by omega) hp).congr ?_
          intro x _
          constructor
          · rintro ((hx | ⟨y, hy, hyn, rfl⟩) | ⟨m, hkm, hm, hall, hy⟩)
            · exact Or.inl hx
            · refine Or.inr ⟨k, le_refl k, hk20, ?_, y, hy, hyn, by omega⟩
              intro j hkj hjk
              rw [show j = k by omega]
              exact hhol
            · refine Or.inr ⟨m, by omega, hm, ?_, hy⟩
              intro j hkj hjm
              rcases eq_or_lt_of_le hkj with rfl | hlt
              · exact hhol
              · exact hall j (by omega) hjm
          · rintro (hx | ⟨m, hkm, hm, hall, y, hy, hyn, rfl⟩)
            · exact Or.inl (Or.inl hx)
            · rcases eq_or_lt_of_le hkm with rfl | hlt
              · exact Or.inl (Or.inr ⟨y, hy, hyn, by omega⟩)
              · refine Or.inr ⟨m, by omega, hm, ?_, y, hy, hyn, rfl⟩
                intro j hkj hjm
                exact hall j (by omega) hjm

theorem probeAfter_leastOr (fuel : Nat) (k : Int) (hk : 1 ≤ k)
    (hfuel : k + fuel = Inlay.foreseeYears + 1) (h : 1000 ≤ t) (ht : t < never)
    {S : Set Int} {result : Period} (hr : LeastOr S never result.begin_) :
    LeastOr (S ∪ {x | ∃ m, k ≤ m ∧ m ≤ Inlay.foreseeYears ∧
        (∀ j, k ≤ j → j ≤ m →
          t + j * day < never ∧ i.holidays.isHoliday (dayNr t + j) = true) ∧
        ∃ y ∈ Found i (t + m * day) (w ||| wssWhenHolidayPreviousNonHoliday),
          y < never ∧ x = y - m * day}) never
      (i.probeAfter t w fuel k result).begin_ := by
  induction fuel generalizing k S result with
  | zero =>
      refine hr.congr ?_
      intro x _
      refine ⟨Or.inl, ?_⟩
      rintro (hx | ⟨m, hkm, hm, -⟩)
      · exact hx
      · omega
  | succ fuel ih =>
      have hk20 : k ≤ 20 := by
        rw [Inlay.foreseeYears] at hfuel
        omega
      obtain ⟨-, hadd, -, hne⟩ := add_day (t := t) k (by omega) hk20 ht
      rw [Inlay.probeAfter]
      -- the loop goes on if the day is a holiday and not behind the end of time
      have hcond : (add t (k * day) ≠ never ∧ i.holidays.isIncluded (add t (k * day)) = true) ↔
          t + k * day < never ∧ i.holidays.isHoliday (dayNr t + k) = true := by
        rw [hadd]
        constructor
        · rintro ⟨hlt, hhol⟩
          have hlt : t + k * day < never := by omega
          rw [min_eq_left (le_of_lt hlt), Holidays.isIncluded, (dayNr_shift k (by omega)
            (le_of_lt ht) (by rw [day_eq]; omega) (le_of_lt hlt)).1] at hhol
          exact ⟨hlt, hhol⟩
        · rintro ⟨hlt, hhol⟩
          rw [min_eq_left (le_of_lt hlt), Holidays.isIncluded, (dayNr_shift k (by omega)
            (le_of_lt ht) (by rw [day_eq]; omega) (le_of_lt hlt)).1]
          exact ⟨ne_of_lt hlt, hhol⟩
      by_cases hc : t + k * day < never ∧ i.holidays.isHoliday (dayNr t + k) = true
      · have hle : t + k * day ≤ never := le_of_lt hc.1
        have h0 : 1000 ≤ t + k * day := by
          rw [day_eq]
          omega
        have hp := probe_leastOr hr (nextPeriodOfSameDay_leastOr (i := i)
          (w := w ||| wssWhenHolidayPreviousNonHoliday) h0 hle) hne
        simp only [if_pos (hcond.mpr hc)]
        rw [hadd, min_eq_left hle]
        refine (ih (k + 1) (by omega) (by omega) hp).congr ?_
        intro x _
        constructor
        · rintro ((hx | ⟨y, hy, hyn, rfl⟩) | ⟨m, hkm, hm, hall, hy⟩)
          · exact Or.inl hx
          · refine Or.inr ⟨k, le_refl k, hk20, ?_, y, hy, hyn, rfl⟩
            intro j hkj hjk
            rw [show j = k by omega]
            exact hc
          · refine Or.inr ⟨m, by omega, hm, ?_, hy⟩
            intro j hkj hjm
            rcases eq_or_lt_of_le hkj with rfl | hlt
            · exact hc
            · exact hall j (by omega) hjm
        · rintro (hx | ⟨m, hkm, hm, hall, y, hy, hyn, rfl⟩)
          · exact Or.inl (Or.inl hx)
          · rcases eq_or_lt_of_le hkm with rfl | hlt
            · exact Or.inl (Or.inr ⟨y, hy, hyn, rfl⟩)
            · refine Or.inr ⟨m, by omega, hm, ?_, y, hy, hyn, rfl⟩
              intro j hkj hjm
              exact hall j (by omega) hjm
      · simp only [if_neg fun h => hc (hcond.mp h)]
        refine hr.congr ?_
        intro x _
        refine ⟨Or.inl, ?_⟩
        rintro (hx | ⟨m, hkm, -, hall, -⟩)
        · exact hx
        · exact absurd (hall k (le_refl k) hkm) hc

/-- Without holidays nothing is moved. -/
theorem searchDay_of_none (hnone : ∀ n, i.holidays.isHoliday n = false) (result : Period) :
    i.searchDay t w result
      = pick Period.begin_ result (i.nextPeriodOfSameDay t w) := by
  have hinc : ∀ t, i.holidays.isIncluded t = false := fun t => hnone (dayNr t)
  have hbefore : ∀ fuel k r, i.probeBefore t w fuel k r = r := by
    intro fuel k r
    cases fuel with
    | zero => rfl
    | succ fuel =>
        rw [Inlay.probeBefore]
        simp only [hinc, Bool.false_eq_true, if_false]
  have hafter : ∀ fuel k r, i.probeAfter t w fuel k r = r := by
    intro fuel k r
    cases fuel with
    | zero => rfl
    | succ fuel =>
        rw [Inlay.probeAfter]
        simp only [hinc, Bool.false_eq_true, and_false, if_false]
  rw [Inlay.searchDay, hinc]
  simp only [Bool.false_eq_true, if_false, hbefore, hafter]

/-- A turn of the loop finds the least instant that the search chooses from. -/
theorem searchDay_leastOr (h : InRange i t) (ht : t < never) {result : Period}
    (hr : result.begin_ = never) :
    LeastOr (Searched i t w) never (i.searchDay t w result).begin_ := by
  obtain ⟨h0, hle, hdom⟩ := h
  have hempty : LeastOr (∅ : Set Int) never result.begin_ := by
    rw [hr]
    exact leastOr_bound fun y hy => absurd hy (Set.notMem_empty y)
  have hnative := hempty.pick (nextPeriodOfSameDay_leastOr (i := i) (w := w) h0 hle)
  rcases hdom with hfar | hnone
  · rw [Inlay.searchDay, Holidays.isIncluded, Searched]
    cases hhol : i.holidays.isHoliday (dayNr t) with
    | true => exact nextPeriodOfSameDay_leastOr h0 hle
    | false =>
        have hb := probeBefore_leastOr (i := i) (w := w) Inlay.foreseeYears 1 (le_refl _)
          (by decide) hfar ht hnative
        have ha := probeAfter_leastOr (i := i) (w := w) Inlay.foreseeYears 1 (le_refl _)
          (by decide) h0 ht hb
        rw [Set.empty_union] at ha
        exact ha
  · rw [searchDay_of_none hnone, Searched, if_neg (by rw [hnone]; exact Bool.false_ne_true)]
    refine hnative.congr ?_
    intro x _
    constructor
    · rintro (hx | hx)
      · exact absurd hx (Set.notMem_empty x)
      · exact Or.inl (Or.inl hx)
    · rintro ((hx | ⟨k, hk, -, hall, -⟩) | ⟨k, hk, -, hall, -⟩)
      · exact Or.inr hx
      · have := hall 1 (le_refl _) hk
        rw [hnone] at this
        cases this
      · have := (hall 1 (le_refl _) hk).2
        rw [hnone] at this
        cases this

/-! ## The days up to the limit -/

theorem Item.begin_bounds (item : Item) (hon : OnDay i n item) :
    0 ≤ item.begin_ ∧ item.begin_ ≤ day := by
  cases item with
  | instant a =>
      have := (dayNr_timeOfDay hon.2.1 a.2).2
      exact ⟨this.1, le_of_lt this.2⟩
  | period p => exact ⟨p.2.begin_nonneg, le_trans p.2.begin_le p.2.end_le⟩

theorem found_bounds {x : Int} (hx : x ∈ Found i t w) :
    dayNr t * day ≤ x ∧ x ≤ dayNr t * day + day := by
  obtain ⟨item, hon, -, rfl⟩ := hx
  have := item.begin_bounds hon
  omega

/-- What is found for a day lies on that day, or at its end. -/
theorem searched_bounds (h : InRange i t) (ht : t < never) {x : Int} (hx : x ∈ Searched i t w) :
    dayNr t * day ≤ x ∧ x ≤ dayNr t * day + day := by
  obtain ⟨h0, hle, hdom⟩ := h
  rw [Searched] at hx
  split at hx
  · exact found_bounds hx
  · rcases hx with (hx | ⟨k, hk, hk20, hall, y, hy, -, rfl⟩) | ⟨k, hk, hk20, hall, y, hy, -, rfl⟩
    · exact found_bounds hx
    · have hfar : 21 * day ≤ t := by
        refine hdom.resolve_right fun hnone => ?_
        have := hall 1 (le_refl _) hk
        rw [hnone] at this
        cases this
      rw [Inlay.foreseeYears] at hk20
      have hy := found_bounds hy
      rw [day_eq] at hfar
      have hshift := dayNr_shift (t := t) (-k) (by omega) hle
        (by rw [Int.neg_mul, day_eq]; omega) (by rw [Int.neg_mul, day_eq]; omega)
      rw [Int.neg_mul] at hshift
      rw [show t - k * day = t + -(k * day) by omega, hshift.1, day_eq] at hy
      rw [day_eq]
      omega
    · have hy := found_bounds hy
      have hlt := (hall k hk (le_refl _)).1
      have hshift := dayNr_shift (t := t) k (by omega) hle (by rw [day_eq]; omega) (le_of_lt hlt)
      rw [hshift.1, day_eq] at hy
      rw [day_eq]
      omega

/-- The instants from which the search over the days chooses: those of the days
    that begin before the limit. -/
def Due (i : Inlay Day) (w : WithSingleStart) (limited t : Int) : Set Int :=
  {x | ∃ d, dayNr t ≤ d ∧ max t (d * day) < limited ∧ x ∈ Searched i (max t (d * day)) w}

theorem InRange.mono (h : InRange i t) (hts : t ≤ s) (hs : s ≤ never) : InRange i s :=
  ⟨le_trans h.1 hts, hs, h.2.2.imp_left fun hfar => le_trans hfar hts⟩

theorem dayNr_mul (h0 : 0 ≤ n) (hn : n * day ≤ never) :
    dayNr (n * day) = n ∧ timeOfDay (n * day) = 0 :=
  eq_of_parts (by rw [day_eq]; omega) hn (by omega) (le_refl _) (by decide)

/-- On a later day the search begins at midnight. -/
theorem max_midnight (h0 : 0 ≤ t) (ht : t ≤ never) (hn : dayNr t < n) :
    max t (n * day) = n * day := by
  have hparts := dayNr_timeOfDay h0 ht
  rw [day_eq] at hparts ⊢
  omega

theorem max_today (h0 : 0 ≤ t) (ht : t ≤ never) : max t (dayNr t * day) = t := by
  have hparts := dayNr_timeOfDay h0 ht
  omega

theorem searchDays_of_found {limited : Int} (fuel : Nat) (hp : p.begin_ < never) :
    i.searchDays w limited fuel t p = p := by
  have he : p.empty = false := decide_eq_false (ne_of_lt hp)
  cases fuel with
  | zero => rfl
  | succ fuel =>
      rw [Inlay.searchDays, if_neg]
      rintro ⟨h, -⟩
      rw [he] at h
      cases h

theorem searchDays_of_limit {limited : Int} (fuel : Nat) (hl : limited ≤ t) :
    i.searchDays w limited fuel t p = p := by
  cases fuel with
  | zero => rfl
  | succ fuel =>
      rw [Inlay.searchDays, if_neg]
      rintro ⟨-, h⟩
      omega

/-- The next midnight, if there is one. -/
theorem next_midnight (h0 : 0 ≤ t) (ht : t ≤ never) :
    add (midnight t) day = min ((dayNr t + 1) * day) never := by
  obtain ⟨hn0, hn⟩ := dayNr_le h0 ht
  rw [midnight_eq h0 ht, add_of_lt (by rw [day_eq, never_eq]; omega) (by decide), setTime,
    Int.add_mul, Int.one_mul]

/-- The loop finds the least instant of the days before the limit. -/
theorem searchDays_leastOr {limited : Int} (fuel : Nat) (h : InRange i t)
    (hl : limited ≤ never) (hfuel : limited ≤ dayNr t * day + fuel * day) {result : Period}
    (hr : result.begin_ = never) :
    LeastOr (Due i w limited t) never (i.searchDays w limited fuel t result).begin_ := by
  induction fuel generalizing t result with
  | zero =>
      obtain ⟨h0, hle, -⟩ := h
      have hparts := dayNr_timeOfDay (by omega) hle
      rw [Inlay.searchDays, hr]
      refine leastOr_bound ?_
      rintro x ⟨d, -, hd, -⟩
      omega
  | succ fuel ih =>
      obtain ⟨h0, hle, hdom⟩ := id h
      have hparts := dayNr_timeOfDay (by omega) hle
      by_cases hlim : t < limited
      · have hlt : t < never := by omega
        have hday := searchDay_leastOr (w := w) h hlt hr
        have hempty : result.empty = true := decide_eq_true hr
        rw [Inlay.searchDays, if_pos ⟨hempty, hlim⟩, next_midnight (by omega) hle]
        have htoday := max_today (t := t) (by omega) hle
        have hfirst : ∀ x, x ∈ Searched i t w → x ∈ Due i w limited t := by
          intro x hx
          exact ⟨dayNr t, le_refl _, by rw [htoday]; exact hlim, by rw [htoday]; exact hx⟩
        by_cases hfound : (i.searchDay t w result).begin_ < never
        · -- what later days offer begins later
          rw [searchDays_of_found fuel hfound]
          refine leastOr_of_mem (hfirst _ (hday.mem hfound)) ?_ hday.le_bound
          rintro x ⟨d, hd, hdlim, hx⟩
          rcases eq_or_lt_of_le hd with rfl | hlater
          · rw [htoday] at hx
            exact hday.le x hx
          · rw [max_midnight (by omega) hle hlater] at hdlim hx
            have h1 := searched_bounds h hlt (hday.mem hfound)
            have hin : InRange i (d * day) := by
              refine h.mono ?_ (by omega)
              have := max_midnight (n := d) (by omega) hle hlater
              omega
            have h2 := searched_bounds hin (by omega) hx
            rw [(dayNr_mul (n := d) (by have := (dayNr_le (t := t) (by omega) hle).1; omega)
              (by omega)).1] at h2
            rw [day_eq] at h1 h2
            omega
        · have hnone : (i.searchDay t w result).begin_ = never :=
            le_antisymm hday.le_bound (le_of_not_gt hfound)
          rw [hnone] at hday
          by_cases hend : (dayNr t + 1) * day ≤ never
          · rw [min_eq_left hend]
            have hn0 := (dayNr_le (t := t) (by omega) hle).1
            obtain ⟨hnext, -⟩ := dayNr_mul (n := dayNr t + 1) (by omega) hend
            have hmax := max_midnight (t := t) (n := dayNr t + 1) (by omega) hle (by omega)
            have hin : InRange i ((dayNr t + 1) * day) := h.mono (by omega) hend
            refine (ih hin (by rw [hnext, day_eq] at *; omega) hnone).congr ?_
            intro x hxn
            constructor
            · rintro ⟨d, hd, hdlim, hx⟩
              rw [hnext] at hd
              have h1 := max_midnight (t := t) (n := d) (by omega) hle (by omega)
              have h2 : max ((dayNr t + 1) * day) (d * day) = d * day := by
                rw [day_eq]
                omega
              rw [h2] at hdlim hx
              exact ⟨d, by omega, by rw [h1]; exact hdlim, by rw [h1]; exact hx⟩
            · rintro ⟨d, hd, hdlim, hx⟩
              rcases eq_or_lt_of_le hd with rfl | hlater
              · rw [htoday] at hx
                have := hday.le x hx
                omega
              · have h1 := max_midnight (t := t) (n := d) (by omega) hle hlater
                have h2 : max ((dayNr t + 1) * day) (d * day) = d * day := by
                  rw [day_eq]
                  omega
                rw [h1] at hdlim hx
                exact ⟨d, by omega, by rw [h2]; exact hdlim, by rw [h2]; exact hx⟩
          · -- the day is the last one
            rw [min_eq_right (le_of_not_ge hend), searchDays_of_limit _ hl, hnone]
            refine leastOr_bound ?_
            rintro x ⟨d, hd, hdlim, hx⟩
            rcases eq_or_lt_of_le hd with rfl | hlater
            · rw [htoday] at hx
              exact hday.le x hx
            · rw [day_eq] at hend hdlim
              omega
      · rw [searchDays_of_limit _ (by omega), hr]
        refine leastOr_bound ?_
        rintro x ⟨d, -, hd, -⟩
        omega

theorem given_false (day : Option D) : given false day = [] := rfl

theorem daysOfSets_of_unfilled {ws us : DaySet D} {ms : MonthdaySet D}
    (hw : ws.isFilled = false) (hm : ms.isFilled = false) (hu : us.isFilled = false) :
    daysOfSets ws ms us n = [] := by
  rw [MonthdaySet.isFilled, Bool.or_eq_false_iff, Bool.or_eq_false_iff] at hm
  simp only [daysOfSets, MonthdaySet.daysOf, hw, hu, hm.1.1, hm.1.2, hm.2, given_false,
    List.append_nil]

/-- An inlay that is not filled has nothing on any day. -/
theorem not_onDay (hf : i.isFilled = false) (item : Item) : ¬OnDay i n item := by
  simp only [Inlay.isFilled, Bool.or_eq_false_iff, Bool.not_eq_false', Bool.and_eq_false_iff,
    List.isEmpty_iff] at hf
  obtain ⟨⟨⟨⟨⟨hat, hdate⟩, hw⟩, hm⟩, hu⟩, hmonths⟩ := hf
  have hdays : i.daysOf n = [] := by
    rw [Inlay.daysOf, hdate, Inlay.monthAt]
    cases hh : i.hasMonth with
    | false => exact daysOfSets_of_unfilled hw hm hu
    | true =>
        have hall := hmonths.resolve_left (by rw [hh]; exact Bool.noConfusion)
        cases hmonth : i.months (Fin.ofNat 12 ((dateOfDay n).month - 1)) with
        | none => simpa [hmonth] using daysOfSets_of_unfilled hw hm hu
        | some m =>
            have hfm := List.any_eq_false.mp hall _ (List.mem_finRange
              (Fin.ofNat 12 ((dateOfDay n).month - 1)))
            rw [hmonth, Option.any_some, Bool.not_eq_true, Bool.or_eq_false_iff,
              Bool.or_eq_false_iff] at hfm
            simpa [hmonth] using daysOfSets_of_unfilled hfm.1.1 hfm.1.2 hfm.2
  intro hon
  cases item with
  | instant a =>
      have := hon.1
      rw [hat] at this
      cases this
  | period p =>
      obtain ⟨d, hd, -⟩ := hon
      rw [hdays] at hd
      cases hd

theorem not_found (hf : i.isFilled = false) (x : Int) : x ∉ Found i t w := by
  rintro ⟨item, hon, -⟩
  exact not_onDay hf item hon

theorem not_searched (hf : i.isFilled = false) (x : Int) : x ∉ Searched i t w := by
  intro hx
  rw [Searched] at hx
  split at hx
  · exact not_found hf x hx
  · rcases hx with (hx | ⟨k, -, -, -, y, hy, -⟩) | ⟨k, -, -, -, y, hy, -⟩
    · exact not_found hf x hx
    · exact not_found hf y hy
    · exact not_found hf y hy

theorem limitedBefore_le (before : Int) (h0 : 0 ≤ t) (ht : t ≤ never) :
    Inlay.limitedBefore t before ≤ never ∧
      Inlay.limitedBefore t before ≤ dayNr t * day + (Inlay.foreseeYears * 366 + 1 : Nat) * day := by
  have hle : add t (Inlay.foreseeYears * 366 * day) ≤ never := add_le
  have hmin := min_le_right before (add t (Inlay.foreseeYears * 366 * day))
  have hparts := dayNr_timeOfDay h0 ht
  have hadd : add t (Inlay.foreseeYears * 366 * day) ≤ t + 20 * 366 * day := by
    by_cases hn : t = never
    · rw [hn, add_never, day_eq]
      omega
    · rw [add_of_lt (by omega) (by decide), setTime]
      exact min_le_left _ _
  rw [Inlay.limitedBefore, Inlay.foreseeYears, day_eq] at *
  omega

/-- The period found begins with the least instant of the foreseen days that is
    not over; it is empty if there is none. -/
theorem nextLocalPeriod_leastOr (before : Int) (h : InRange i t) :
    LeastOr (Due i w (Inlay.limitedBefore t before) t) never
      (i.nextLocalPeriod t w before).begin_ := by
  obtain ⟨hl, hfuel⟩ := limitedBefore_le before (t := t) (by have := h.1; omega) h.2.1
  rw [Inlay.nextLocalPeriod]
  by_cases hc : t ≠ never ∧ i.isFilled = true
  · rw [if_pos hc]
    exact searchDays_leastOr _ h hl hfuel rfl
  · rw [if_neg hc]
    refine leastOr_bound ?_
    rintro x ⟨d, -, hd, hx⟩
    by_cases ht : t = never
    · omega
    · have hf : i.isFilled = false := by
        cases hf : i.isFilled with
        | false => rfl
        | true => exact absurd ⟨ht, hf⟩ hc
      exact absurd hx (not_searched hf x)

end ScheduleSearch
