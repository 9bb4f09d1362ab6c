import SchedulerEngine.ActiveScheduleProofs

/-! # The next start of a schedule in use

    `Schedule_use` asks its schedule in the time zone of the user.  Without
    substitutes and holidays the period it gets is the first of the least of those
    that are coming on the first day that has one. -/

namespace ScheduleUse

open SchedulerTime SchedulePeriod ScheduleInlay ScheduleSearch LeftmostLeast CoveringSchedule
open HolidayShift

variable {i : Inlay Day} {t u n before : Int} {w : WithSingleStart} {p : Period} {item : Item}

/-! ## `Schedule_use` -/

/-- `local_time` and `utc_from_time_zone`. -/
structure TimeZone where
  localTime : Int → Int
  utcFromTimeZone : Int → Int

/-- The time zone in which local time is UTC. -/
def TimeZone.utc : TimeZone := ⟨fun t => t, fun t => t⟩

def nextPeriod (s : Schedule) (zone : TimeZone) (t : Int) (w : WithSingleStart) (before : Int) :
    Option Period :=
  (s.nextLocalPeriod (zone.localTime t) w (zone.localTime before)).map fun result =>
    { result with
      begin_ := zone.utcFromTimeZone result.begin_
      end_ := zone.utcFromTimeZone result.end_
      absoluteRepeatBegin := zone.utcFromTimeZone result.absoluteRepeatBegin }

/-- The start that a period tells. -/
def startOf (t : Int) (period : Period) : Int :=
  if period.absoluteRepeat ≠ eternal then period.nextRepeated t else period.begin_

def nextAnyStart (s : Schedule) (zone : TimeZone) (t : Int) : Option Int :=
  (nextPeriod s zone t wssNextAnyStart never).map (startOf t)

/-- A schedule without substitutes. -/
def alone (i : Inlay Day) (path : String) : Schedule where
  path := path
  inlay := i
  coverings := KeySet.empty _
  disjoint := List.Pairwise.nil
  paths := List.nodup_singleton _

/-- A period of the inlay as the schedule tells it. -/
def told (path : String) (p : Period) : Period :=
  if p.singleStart then { p with schedulePath := path }
  else { p with
    schedulePath := path
    absoluteRepeatBegin := p.begin_
    begin_ := max p.begin_ 0
    end_ := min p.end_ never }

theorem nextPeriod_utc (s : Schedule) :
    nextPeriod s .utc t w before = s.nextLocalPeriod t w before := by
  show (s.nextLocalPeriod t w before).map (fun result => result) = _
  exact Option.map_id'

/-- Without substitutes the inlay decides. -/
theorem nextPeriod_alone (path : String) (h0 : 0 ≤ t) (ht : t ≤ never) :
    nextPeriod (alone i path) .utc t w never = some
      (if (i.nextLocalPeriod t w never).begin_ < never
        then told path (i.nextLocalPeriod t w never) else nothing) := by
  have hsel : ∀ w before, (alone i path).select t w before ⟨0, never, none⟩
      = i.nextLocalPeriod t w before := by
    intro w before
    rw [Schedule.select, max_eq_left h0]
    rfl
  have hsegs : (alone i path).intervals = [⟨0, never, none⟩] := rfl
  rw [nextPeriod_utc, ActiveSchedule.nextLocalPeriod_eq h0 ht, hsegs]
  congr 1
  by_cases hb : (i.nextLocalPeriod t w never).begin_ < never
  · have htn : t < never := by
      refine lt_of_le_of_ne ht fun hn => ?_
      rw [hn, nextLocalPeriod_never] at hb
      exact lt_irrefl _ hb
    rw [if_pos hb, firstOf_cons_pos (hits_iff.mpr ⟨htn, by rw [hsel]; exact hb⟩), Schedule.hitOf,
      ActiveSchedule.clip_eq, hsel]
    rfl
  · rw [if_neg hb, firstOf_cons_neg fun h => hb (by rw [hits_iff, hsel] at h; exact h.2)]
    rfl

theorem nextAnyStart_alone (path : String) (h0 : 0 ≤ t) (ht : t ≤ never) :
    nextAnyStart (alone i path) .utc t = some (startOf t
      (if (i.nextLocalPeriod t wssNextAnyStart never).begin_ < never
        then told path (i.nextLocalPeriod t wssNextAnyStart never) else nothing)) := by
  rw [nextAnyStart, nextPeriod_alone path h0 ht, Option.map_some]

/-! ## The period that leads -/

/-- The instant lies on the day. -/
def isOn (n : Int) (a : AtTime) : Bool := 0 ≤ a.1 && dayNr a.1 = n

theorem isOn_iff {a : AtTime} : isOn n a = true ↔ 0 ≤ a.1 ∧ dayNr a.1 = n := by
  rw [isOn, Bool.and_eq_true, decide_eq_true_eq, decide_eq_true_eq]

/-- The instants and the periods of a day, in the order of the search. -/
def itemsOf (i : Inlay Day) (n : Int) : List Item :=
  (i.atSet.toList.filter (isOn n)).map Item.instant ++
    (i.daysOf n).flatMap fun d => d.toList.map Item.period

/-- Those that are coming from a time of day on. -/
def comingOn (i : Inlay Day) (n tod : Int) (w : WithSingleStart) : List Item :=
  (itemsOf i n).filter fun item => item.isComing tod w

/-- The period of an instant, or of a day. -/
def periodOn (n : Int) : Item → Period
  | .instant a => atPeriod a.1
  | .period p => onDay n p.1

theorem mem_itemsOf : item ∈ itemsOf i n ↔ OnDay i n item := by
  rw [itemsOf, List.mem_append, List.mem_map, List.mem_flatMap]
  constructor
  · rintro (⟨a, ha, rfl⟩ | ⟨d, hd, hp⟩)
    · obtain ⟨hmem, hon⟩ := List.mem_filter.mp ha
      exact ⟨hmem, isOn_iff.mp hon⟩
    · obtain ⟨p, hpd, rfl⟩ := List.mem_map.mp hp
      exact ⟨d, hd, hpd⟩
  · intro hon
    cases item with
    | instant a => exact Or.inl ⟨a, List.mem_filter.mpr ⟨hon.1, isOn_iff.mpr hon.2⟩, rfl⟩
    | period p =>
        obtain ⟨d, hd, hp⟩ := hon
        exact Or.inr ⟨d, hd, List.mem_map_of_mem hp⟩

theorem begin_periodOn (h0 : 0 ≤ n) (hn : n ≤ 24855) (hon : OnDay i n item) :
    (periodOn n item).begin_ = min (n * day + item.begin_) never := by
  cases item with
  | instant a =>
      obtain ⟨-, ha0, hday⟩ := hon
      have h1 := (dayNr_timeOfDay ha0 a.2).1
      have h2 := a.2
      rw [hday] at h1
      show a.1 = min (n * day + timeOfDay a.1) never
      omega
  | period p => exact begin_onDay_of_lt h0 hn p.2.begin_lt_never

/-- The `<at>` of a day. -/
theorem least_nextOfAts (l : List AtTime) (hl : l.Pairwise fun a b => a.1 < b.1) (h0 : 0 ≤ t)
    (ht : t ≤ never) (hw : has w (wssNextAnyStart ||| wssNextSingleStart) = true) :
    pick Period.begin_ init (nextOfAts t l)
      = least Period.begin_ init ((((l.filter (isOn (dayNr t))).map Item.instant).filter
          fun item => item.isComing (timeOfDay t) w).map (periodOn (dayNr t))) := by
  induction l with
  | nil => rfl
  | cons a l ih =>
      obtain ⟨hal, hl⟩ := List.pairwise_cons.mp hl
      have hcoming : ∀ b : AtTime, 0 ≤ b.1 → dayNr b.1 = dayNr t →
          ((Item.instant b).isComing (timeOfDay t) w = true ↔ t ≤ b.1) := by
        intro b hb0 hday
        rw [Item.isComing, hw, Bool.true_and, decide_eq_true_eq]
        exact (le_iff_timeOfDay_le h0 ht hb0 b.2 hday).symm
      rw [nextOfAts]
      by_cases hta : t ≤ a.1
      · rw [if_pos hta]
        by_cases hday : dayNr a.1 = dayNr t
        · have hdec : isOn (dayNr t) a = true := isOn_iff.mpr ⟨le_trans h0 hta, hday⟩
          rw [if_pos hday, List.filter_cons_of_pos hdec, List.map_cons, List.filter_cons_of_pos
            ((hcoming a (le_trans h0 hta) hday).mpr hta), List.map_cons, least_cons]
          symm
          refine least_eq_init ?_
          intro q hq
          obtain ⟨c, hc, rfl⟩ := List.mem_map.mp hq
          obtain ⟨b, hb, rfl⟩ := List.mem_map.mp (List.mem_of_mem_filter hc)
          exact le_trans key_pick_le_right (le_of_lt (hal b (List.mem_of_mem_filter hb)))
        · -- the later ones are not on that day either
          rw [if_neg hday]
          have hnil : (a :: l).filter (isOn (dayNr t)) = [] := by
            refine List.filter_eq_nil_iff.mpr ?_
            intro b hb hdec
            obtain ⟨hb0, hbday⟩ := isOn_iff.mp hdec
            rcases List.mem_cons.mp hb with rfl | hb
            · exact hday hbday
            · have h1 := dayNr_mono h0 hta a.2
              have h2 := dayNr_mono (le_trans h0 hta) (le_of_lt (hal b hb)) b.2
              omega
          rw [hnil]
          rfl
      · rw [if_neg hta, ih hl]
        congr 1
        by_cases hdec : isOn (dayNr t) a = true
        · obtain ⟨ha0, hday⟩ := isOn_iff.mp hdec
          rw [List.filter_cons_of_pos hdec, List.map_cons, List.filter_cons_of_neg
            fun hc => hta ((hcoming a ha0 hday).mp hc)]
        · rw [List.filter_cons_of_neg hdec]

/-- The periods of one day, moved to the date. -/
theorem ofDay_eq (d : Day) {tod : Int} {acc : Period} (hacc : acc.begin_ ≤ never) :
    pick Period.begin_ acc (ofDay n tod w d)
      = least Period.begin_ acc (((d.toList.map Item.period).filter fun item =>
          item.isComing tod w).map (periodOn n)) := by
  have hnext : d.nextPeriod tod w = least Period.begin_ init
      ((d.toList.filter fun p => p.1.isComing tod w).map Subtype.val) := by
    have hmap : (d.toList.map Subtype.val).Pairwise fun a b : Period => a.begin_ < b.begin_ :=
      List.pairwise_map.mpr d.sorted
    have hfind : ((d.toList.map Subtype.val).find? fun p => p.isComing tod w).getD init
        = least Period.begin_ init ((d.toList.map Subtype.val).filter fun p => p.isComing tod w) := by
      refine find?_getD_eq_least hmap fun p hp => ?_
      obtain ⟨q, -, rfl⟩ := List.mem_map.mp hp
      exact q.2.begin_lt_never
    rw [List.find?_map, List.filter_map] at hfind
    change (Option.map Subtype.val (d.toList.find? fun p => p.1.isComing tod w)).getD init = _ at hfind
    rw [Day.nextPeriod]
    refine Eq.trans ?_ hfind
    cases d.toList.find? (fun p => p.1.isComing tod w) with
    | none => rfl
    | some q => rfl
  have hle : ∀ p ∈ (d.toList.filter fun p => p.1.isComing tod w).map Subtype.val,
      p.begin_ ≤ never := by
    intro p hp
    obtain ⟨q, -, rfl⟩ := List.mem_map.mp hp
    exact le_of_lt q.2.begin_lt_never
  rw [ofDay, hnext, pick_onDay_least hle hacc, List.filter_map, List.map_map, List.map_map]
  rfl

/-- The period found for a day is that of the first of the least of its items. -/
theorem nextPeriodOfSameDay_eq_least (h : 1000 ≤ u) (hu : u ≤ never)
    (hw : has w (wssNextAnyStart ||| wssNextSingleStart) = true) :
    i.nextPeriodOfSameDay u w
      = least Period.begin_ init
          ((comingOn i (dayNr u) (timeOfDay u) w).map (periodOn (dayNr u))) := by
  have hdays : ∀ (l : List Day) {acc : Period}, acc.begin_ ≤ never →
      least Period.begin_ acc (l.map (ofDay (dayNr u) (timeOfDay u) w))
        = least Period.begin_ acc (((l.flatMap fun d => d.toList.map Item.period).filter
            fun item => item.isComing (timeOfDay u) w).map (periodOn (dayNr u))) := by
    intro l
    induction l with
    | nil =>
        intro acc _
        rfl
    | cons d l ih =>
        intro acc hacc
        rw [List.map_cons, least_cons, List.flatMap_cons, List.filter_append, List.map_append,
          least_append, ofDay_eq d hacc]
        exact ih (le_trans key_least_le_init hacc)
  rw [nextPeriodOfSameDay_eq h hu, AtSet.next, hw, if_pos rfl,
    least_nextOfAts _ i.atSet.sorted (by omega) hu hw, comingOn, itemsOf, List.filter_append,
    List.map_append, least_append]
  exact hdays _ key_least_le_init

/-- The search ends on the first day that has a period. -/
theorem searchDays_day {limited : Int} (fuel : Nat) (h : InRange i t)
    (hnone : ∀ n, i.holidays.isHoliday n = false) (hl : limited ≤ never) {result : Period}
    (hr : result.begin_ = never) (hlt : (i.searchDays w limited fuel t result).begin_ < never) :
    ∃ n, dayNr t ≤ n ∧ max t (n * day) < limited ∧
      i.searchDays w limited fuel t result = i.nextPeriodOfSameDay (max t (n * day)) w ∧
      ∀ m, dayNr t ≤ m → m < n → (i.nextPeriodOfSameDay (max t (m * day)) w).begin_ = never := by
  induction fuel generalizing t result with
  | zero =>
      rw [Inlay.searchDays, hr] at hlt
      exact absurd hlt (lt_irrefl _)
  | succ fuel ih =>
      obtain ⟨h0, hle, -⟩ := id h
      by_cases hlim : t < limited
      · have hempty : result.empty = true := decide_eq_true hr
        have htoday := max_today (t := t) (by omega) hle
        rw [Inlay.searchDays, if_pos ⟨hempty, hlim⟩, next_midnight (by omega) hle,
          searchDay_of_none hnone] at hlt ⊢
        by_cases hfound : (i.nextPeriodOfSameDay t w).begin_ < never
        · have hpick : pick Period.begin_ result (i.nextPeriodOfSameDay t w)
              = i.nextPeriodOfSameDay t w := pick_of_lt (by rw [hr]; exact hfound)
          rw [hpick, searchDays_of_found fuel hfound]
          refine ⟨dayNr t, le_refl _, by rw [htoday]; exact hlim, by rw [htoday], ?_⟩
          intro m hm hm'
          omega
        · have hpick : pick Period.begin_ result (i.nextPeriodOfSameDay t w) = result :=
            pick_of_le (by rw [hr]; exact le_of_not_gt hfound)
          rw [hpick] at hlt ⊢
          by_cases hend : (dayNr t + 1) * day ≤ never
          · rw [min_eq_left hend] at hlt ⊢
            have hn0 := (dayNr_le (t := t) (by omega) hle).1
            obtain ⟨hnext, -⟩ := dayNr_mul (n := dayNr t + 1) (by omega) hend
            have hmax := max_midnight (t := t) (n := dayNr t + 1) (by omega) hle (by omega)
            obtain ⟨n, hn, hnlim, heq, hbefore⟩ := ih (h.mono (by omega) hend) hr hlt
            rw [hnext] at hn hbefore
            have hday : ∀ m, dayNr t + 1 ≤ m →
                max ((dayNr t + 1) * day) (m * day) = max t (m * day) := by
              intro m hm
              rw [max_midnight (by omega) hle (by omega), day_eq]
              omega
            rw [hday n hn] at hnlim heq
            refine ⟨n, by omega, hnlim, heq, ?_⟩
            intro m hm hm'
            rcases eq_or_lt_of_le hm with rfl | hm
            · rw [htoday]
              exact le_antisymm (nextPeriodOfSameDay_leastOr h0 hle).le_bound
                (le_of_not_gt hfound)
            · have := hbefore m (by omega) hm'
              rwa [hday m (by omega)] at this
          · rw [min_eq_right (le_of_not_ge hend), searchDays_of_limit _ hl, hr] at hlt
            exact absurd hlt (lt_irrefl _)
      · rw [searchDays_of_limit _ (by omega), hr] at hlt
        exact absurd hlt (lt_irrefl _)

/-- The item whose period a search finds: on the first day on which something is
    coming, the first one of the least begin. -/
structure LeadsFor (w : WithSingleStart) (i : Inlay Day) (t n : Int) (item : Item) : Prop where
  day_le : dayNr t ≤ n
  foreseen : max t (n * day) < foreseen t
  lt_never : n * day + item.begin_ < never
  none_before : ∀ m, dayNr t ≤ m → m < n → comingOn i m (timeOfDay (max t (m * day))) w = []
  first : ∃ as bs, comingOn i n (timeOfDay (max t (n * day))) w = as ++ item :: bs ∧
    (∀ q ∈ as, item.begin_ < q.begin_) ∧ ∀ q ∈ bs, item.begin_ ≤ q.begin_

theorem LeadsFor.mem (h : LeadsFor w i t n item) :
    item ∈ comingOn i n (timeOfDay (max t (n * day))) w := by
  obtain ⟨as, bs, hl, -⟩ := h.first
  rw [hl]
  simp

theorem LeadsFor.onDay (h : LeadsFor w i t n item) : OnDay i n item :=
  mem_itemsOf.mp (List.mem_of_mem_filter h.mem)

theorem LeadsFor.coming (h : LeadsFor w i t n item) :
    item.isComing (timeOfDay (max t (n * day))) w = true :=
  (List.mem_filter.mp h.mem).2

/-- A search finds one item only. -/
theorem LeadsFor.unique {n' : Int} {item' : Item} (h : LeadsFor w i t n item) (h' : LeadsFor w i t n' item') :
    n = n' ∧ item = item' := by
  have hle : ∀ {n n' : Int} {item item' : Item}, LeadsFor w i t n item → LeadsFor w i t n' item' →
      n ≤ n' := by
    intro n n' item item' h h'
    by_contra hlt
    obtain ⟨as, bs, hl, -⟩ := h'.first
    have hnil := h.none_before n' h'.day_le (lt_of_not_ge hlt)
    rw [hl] at hnil
    simp at hnil
  obtain rfl := le_antisymm (hle h h') (hle h' h)
  refine ⟨rfl, ?_⟩
  obtain ⟨as, bs, hl, has, hbs⟩ := h.first
  obtain ⟨as', bs', hl', has', hbs'⟩ := h'.first
  rw [hl] at hl'
  -- one of the two comes first, and then the other one is no first of the least
  rcases List.append_eq_append_iff.mp hl' with ⟨cs, hcs, hds⟩ | ⟨cs, hcs, hds⟩
  · cases cs with
    | nil => exact (List.cons.inj hds).1
    | cons c cs =>
        obtain ⟨rfl, hrest⟩ := List.cons.inj hds
        have h1 := has' item (by rw [hcs]; simp)
        have h2 := hbs item' (by rw [show bs = cs ++ item' :: bs' from hrest]; simp)
        omega
  · cases cs with
    | nil => exact (List.cons.inj hds).1.symm
    | cons c cs =>
        obtain ⟨rfl, hrest⟩ := List.cons.inj hds
        have h1 := has item' (by rw [hcs]; simp)
        have h2 := hbs' item (by rw [show bs' = cs ++ item :: bs from hrest]; simp)
        omega

/-- The search finds the period of the item that leads. -/
theorem exists_leadsFor (h : InRange i t) (hnone : ∀ n, i.holidays.isHoliday n = false)
    (hw : has w (wssNextAnyStart ||| wssNextSingleStart) = true)
    (hlt : (i.nextLocalPeriod t w never).begin_ < never) :
    ∃ n item, LeadsFor w i t n item ∧
      i.nextLocalPeriod t w never = periodOn n item := by
  obtain ⟨ht, htn, -⟩ := id h
  have hl := (limitedBefore_le (t := t) never (by omega) htn).1
  rw [Inlay.nextLocalPeriod] at hlt ⊢
  by_cases hc : t ≠ never ∧ i.isFilled = true
  · rw [if_pos hc] at hlt ⊢
    obtain ⟨n, hn, hnlim, heq, hbefore⟩ := searchDays_day _ h hnone hl rfl hlt
    have hmaxn : max t (n * day) < never := lt_of_lt_of_le hnlim hl
    have hday := dayNr_max (by omega) htn hn hmaxn
    have hbounds := dayNr_le (t := max t (n * day)) (by omega) (le_of_lt hmaxn)
    rw [hday] at hbounds
    rw [heq] at hlt ⊢
    rw [nextPeriodOfSameDay_eq_least (by omega) (le_of_lt hmaxn) hw, hday] at hlt ⊢
    obtain ⟨as, bs, hsplit, has, hbs⟩ := exists_split hlt
    obtain ⟨as', rest, hcoming, rfl, hrest⟩ := List.map_eq_append_iff.mp hsplit
    obtain ⟨item, bs', rfl, hitem, rfl⟩ := List.map_eq_cons_iff.mp hrest
    have hon : ∀ q ∈ comingOn i n (timeOfDay (max t (n * day))) w,
        (periodOn n q).begin_ = min (n * day + q.begin_) never := fun q hq =>
      begin_periodOn hbounds.1 hbounds.2 (mem_itemsOf.mp (List.mem_of_mem_filter hq))
    rw [← hitem] at hlt has hbs ⊢
    have hbegin := hon item (by rw [hcoming]; simp)
    have hinit : init.begin_ = never := rfl
    refine ⟨n, item, ⟨hn, hnlim, by omega, ?_, as', bs', hcoming, ?_, ?_⟩, rfl⟩
    · intro m hm hmn
      refine List.eq_nil_iff_forall_not_mem.mpr ?_
      intro q hq
      have hlast : m * day + day ≤ n * day := by
        rw [day_eq]
        omega
      have hmaxm : max t (m * day) < never := by
        rw [day_eq] at *
        omega
      have hdaym := dayNr_max (by omega) htn hm hmaxm
      have hb := q.begin_bounds (mem_itemsOf.mp (List.mem_of_mem_filter hq))
      have hfound : m * day + q.begin_ ∈ Found i (max t (m * day)) w := by
        refine ⟨q, ?_, (List.mem_filter.mp hq).2, by rw [hdaym]⟩
        rw [hdaym]
        exact mem_itemsOf.mp (List.mem_of_mem_filter hq)
      have hle := (nextPeriodOfSameDay_leastOr (by omega) (le_of_lt hmaxm)).le _ hfound
      rw [hbefore m hm hmn] at hle
      omega
    · intro q hq
      have h1 := has _ (List.mem_map_of_mem hq)
      rw [hbegin, hon q (by rw [hcoming]; simp [hq])] at h1
      omega
    · intro q hq
      have h1 := hbs _ (List.mem_map_of_mem hq)
      rw [hbegin, hon q (by rw [hcoming]; simp [hq])] at h1
      omega
  · rw [if_neg hc] at hlt
    exact absurd hlt (lt_irrefl _)

/-- Where an item leads, a period is found. -/
theorem begin_lt_of_leadsFor (h : InRange i t) (hnone : ∀ n, i.holidays.isHoliday n = false)
    (hleads : LeadsFor w i t n item) :
    (i.nextLocalPeriod t w never).begin_ < never := by
  obtain ⟨ht, htn, -⟩ := id h
  have hl := (limitedBefore_le (t := t) never (by omega) htn).1
  have hlim := hleads.foreseen
  have hmaxn : max t (n * day) < never := lt_of_lt_of_le hlim hl
  have hday := dayNr_max (by omega) htn hleads.day_le hmaxn
  have hdue : n * day + item.begin_ ∈ Due i w (Inlay.limitedBefore t never) t := by
    refine ⟨n, hleads.day_le, hlim, ?_⟩
    rw [Searched, hnone, if_neg Bool.false_ne_true, Found, hday]
    exact Or.inl (Or.inl ⟨item, hleads.onDay, hleads.coming, rfl⟩)
  have := (nextLocalPeriod_leastOr never h).le _ hdue
  have := hleads.lt_never
  omega

/-- The item whose period is told: on the first day on which something is coming,
    the first one of the least begin. -/
structure Leads (i : Inlay Day) (t n : Int) (item : Item) : Prop where
  day_le : dayNr t ≤ n
  foreseen : max t (n * day) < foreseen t
  lt_never : n * day + item.begin_ < never
  none_before : ∀ m, dayNr t ≤ m → m < n →
    comingOn i m (timeOfDay (max t (m * day))) wssNextAnyStart = []
  first : ∃ as bs, comingOn i n (timeOfDay (max t (n * day))) wssNextAnyStart
      = as ++ item :: bs ∧
    (∀ q ∈ as, item.begin_ < q.begin_) ∧ ∀ q ∈ bs, item.begin_ ≤ q.begin_

theorem leads_iff : Leads i t n item ↔ LeadsFor wssNextAnyStart i t n item :=
  ⟨fun h => ⟨h.day_le, h.foreseen, h.lt_never, h.none_before, h.first⟩,
    fun h => ⟨h.day_le, h.foreseen, h.lt_never, h.none_before, h.first⟩⟩

theorem Leads.onDay (h : Leads i t n item) : OnDay i n item := (leads_iff.mp h).onDay

theorem Leads.coming (h : Leads i t n item) :
    item.isComing (timeOfDay (max t (n * day))) wssNextAnyStart = true :=
  (leads_iff.mp h).coming

/-- Only one item leads. -/
theorem Leads.unique {n' : Int} {item' : Item} (h : Leads i t n item) (h' : Leads i t n' item') :
    n = n' ∧ item = item' :=
  (leads_iff.mp h).unique (leads_iff.mp h')

/-- The search gives the period of the item that leads. -/
theorem exists_leads (h : InRange i t) (hnone : ∀ n, i.holidays.isHoliday n = false)
    (hlt : (i.nextLocalPeriod t wssNextAnyStart never).begin_ < never) :
    ∃ n item, Leads i t n item ∧
      i.nextLocalPeriod t wssNextAnyStart never = periodOn n item := by
  obtain ⟨n, item, hleads, heq⟩ := exists_leadsFor h hnone (by decide) hlt
  exact ⟨n, item, leads_iff.mpr hleads, heq⟩

theorem begin_lt_of_leads (h : InRange i t) (hnone : ∀ n, i.holidays.isHoliday n = false)
    (hleads : Leads i t n item) :
    (i.nextLocalPeriod t wssNextAnyStart never).begin_ < never :=
  begin_lt_of_leadsFor h hnone (leads_iff.mp hleads)

end ScheduleUse
