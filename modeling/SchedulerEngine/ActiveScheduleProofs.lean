import Mathlib.Data.List.Nodup
import SchedulerEngine.HolidayStartsProofs
import SchedulerEngine.CoveringScheduleProofs

/-! # The schedule that is active

    The search of a schedule with substitutes is a walk along the intervals in
    which one schedule is active.  The period found belongs to the schedule that
    is active at its begin, unless it is a single start that began before the
    interval. -/

namespace ActiveSchedule

open SchedulerTime SchedulePeriod ScheduleInlay ScheduleSearch LeftmostLeast Timeline
open CoveringSchedule

variable {s : Schedule} {t u v x before lo hi : Int} {w : WithSingleStart} {i : Inlay Day}
  {seg : Segment Covering Int}

/-! ## The walk -/

/-- The search ends, and gives what the first interval with a period gives. -/
theorem nextLocalPeriod_eq (h0 : 0 ≤ t) (ht : t ≤ never) :
    s.nextLocalPeriod t w before = some (s.firstOf t w before s.intervals) := by
  have happ := upperBound_append s t
  have hcov := covers s
  have hafter : ∀ c ∈ (s.upperBound t).2, t < c.begin_ := fun c hc => lt_begin_of_mem_after hc
  rw [Schedule.nextLocalPeriod, Schedule.intervals]
  rcases List.eq_nil_or_concat (s.upperBound t).1 with hnil | ⟨pre, c, hpre⟩
  · rw [hnil, List.nil_append] at happ
    rw [hnil, ← happ]
    rw [← happ] at hcov
    refine searchLoop_of_uncovered rfl (max_eq_left h0).symm hcov ?_ hafter (by decide) ht
    intro c hc
    have := hafter c hc
    omega
  · rw [List.concat_eq_append] at hpre
    have hc : c.begin_ ≤ t := begin_le_of_mem_before (s := s) (by rw [hpre]; simp)
    rw [hpre, List.append_assoc, List.singleton_append] at happ
    rw [← happ] at hcov
    have hrest : Covers Covering.begin_ Covering.end_ never (c :: (s.upperBound t).2) := by
      refine ⟨fun d _ => d.begin_lt, fun d _ => d.end_le, ?_⟩
      exact (List.pairwise_append.mp hcov.disjoint).2.1
    -- what is over before `c` cannot be a hit
    have hfrom : s.firstOf t w before s.intervals = s.firstOf t w before
        (⟨c.begin_, c.end_, some c⟩ ::
          timeline Covering.begin_ Covering.end_ never c.end_ (s.upperBound t).2) := by
      rw [Schedule.firstOf, Schedule.intervals, ← happ, find?_from pre hcov]
      · rfl
      · intro seg hseg
        cases hh : s.hits t w before seg with
        | false => rfl
        | true =>
            have := (hits_iff.mp hh).1
            omega
    rw [Schedule.intervals] at hfrom
    rw [hfrom, hpre, List.getLast?_concat]
    by_cases hend : t < c.end_
    · have hself : searchCovered w before t (some c) = _ := searchCovered_self c hc hend
      have hsel : s.select t w before ⟨c.begin_, c.end_, some c⟩
          = c.inlay.nextLocalPeriod t w before := by
        rw [Schedule.select, max_eq_left hc]
        rfl
      by_cases hper : (c.inlay.nextLocalPeriod t w before).begin_ < c.end_
      · rw [if_pos hper] at hself
        rw [firstOf_cons_pos (hits_iff.mpr ⟨hend, by rw [hsel]; exact hper⟩),
          searchLoop_of_hit (searchTurn_of_covered hself), Schedule.hitOf, hsel]
        rfl
      · rw [if_neg hper] at hself
        rw [firstOf_cons_neg fun h => hper (by rw [hits_iff, hsel] at h; exact h.2)]
        exact searchLoop_of_uncovered hself (max_eq_right (le_of_lt hend)).symm hrest.tail
          (fun d hd => hrest.hi_le hd) hafter c.end_le ht
    · have hover := le_of_not_gt hend
      rw [firstOf_cons_neg fun h => hend (hits_iff.mp h).1]
      exact searchLoop_of_uncovered (searchCovered_over c hover) (max_eq_left hover).symm
        hrest.tail (fun d hd => hrest.hi_le hd) hafter c.end_le ht

/-! ## Intervals of activity -/

/-- A maximal interval in which one schedule is active, around the time `u`. -/
structure ActiveInterval (s : Schedule) (u lo hi : Int) : Prop where
  lo_le : lo ≤ u
  lt_hi : u < hi
  le_never : hi ≤ never
  same : ∀ v, lo ≤ v → v < hi → s.activeScheduleAt v = s.activeScheduleAt u
  maximal : ∀ a b, 0 ≤ a → a ≤ u → u < b → b ≤ never →
    (∀ v, a ≤ v → v < b → s.activeScheduleAt v = s.activeScheduleAt u) → lo ≤ a ∧ b ≤ hi

theorem active_of_mem (hmem : seg ∈ s.intervals) (hlo : seg.lo ≤ u) (hhi : u < seg.hi) :
    s.activeScheduleAt u = seg.cover := by
  rw [activeScheduleAt_eq]
  exact coverAt_of_mem (covers s) hmem hlo hhi

theorem activeInterval_of_mem (hmem : seg ∈ s.intervals) (hlo : seg.lo ≤ u) (hhi : u < seg.hi) :
    ActiveInterval s u seg.lo seg.hi := by
  have hseg := isSegment_of_mem (covers s) hmem
  refine ⟨hlo, hhi, hseg.le_top, ?_, ?_⟩
  · intro v hv hv'
    rw [active_of_mem hmem hv hv', active_of_mem hmem hlo hhi]
  · intro a b ha hau hub hb hsame
    refine segment_maximal (covers s) hmem hlo hhi ha hb hau hub ?_
    intro v hv hv'
    rw [← activeScheduleAt_eq, ← activeScheduleAt_eq]
    exact hsame v hv hv'

/-- There is only one such interval, as far as it lies after the begin of time. -/
theorem ActiveInterval.unique {lo' hi' : Int} (h : ActiveInterval s u lo hi)
    (h' : ActiveInterval s u lo' hi') (h0 : 0 ≤ u) : hi = hi' ∧ max lo 0 = max lo' 0 := by
  have hle : ∀ {lo hi lo' hi' : Int}, ActiveInterval s u lo hi → ActiveInterval s u lo' hi' →
      lo ≤ max lo' 0 ∧ hi' ≤ hi := by
    intro lo hi lo' hi' h h'
    have := h'.lo_le
    refine h.maximal _ _ (le_max_right _ _) (by omega) h'.lt_hi h'.le_never ?_
    intro v hv hv'
    exact h'.same v (by omega) hv'
  have h1 := hle h h'
  have h2 := hle h' h
  omega

theorem exists_interval (h0 : 0 ≤ u) (hu : u < never) :
    ∃ seg ∈ s.intervals, seg.lo ≤ u ∧ u < seg.hi :=
  exists_segment (covers s) h0 hu

/-- The names of the schedules differ. -/
theorem pathOf_injective {a b : Option Covering} (ha : ∀ c, a = some c → c ∈ s.coverings.toList)
    (hb : ∀ c, b = some c → c ∈ s.coverings.toList) (h : s.pathOf a = s.pathOf b) : a = b := by
  obtain ⟨hnot, hnodup⟩ := List.nodup_cons.mp s.paths
  have hne : ∀ c ∈ s.coverings.toList, s.path ≠ c.path := by
    intro c hc heq
    rw [heq] at hnot
    exact hnot (List.mem_map_of_mem hc)
  cases a with
  | none =>
      cases b with
      | none => rfl
      | some d => exact absurd h (hne d (hb d rfl))
  | some c =>
      cases b with
      | none => exact absurd h.symm (hne c (ha c rfl))
      | some d =>
          rw [List.inj_on_of_nodup_map hnodup (ha c rfl) (hb d rfl) h]

theorem active_mem (s : Schedule) (u : Int) :
    ∀ c, s.activeScheduleAt u = some c → c ∈ s.coverings.toList := by
  intro c hc
  rw [activeScheduleAt_eq, coverAt_eq_some (covers s)] at hc
  exact hc.1

/-! ## From a later time on less is found -/

theorem found_antitone (h0 : 0 ≤ t) (htu : t ≤ u) (hu : u ≤ never) (hday : dayNr t = dayNr u)
    (hx : x ∈ Found i u w) : x ∈ Found i t w := by
  have h1 := dayNr_timeOfDay h0 (le_trans htu hu)
  have h2 := dayNr_timeOfDay (le_trans h0 htu) hu
  obtain ⟨item, hon, hc, rfl⟩ := hx
  rw [hday] at h1
  refine ⟨item, by rw [hday]; exact hon, ?_, by rw [hday]⟩
  exact HolidayShift.isComing_antitone item h1.2.1 (by omega)
    (le_trans (le_of_lt h2.2.2) (by decide)) hc

/-- What is found on another day, from the same time of day on. -/
theorem found_shift_antitone (k : Int) (h0 : 0 ≤ t) (htu : t ≤ u) (hu : u ≤ never)
    (hday : dayNr t = dayNr u) (hk : 0 ≤ t + k * day) (hk' : u + k * day ≤ never)
    (hx : x ∈ Found i (u + k * day) w) : x ∈ Found i (t + k * day) w := by
  refine found_antitone hk (by omega) hk' ?_ hx
  rw [(dayNr_shift k h0 (by omega) hk (by omega)).1,
    (dayNr_shift k (by omega) hu (by omega) hk').1, hday]

theorem searched_antitone (hin : InRange i t) (htu : t ≤ u) (hu : u < never)
    (hday : dayNr t = dayNr u) (hx : x ∈ Searched i u w) : x ∈ Searched i t w := by
  obtain ⟨h0, -, hdom⟩ := hin
  rw [Searched, ← hday] at hx
  rw [Searched]
  cases hhol : i.holidays.isHoliday (dayNr t) with
  | true =>
      rw [hhol, if_pos rfl] at hx
      rw [if_pos rfl]
      exact found_antitone (by omega) htu (le_of_lt hu) hday hx
  | false =>
      rw [hhol, if_neg Bool.false_ne_true] at hx
      rw [if_neg Bool.false_ne_true]
      rcases hx with (hx | ⟨k, hk, hk20, hall, y, hy, hyn, hxy⟩) |
        ⟨k, hk, hk20, hall, y, hy, hyn, hxy⟩
      · exact Or.inl (Or.inl (found_antitone (by omega) htu (le_of_lt hu) hday hx))
      · have hfar : 21 * day ≤ t := by
          refine hdom.resolve_right fun hnone => ?_
          have := hall 1 (le_refl _) hk
          rw [hnone] at this
          cases this
        have hneg : ∀ z : Int, z - k * day = z + -k * day := by
          intro z
          rw [Int.neg_mul]
          omega
        rw [Inlay.foreseeYears] at hk20
        rw [day_eq] at hfar
        refine Or.inl (Or.inr ⟨k, hk, by rw [Inlay.foreseeYears]; exact hk20, hall, y, ?_, hyn, hxy⟩)
        rw [hneg] at hy ⊢
        exact found_shift_antitone (-k) (by omega) htu (le_of_lt hu) hday
          (by rw [day_eq]; omega) (by rw [day_eq]; omega) hy
      · have hlt := (hall k hk (le_refl k)).1
        refine Or.inr ⟨k, hk, hk20, ?_, y, ?_, hyn, hxy⟩
        · intro j hj hjk
          obtain ⟨h1, h2⟩ := hall j hj hjk
          exact ⟨by omega, h2⟩
        · exact found_shift_antitone k (by omega) htu (le_of_lt hu) hday
            (by rw [day_eq]; omega) (le_of_lt hlt) hy

theorem due_antitone {limited : Int} (hin : InRange i t) (htu : t ≤ u) (hu : u ≤ never)
    (hl : limited ≤ never) (hx : x ∈ Due i w limited u) : x ∈ Due i w limited t := by
  obtain ⟨d, hd, hlim, hx⟩ := hx
  have h0 : 0 ≤ t := by
    have := hin.1
    omega
  have hd' : dayNr t ≤ d := le_trans (dayNr_mono h0 htu hu) hd
  refine ⟨d, hd', by omega, ?_⟩
  refine searched_antitone (hin.mono (le_max_left _ _) (by omega)) (by omega) (by omega) ?_ hx
  rw [HolidayShift.dayNr_max h0 hin.2.1 hd' (by omega),
    HolidayShift.dayNr_max (by omega) hu hd (by omega)]

theorem due_nonneg {limited : Int} (h0 : 0 ≤ u) (hu : u ≤ never) (hin : InRange i u)
    (hl : limited ≤ never) (hx : x ∈ Due i w limited u) : 0 ≤ x := by
  obtain ⟨d, hd, hlim, hx⟩ := hx
  have h := searched_bounds (hin.mono (le_max_left _ _) (by omega)) (by omega) hx
  have hn := (dayNr_le h0 hu).1
  rw [HolidayShift.dayNr_max h0 hu hd (by omega), day_eq] at h
  omega

/-! ## The earliest period of the active schedules -/

/-- The inlays of all the schedules may be searched from `t` on. -/
def AllInRange (s : Schedule) (t : Int) : Prop :=
  InRange s.inlay t ∧ ∀ c ∈ s.coverings.toList, InRange c.inlay t

/-- The result `r` of a search from `t` on is the earliest period as selected by
    the schedule that is active there. -/
structure EarliestOfActive (s : Schedule) (t : Int) (w : WithSingleStart) (before : Int)
    (r : Period) : Prop where
  /-- A schedule that is active at the begin has selected the period, gives its
      name, and the period is cut to the interval. -/
  produced : r.empty = false → ∃ v p lo hi, t ≤ v ∧
    s.activeScheduleAt v = s.activeScheduleAt (max t r.begin_) ∧
    ActiveInterval s (max t r.begin_) lo hi ∧
    p = (s.inlayOf (s.activeScheduleAt (max t r.begin_))).nextLocalPeriod v w before ∧
    r.schedulePath = s.pathOf (s.activeScheduleAt (max t r.begin_)) ∧
    r = if p.singleStart then { p with schedulePath := r.schedulePath }
      else { p with
        schedulePath := r.schedulePath
        absoluteRepeatBegin := p.begin_
        begin_ := max p.begin_ lo
        end_ := min p.end_ hi }
  /-- What the schedule that is active at `u` has from there on, in its interval,
      is not skipped. -/
  first : ∀ u lo hi x, t ≤ u → u < never → ActiveInterval s u lo hi →
    x ∈ Due (s.inlayOf (s.activeScheduleAt u)) w (Inlay.limitedBefore (max t lo) before) u →
    x < hi → r.begin_ ≤ max x lo

/-- At its begin `lo`, the first schedule that has a period selects a single start
    that began before, when another schedule was active. -/
structure Straddles (s : Schedule) (t : Int) (w : WithSingleStart) (before lo : Int) : Prop where
  later : t < lo
  begins : ∃ hi, ActiveInterval s lo lo hi
  single : ((s.inlayOf (s.activeScheduleAt lo)).nextLocalPeriod lo w before).singleStart = true
  begin_lt : ((s.inlayOf (s.activeScheduleAt lo)).nextLocalPeriod lo w before).begin_ < lo
  other : s.activeScheduleAt
    (max t ((s.inlayOf (s.activeScheduleAt lo)).nextLocalPeriod lo w before).begin_)
      ≠ s.activeScheduleAt lo
  first : ∀ u lo' hi', t ≤ u → u < lo → ActiveInterval s u lo' hi' →
    hi' ≤ ((s.inlayOf (s.activeScheduleAt u)).nextLocalPeriod (max t lo') w before).begin_

theorem AllInRange.of_active (h : AllInRange s t) (u : Int) :
    InRange (s.inlayOf (s.activeScheduleAt u)) t := by
  cases ha : s.activeScheduleAt u with
  | none => exact h.1
  | some c => exact h.2 c (active_mem s u c ha)

theorem AllInRange.bounds (h : AllInRange s t) : 1000 ≤ t ∧ t ≤ never := ⟨h.1.1, h.1.2.1⟩

/-- What an interval selects does not depend on how its begin is told. -/
theorem select_eq (w : WithSingleStart) (before : Int) (h0 : 0 ≤ t) (htu : t ≤ u) (hmem : seg ∈ s.intervals) (hlo : seg.lo ≤ u)
    (hhi : u < seg.hi) (hai : ActiveInterval s u lo hi) :
    hi = seg.hi ∧ max lo 0 = max seg.lo 0 ∧
      s.select t w before seg
        = (s.inlayOf (s.activeScheduleAt u)).nextLocalPeriod (max t lo) w before := by
  obtain ⟨h1, h2⟩ := hai.unique (activeInterval_of_mem hmem hlo hhi) (by omega)
  refine ⟨h1, h2, ?_⟩
  rw [Schedule.select, active_of_mem hmem hlo hhi, show max t seg.lo = max t lo by omega]

/-- What is due in an interval begins not before what the interval selects. -/
theorem select_le (h : AllInRange s t) (htu : t ≤ u) (hu : u < never) (hmem : seg ∈ s.intervals)
    (hlo : seg.lo ≤ u) (hhi : u < seg.hi) (hai : ActiveInterval s u lo hi)
    (hx : x ∈ Due (s.inlayOf (s.activeScheduleAt u)) w
      (Inlay.limitedBefore (max t lo) before) u) :
    (s.select t w before seg).begin_ ≤ x := by
  obtain ⟨ht, htn⟩ := h.bounds
  obtain ⟨-, -, hsel⟩ := select_eq w before (by omega) htu hmem hlo hhi hai
  have hlou := hai.lo_le
  have hin : InRange (s.inlayOf (s.activeScheduleAt u)) (max t lo) :=
    (h.of_active u).mono (le_max_left _ _) (by omega)
  have hlim := (limitedBefore_le before (t := max t lo) (by omega) (by omega)).1
  rw [hsel]
  exact (nextLocalPeriod_leastOr before hin).le x
    (due_antitone hin (by omega) (le_of_lt hu) hlim hx)

theorem clip_eq {p : Period} {path : String} {lo hi : Int} :
    Hit.clip ⟨{ p with schedulePath := path }, lo, hi⟩
      = if p.singleStart then { p with schedulePath := path }
        else { p with
          schedulePath := path
          absoluteRepeatBegin := p.begin_
          begin_ := max p.begin_ lo
          end_ := min p.end_ hi } := by
  have hb : (if p.begin_ < lo then lo else p.begin_) = max p.begin_ lo := by
    split <;> omega
  have he : (if hi < p.end_ then hi else p.end_) = min p.end_ hi := by
    split <;> omega
  rw [Hit.clip]
  simp only [hb, he]

/-- The begin of what an interval gives. -/
theorem begin_hitOf (s : Schedule) (t : Int) (w : WithSingleStart) (before : Int)
    (seg : Segment Covering Int) :
    (s.hitOf t w before seg).clip.begin_
      = if (s.select t w before seg).singleStart then (s.select t w before seg).begin_
        else max (s.select t w before seg).begin_ seg.lo := by
  rw [Schedule.hitOf, clip_eq]
  split <;> rfl

theorem begin_hitOf_lt (hmem : seg ∈ s.intervals) (hh : s.hits t w before seg = true) :
    (s.hitOf t w before seg).clip.begin_ < seg.hi := by
  have hlt := (isSegment_of_mem (covers s) hmem).lt
  have := (hits_iff.mp hh).2
  rw [begin_hitOf]
  split <;> omega

/-- Where the first hit stands among the intervals. -/
theorem position {segs segs' : List (Segment Covering Int)} {seg' : Segment Covering Int}
    (hs : s.intervals = segs ++ seg :: segs') (hmem : seg' ∈ s.intervals) :
    (seg' ∈ segs ∧ seg'.hi ≤ seg.lo) ∨ seg' = seg ∨ seg.hi ≤ seg'.lo := by
  have hpair := timeline_pairwise (a := 0) (covers s)
  have hs' : timeline Covering.begin_ Covering.end_ never 0 s.coverings.toList
      = segs ++ seg :: segs' := hs
  rw [hs', List.pairwise_append] at hpair
  obtain ⟨-, htail, hcross⟩ := hpair
  rw [hs] at hmem
  rcases List.mem_append.mp hmem with hmem | hmem
  · exact Or.inl ⟨hmem, hcross seg' hmem seg List.mem_cons_self⟩
  · rcases List.mem_cons.mp hmem with rfl | hmem
    · exact Or.inr (Or.inl rfl)
    · exact Or.inr (Or.inr ((List.pairwise_cons.mp htail).1 seg' hmem))

/-- Nothing that a schedule has while it is active is skipped. -/
theorem firstOf_le (h : AllInRange s t) (htu : t ≤ u) (hu : u < never)
    (hai : ActiveInterval s u lo hi)
    (hx : x ∈ Due (s.inlayOf (s.activeScheduleAt u)) w
      (Inlay.limitedBefore (max t lo) before) u) (hxhi : x < hi) :
    (s.firstOf t w before s.intervals).begin_ ≤ max x lo := by
  obtain ⟨ht, htn⟩ := h.bounds
  obtain ⟨seg', hmem', hlo', hhi'⟩ := exists_interval (s := s) (u := u) (by omega) hu
  obtain ⟨hhi, hlomax, -⟩ :=
    select_eq w before (by omega) htu hmem' hlo' hhi' hai
  have hsel := select_le h htu hu hmem' hlo' hhi' hai hx
  have hx0 : 0 ≤ x := by
    have hin := (h.of_active u).mono htu (le_of_lt hu)
    have hlou := hai.lo_le
    exact due_nonneg (by omega) (le_of_lt hu) hin
      (limitedBefore_le before (t := max t lo) (by omega) (by omega)).1 hx
  -- the interval around `u` is a hit, since `x` begins in it
  have hhit : s.hits t w before seg' = true := hits_iff.mpr ⟨by omega, by omega⟩
  rw [Schedule.firstOf]
  cases hf : s.intervals.find? (s.hits t w before) with
  | none => exact absurd hhit (List.find?_eq_none.mp hf seg' hmem')
  | some seg =>
      rw [Option.map_some, Option.getD_some]
      obtain ⟨hh, segs, segs', hs, hnot⟩ := List.find?_eq_some_iff_append.mp hf
      rcases position hs hmem' with ⟨hin, -⟩ | rfl | hafter
      · have := hnot seg' hin
        rw [hhit] at this
        cases this
      · rw [begin_hitOf]
        split <;> omega
      · have := begin_hitOf_lt (List.mem_of_find?_eq_some hf) hh
        omega

/-- Unless a single start straddles, the schedule that is active at the begin has
    selected the period. -/
theorem firstOf_produced (h : AllInRange s t) (hno : ∀ lo, ¬Straddles s t w before lo)
    (hne : (s.firstOf t w before s.intervals).empty = false) :
    ∃ v p lo hi, t ≤ v ∧
      s.activeScheduleAt v
        = s.activeScheduleAt (max t (s.firstOf t w before s.intervals).begin_) ∧
      ActiveInterval s (max t (s.firstOf t w before s.intervals).begin_) lo hi ∧
      p = (s.inlayOf (s.activeScheduleAt
        (max t (s.firstOf t w before s.intervals).begin_))).nextLocalPeriod v w before ∧
      s.firstOf t w before s.intervals = Hit.clip ⟨{ p with
        schedulePath := s.pathOf (s.activeScheduleAt
          (max t (s.firstOf t w before s.intervals).begin_)) }, lo, hi⟩ := by
  obtain ⟨ht, htn⟩ := h.bounds
  rw [Schedule.firstOf] at hne ⊢
  cases hf : s.intervals.find? (s.hits t w before) with
  | none =>
      rw [hf] at hne
      cases hne
  | some seg =>
      rw [Option.map_some, Option.getD_some]
      have hmem := List.mem_of_find?_eq_some hf
      obtain ⟨hh, segs, segs', hs, hnot⟩ := List.find?_eq_some_iff_append.mp hf
      obtain ⟨hthi, hselhi⟩ := hits_iff.mp hh
      have hbegin := begin_hitOf s t w before seg
      have hlt := begin_hitOf_lt hmem hh
      by_cases hcase : (s.select t w before seg).singleStart = true ∧ t < seg.lo ∧
          (s.select t w before seg).begin_ < seg.lo
      · obtain ⟨hsingle, hlater, hbefore⟩ := hcase
        have hle := isSegment_of_mem (covers s) hmem
        have hlo : s.activeScheduleAt seg.lo = seg.cover := active_of_mem hmem (le_refl _) hle.lt
        have hsel : (s.inlayOf (s.activeScheduleAt seg.lo)).nextLocalPeriod seg.lo w before
            = s.select t w before seg := by
          rw [Schedule.select, hlo, max_eq_right (le_of_lt hlater)]
        rw [if_pos hsingle] at hbegin
        have hother : s.activeScheduleAt (max t (s.select t w before seg).begin_)
            = s.activeScheduleAt seg.lo := by
          by_contra hother
          refine hno seg.lo ⟨hlater, ⟨seg.hi, activeInterval_of_mem hmem (le_refl _) hle.lt⟩,
            ?_, ?_, ?_, ?_⟩
          · rw [hsel]
            exact hsingle
          · rw [hsel]
            exact hbefore
          · rw [hsel]
            exact hother
          · intro u lo' hi' htu hulo hai
            have hend := hle.le_top
            have hltop := hle.lt
            obtain ⟨seg', hmem', hlo', hhi'⟩ :=
              exists_interval (s := s) (u := u) (by omega) (by omega)
            obtain ⟨hhi, -, hsel'⟩ :=
              select_eq w before (by omega) htu hmem' hlo' hhi' hai
            rcases position hs hmem' with ⟨hin, -⟩ | rfl | hafter
            · have hnh := hnot seg' hin
              by_contra hcon
              rw [← hsel', hhi] at hcon
              rw [hits_iff.mpr ⟨by omega, by omega⟩] at hnh
              cases hnh
            · omega
            · omega
        have hend := hle.le_top
        have hltop := hle.lt
        obtain ⟨seg0, hmem0, hlo0, hhi0⟩ := exists_interval (s := s)
          (u := max t (s.select t w before seg).begin_) (by omega) (by omega)
        refine ⟨seg.lo, s.select t w before seg, seg0.lo, seg0.hi, le_of_lt hlater, ?_, ?_, ?_, ?_⟩
        · rw [hbegin, hother]
        · rw [hbegin]
          exact activeInterval_of_mem hmem0 hlo0 hhi0
        · rw [hbegin, hother, hsel]
        · rw [hbegin, hother, hlo, Schedule.hitOf, clip_eq, clip_eq, if_pos hsingle, if_pos hsingle]
      · -- the begin lies in the interval of the hit
        have hin : seg.lo ≤ max t (s.hitOf t w before seg).clip.begin_ := by
          rw [hbegin]
          by_cases hsingle : (s.select t w before seg).singleStart = true
          · rw [if_pos hsingle]
            have := not_and.mp hcase hsingle
            omega
          · rw [if_neg hsingle]
            omega
        have hactive := active_of_mem hmem hin (by omega)
        refine ⟨max t seg.lo, s.select t w before seg, seg.lo, seg.hi, le_max_left _ _, ?_,
          activeInterval_of_mem hmem hin (by omega), ?_, ?_⟩
        · rw [hactive]
          have hlt' := (isSegment_of_mem (covers s) hmem).lt
          exact active_of_mem hmem (le_max_right _ _) (by omega)
        · rw [hactive]
          rfl
        · rw [hactive]
          rfl

/-- A single start that straddles is told with the name of a schedule that is not
    active at its begin. -/
theorem firstOf_of_straddles (h : AllInRange s t) (hs : Straddles s t w before lo) :
    (s.firstOf t w before s.intervals).begin_ < never ∧
    (s.firstOf t w before s.intervals).begin_
      = ((s.inlayOf (s.activeScheduleAt lo)).nextLocalPeriod lo w before).begin_ ∧
    (s.firstOf t w before s.intervals).schedulePath = s.pathOf (s.activeScheduleAt lo) := by
  obtain ⟨ht, htn⟩ := h.bounds
  obtain ⟨hlater, ⟨hi, hai⟩, hsingle, hbefore, hother, hfirst⟩ := hs
  have hlohi := hai.lt_hi
  have hhin := hai.le_never
  obtain ⟨seg, hmem, hlo, hhi⟩ := exists_interval (s := s) (u := lo) (by omega) (by omega)
  obtain ⟨hhi', hlomax, hsel⟩ :=
    select_eq w before (by omega) (le_of_lt hlater) hmem hlo hhi hai
  rw [max_eq_right (le_of_lt hlater)] at hsel
  have hactive := active_of_mem hmem hlo hhi
  have hhit : s.hits t w before seg = true := by
    refine hits_iff.mpr ⟨by omega, ?_⟩
    rw [hsel]
    omega
  have hf : s.intervals.find? (s.hits t w before) = some seg := by
    cases hf : s.intervals.find? (s.hits t w before) with
    | none => exact absurd hhit (List.find?_eq_none.mp hf seg hmem)
    | some seg1 =>
        obtain ⟨hh, segs, segs', hs, hnot⟩ := List.find?_eq_some_iff_append.mp hf
        rcases position hs hmem with ⟨hin, -⟩ | rfl | hafter
        · have := hnot seg hin
          rw [hhit] at this
          cases this
        · rfl
        · -- an earlier hit is excluded
          obtain ⟨h1, h2⟩ := hits_iff.mp hh
          have hmem1 := List.mem_of_find?_eq_some hf
          have hlt1 := (isSegment_of_mem (covers s) hmem1).lt
          have hai1 := activeInterval_of_mem (u := max t seg1.lo) hmem1 (le_max_right _ _)
            (by omega)
          have hle := hfirst (max t seg1.lo) seg1.lo seg1.hi (le_max_left _ _) (by omega) hai1
          rw [active_of_mem hmem1 (le_max_right _ _) (by omega)] at hle
          exact absurd h2 (not_lt_of_ge hle)
  have hbegin := begin_hitOf s t w before seg
  rw [hsel, if_pos hsingle] at hbegin
  rw [Schedule.firstOf, hf, Option.map_some, Option.getD_some]
  refine ⟨by omega, hbegin, ?_⟩
  rw [Schedule.hitOf, clip_eq, hsel, if_pos hsingle, hactive]

/-- The result is the earliest period as selected by the schedule that is active
    there, unless a single start straddles the begin of an interval. -/
theorem earliestOfActive_iff (h : AllInRange s t) :
    (∃ r, s.nextLocalPeriod t w before = some r ∧ EarliestOfActive s t w before r) ↔
      ∀ lo, ¬Straddles s t w before lo := by
  obtain ⟨ht, htn⟩ := h.bounds
  have heq : s.nextLocalPeriod t w before = some (s.firstOf t w before s.intervals) :=
    nextLocalPeriod_eq (by omega) htn
  constructor
  · rintro ⟨r, hr, he⟩ lo hs
    rw [heq, Option.some_inj] at hr
    subst hr
    obtain ⟨hlt, hbegin, hpath⟩ := firstOf_of_straddles h hs
    obtain ⟨v, p, a, b, -, -, -, -, hname, -⟩ :=
      he.produced (decide_eq_false (ne_of_lt hlt))
    rw [hpath, hbegin] at hname
    exact hs.other (pathOf_injective (active_mem s _) (active_mem s _) hname).symm
  · intro hno
    refine ⟨_, heq, ?_, ?_⟩
    · intro hne
      obtain ⟨v, p, a, b, hv, hav, hai, hp, hclip⟩ := firstOf_produced h hno hne
      rw [clip_eq] at hclip
      have hname : (s.firstOf t w before s.intervals).schedulePath = s.pathOf
          (s.activeScheduleAt (max t (s.firstOf t w before s.intervals).begin_)) := by
        rw [congrArg Period.schedulePath hclip]
        split <;> rfl
      refine ⟨v, p, a, b, hv, hav, hai, hp, hname, ?_⟩
      rw [hname]
      exact hclip
    · intro u a b x htu hu hai hx hxb
      exact firstOf_le h htu hu hai hx hxb

/-! ## A single start that straddles -/

/-- A single start at 08:00 that starts an order once. -/
def eightElement : PeriodElement := { singleStart := some 28800, startOnce := some true }

def eightPeriod : Period :=
  { init.setSingleStart 28800000 with end_ := 86400000, startOnce := true }

theorem setDom_eight : init.setDom eightElement = .ok eightPeriod := by decide +kernel

def eight : DayPeriod := ⟨eightPeriod, Period.setDom_checked Period.default_init setDom_eight⟩

/-- It covers the base schedule from noon of the day 100 on. -/
def fromNoon : Covering where
  path := "/substitute"
  begin_ := 100 * day + 43200000
  end_ := 200 * day
  inlay := HolidayStarts.datesOnly [⟨100, KeySet.ofList _ [eight]⟩] ⟨[], fun _ => false⟩
  begin_lt := by decide
  end_le := by decide

def substituted : Schedule where
  path := "/base"
  inlay := HolidayStarts.datesOnly [] ⟨[], fun _ => false⟩
  coverings := KeySet.ofList _ [fromNoon]
  disjoint := List.pairwise_singleton _ _
  paths := by decide

theorem substituted_inRange : AllInRange substituted (100 * day) := by
  refine ⟨⟨by decide, by decide, Or.inl (by decide)⟩, ?_⟩
  intro c hc
  rw [List.mem_singleton.mp hc]
  exact ⟨by decide, by decide, Or.inl (by decide)⟩

theorem substituted_next :
    (substituted.nextLocalPeriod (100 * day) wssNextAnyStart never).map
        (fun r => (r.begin_, r.schedulePath))
      = some (100 * day + 28800000, "/substitute") := by decide +kernel

theorem substituted_active :
    (substituted.activeScheduleAt (100 * day + 28800000)).isNone = true := by decide +kernel

theorem substituted_iff :
    (∃ r, substituted.nextLocalPeriod (100 * day) wssNextAnyStart never = some r ∧
      EarliestOfActive substituted (100 * day) wssNextAnyStart never r) ↔
      ∀ lo, ¬Straddles substituted (100 * day) wssNextAnyStart never lo :=
  earliestOfActive_iff substituted_inRange

/-- The single start at 08:00 is told, with the name of the schedule that is valid
    from noon on. -/
theorem substituted_straddles :
    AllInRange substituted (100 * day) ∧ Plain wssNextAnyStart ∧
      ¬∃ r, substituted.nextLocalPeriod (100 * day) wssNextAnyStart never = some r ∧
        EarliestOfActive substituted (100 * day) wssNextAnyStart never r := by
  refine ⟨substituted_inRange, by decide, ?_⟩
  rintro ⟨r, hr, he⟩
  have hnext := substituted_next
  rw [hr, Option.map_some, Option.some_inj, Prod.mk.injEq] at hnext
  obtain ⟨hbegin, hpath⟩ := hnext
  have hne : r.empty = false := by
    rw [Period.empty, hbegin]
    decide
  obtain ⟨-, -, -, -, -, -, -, -, hname, -⟩ := he.produced hne
  rw [hbegin, max_eq_right (by decide), Option.isNone_iff_eq_none.mp substituted_active,
    hpath] at hname
  exact absurd hname (by decide)

end ActiveSchedule
