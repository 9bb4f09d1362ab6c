import Mathlib.Data.List.TakeWhile
import SchedulerEngine.ScheduleSearchProofs
import SchedulerEngine.TimelineProofs

/-! # Substituting schedules

    Other schedules may cover a schedule, each from a `valid_from` to a
    `valid_to`.  The search for the next period goes along the covering schedules
    and the gaps between them. -/

namespace CoveringSchedule

open SchedulerTime SchedulePeriod ScheduleInlay ScheduleSearch LeftmostLeast Timeline

variable {t u before : Int} {w : WithSingleStart} {p : Period}

/-! ## The schedules -/

/-- A schedule with `substitute`; SCHEDULER-464 refuses an empty interval. -/
structure Covering where
  path : String
  begin_ : Int
  end_ : Int
  inlay : Inlay Day
  begin_lt : begin_ < end_
  end_le : end_ ≤ never

/-- A schedule and its `_covering_schedules`, which do not overlap. -/
structure Schedule where
  path : String
  inlay : Inlay Day
  coverings : KeySet fun c : Covering => c.begin_
  disjoint : coverings.toList.Pairwise fun c d => c.end_ ≤ d.begin_
  paths : (path :: coverings.toList.map Covering.path).Nodup

def Covering.isCoveringAt (c : Covering) (t : Int) : Bool := c.begin_ ≤ t && t < c.end_

namespace Schedule

/-- `_covering_schedules.upper_bound`: what stands before the iterator, and what
    follows it. -/
def upperBound (s : Schedule) (t : Int) : List Covering × List Covering :=
  (s.coverings.toList.takeWhile fun c => c.begin_ ≤ t,
    s.coverings.toList.dropWhile fun c => c.begin_ ≤ t)

def coveringScheduleAt (s : Schedule) (t : Int) : Option Covering :=
  (s.upperBound t).1.getLast?.filter fun c => c.isCoveringAt t

/-- `active_schedule_at`; `none` is the schedule itself. -/
def activeScheduleAt (s : Schedule) (t : Int) : Option Covering := s.coveringScheduleAt t

def inlayOf (s : Schedule) : Option Covering → Inlay Day
  | some c => c.inlay
  | none => s.inlay

def pathOf (s : Schedule) : Option Covering → String
  | some c => c.path
  | none => s.path

end Schedule

/-! ## The search -/

/-- Where the loop ends: the period, and the interval in which its schedule is
    active. -/
structure Hit where
  period : Period
  intervalBegin : Int
  intervalEnd : Int

/-- The begin of the covering schedule at the iterator. -/
def gapEnd : List Covering → Int
  | [] => never
  | c :: _ => c.begin_

/-- The first part of the loop's body, about the covering schedule before the
    iterator: a hit, or the time to go on from and the begin of the gap. -/
def searchCovered (w : WithSingleStart) (before t : Int) : Option Covering → Hit ⊕ Int × Int
  | none => .inr (t, 0)
  | some c =>
      if c.isCoveringAt t then
        let period := c.inlay.nextLocalPeriod t w before
        if period.begin_ < c.end_ then
          .inl ⟨{ period with schedulePath := c.path }, c.begin_, c.end_⟩
        else .inr (c.end_, c.end_)
      else .inr (t, c.end_)

/-- The second part, about the gap: a hit, or the time to go on from. -/
def searchGap (s : Schedule) (w : WithSingleStart) (before t intervalBegin intervalEnd : Int) :
    Hit ⊕ Int :=
  let period := s.inlay.nextLocalPeriod t w before
  if intervalBegin < intervalEnd ∧ period.begin_ < intervalEnd then
    .inl ⟨{ period with schedulePath := s.path }, intervalBegin, intervalEnd⟩
  else if intervalEnd = never then .inl ⟨init, intervalBegin, intervalEnd⟩
  else .inr intervalEnd

/-- The loop's body. -/
def searchTurn (s : Schedule) (w : WithSingleStart) (before t : Int) (pred : Option Covering)
    (intervalEnd : Int) : Hit ⊕ Int :=
  match searchCovered w before t pred with
  | .inl hit => .inl hit
  | .inr (t, intervalBegin) => searchGap s w before t intervalBegin intervalEnd

/-- The loop; `none` if the iterator would be advanced past the end. -/
def searchLoop (s : Schedule) (w : WithSingleStart) (before : Int) :
    Int → Option Covering → List Covering → Option Hit
  | t, pred, [] =>
      match searchTurn s w before t pred (gapEnd []) with
      | .inl hit => some hit
      | .inr _ => none
  | t, pred, c :: rest =>
      match searchTurn s w before t pred (gapEnd (c :: rest)) with
      | .inl hit => some hit
      | .inr t => searchLoop s w before t (some c) rest

/-- The period is cut to the interval, unless it is a single start. -/
def Hit.clip (hit : Hit) : Period :=
  if hit.period.singleStart then hit.period
  else { hit.period with
    absoluteRepeatBegin := hit.period.begin_
    begin_ := if hit.period.begin_ < hit.intervalBegin then hit.intervalBegin
      else hit.period.begin_
    end_ := if hit.intervalEnd < hit.period.end_ then hit.intervalEnd else hit.period.end_ }

/-- `Schedule::next_local_period`. -/
def Schedule.nextLocalPeriod (s : Schedule) (t : Int) (w : WithSingleStart) (before : Int) :
    Option Period :=
  (searchLoop s w before t (s.upperBound t).1.getLast? (s.upperBound t).2).map Hit.clip

/-! ## The time line of a schedule -/

variable {s : Schedule}

theorem covers (s : Schedule) : Covers Covering.begin_ Covering.end_ never s.coverings.toList :=
  ⟨fun c _ => c.begin_lt, fun c _ => c.end_le, s.disjoint⟩

/-- The intervals in which one schedule is active. -/
def Schedule.intervals (s : Schedule) : List (Segment Covering Int) :=
  timeline Covering.begin_ Covering.end_ never 0 s.coverings.toList

theorem upperBound_append (s : Schedule) (t : Int) :
    (s.upperBound t).1 ++ (s.upperBound t).2 = s.coverings.toList := List.takeWhile_append_dropWhile

theorem begin_le_of_mem_before {c : Covering} (h : c ∈ (s.upperBound t).1) : c.begin_ ≤ t :=
  of_decide_eq_true (List.mem_takeWhile_imp (p := fun c : Covering => decide (c.begin_ ≤ t)) h)

/-- After the upper bound, everything begins later. -/
theorem lt_begin_of_mem_after {c : Covering} (h : c ∈ (s.upperBound t).2) : t < c.begin_ := by
  have hsorted : (s.upperBound t).2.Pairwise fun c d => c.begin_ < d.begin_ :=
    s.coverings.sorted.sublist (List.dropWhile_sublist _)
  have hhead : ∀ d, (s.upperBound t).2.head? = some d → t < d.begin_ := by
    intro d hd
    have := List.head?_dropWhile_not (fun c : Covering => decide (c.begin_ ≤ t))
      s.coverings.toList
    rw [Schedule.upperBound] at hd
    rw [hd] at this
    exact lt_of_not_ge (of_decide_eq_false this)
  cases hl : (s.upperBound t).2 with
  | nil =>
      rw [hl] at h
      cases h
  | cons d rest =>
      rw [hl] at h hsorted hhead
      have hd := hhead d rfl
      rcases List.mem_cons.mp h with rfl | h
      · exact hd
      · exact lt_trans hd ((List.pairwise_cons.mp hsorted).1 c h)

/-- `active_schedule_at` is the schedule that covers the time. -/
theorem activeScheduleAt_eq (s : Schedule) (t : Int) :
    s.activeScheduleAt t = coverAt Covering.begin_ Covering.end_ s.coverings.toList t := by
  have happ := upperBound_append s t
  have hafter : ∀ c ∈ (s.upperBound t).2, t < c.begin_ := fun c hc => lt_begin_of_mem_after hc
  rw [Schedule.activeScheduleAt, Schedule.coveringScheduleAt]
  rcases List.eq_nil_or_concat (s.upperBound t).1 with hnil | ⟨pre, c, hpre⟩
  · rw [hnil] at happ ⊢
    symm
    refine coverAt_eq_none.mpr ?_
    intro c hc
    rw [← happ] at hc
    exact Or.inl (hafter c hc)
  · rw [List.concat_eq_append] at hpre
    have hc : c.begin_ ≤ t := begin_le_of_mem_before (s := s) (by rw [hpre]; simp)
    have hmem : c ∈ s.coverings.toList := by
      rw [← happ, hpre]
      simp
    rw [hpre, List.getLast?_concat, Option.filter_some]
    by_cases hend : t < c.end_
    · have hcov : c.isCoveringAt t = true := by
        rw [Covering.isCoveringAt, decide_eq_true hc, decide_eq_true hend]
        rfl
      rw [if_pos hcov]
      exact ((coverAt_eq_some (covers s)).mpr ⟨hmem, hc, hend⟩).symm
    · have hcov : ¬c.isCoveringAt t = true := by
        rw [Covering.isCoveringAt, Bool.and_eq_true, decide_eq_true_eq, decide_eq_true_eq]
        exact fun h => hend h.2
      rw [if_neg hcov]
      symm
      refine coverAt_eq_none.mpr ?_
      intro d hd
      rw [← happ, hpre, List.append_assoc] at hd
      have hdisj := s.disjoint
      rw [← happ, hpre, List.append_assoc] at hdisj
      rcases List.mem_append.mp hd with hd | hd
      · -- what stands before the predecessor is over
        have h1 := (List.pairwise_append.mp hdisj).2.2 d hd c (by simp)
        exact Or.inr (le_trans h1 hc)
      · rcases List.mem_cons.mp hd with rfl | hd
        · exact Or.inr (le_of_not_gt hend)
        · exact Or.inl (hafter d hd)

/-! ## The search as a walk along the time line -/

/-- What the schedule of an interval selects from `t` on. -/
def Schedule.select (s : Schedule) (t : Int) (w : WithSingleStart) (before : Int)
    (seg : Segment Covering Int) : Period :=
  (s.inlayOf seg.cover).nextLocalPeriod (max t seg.lo) w before

/-- The interval is not over, and a period begins before its end. -/
def Schedule.hits (s : Schedule) (t : Int) (w : WithSingleStart) (before : Int)
    (seg : Segment Covering Int) : Bool :=
  t < seg.hi && (s.select t w before seg).begin_ < seg.hi

def Schedule.hitOf (s : Schedule) (t : Int) (w : WithSingleStart) (before : Int)
    (seg : Segment Covering Int) : Hit :=
  ⟨{ s.select t w before seg with schedulePath := s.pathOf seg.cover }, seg.lo, seg.hi⟩

/-- The result if no schedule has a period. -/
def nothing : Period := { init with absoluteRepeatBegin := never }

/-- What the first interval with a period gives. -/
def Schedule.firstOf (s : Schedule) (t : Int) (w : WithSingleStart) (before : Int)
    (segs : List (Segment Covering Int)) : Period :=
  ((segs.find? (s.hits t w before)).map fun seg => (s.hitOf t w before seg).clip).getD nothing

theorem clip_init {a : Int} (ha : a ≤ never) : Hit.clip ⟨init, a, never⟩ = nothing := by
  have h1 : ¬init.begin_ < a := not_lt_of_ge ha
  have h2 : ¬never < init.end_ := lt_irrefl never
  rw [Hit.clip, if_neg (by exact Bool.false_ne_true)]
  simp only [if_neg h1, if_neg h2]
  rfl

theorem nextLocalPeriod_never (i : Inlay Day) : i.nextLocalPeriod never w before = init :=
  if_neg fun h => h.1 rfl

theorem hits_iff {seg : Segment Covering Int} :
    s.hits t w before seg = true ↔ t < seg.hi ∧ (s.select t w before seg).begin_ < seg.hi := by
  rw [Schedule.hits, Bool.and_eq_true, decide_eq_true_eq, decide_eq_true_eq]

theorem firstOf_cons_pos {seg : Segment Covering Int} {segs : List (Segment Covering Int)}
    (h : s.hits t w before seg = true) :
    s.firstOf t w before (seg :: segs) = (s.hitOf t w before seg).clip := by
  rw [Schedule.firstOf, List.find?_cons_of_pos h]
  rfl

theorem firstOf_cons_neg {seg : Segment Covering Int} {segs : List (Segment Covering Int)}
    (h : ¬s.hits t w before seg = true) :
    s.firstOf t w before (seg :: segs) = s.firstOf t w before segs := by
  rw [Schedule.firstOf, List.find?_cons_of_neg h]
  rfl

theorem firstOf_gap_pos {a b : Int} {segs : List (Segment Covering Int)}
    (h : a < b ∧ s.hits t w before ⟨a, b, none⟩ = true) :
    s.firstOf t w before (gap a b ++ segs) = (s.hitOf t w before ⟨a, b, none⟩).clip := by
  rw [Schedule.firstOf, find?_gap_append, if_pos h]
  rfl

theorem firstOf_gap_neg {a b : Int} {segs : List (Segment Covering Int)}
    (h : ¬(a < b ∧ s.hits t w before ⟨a, b, none⟩ = true)) :
    s.firstOf t w before (gap a b ++ segs) = s.firstOf t w before segs := by
  rw [Schedule.firstOf, find?_gap_append, if_neg h]
  rfl

/-- A turn that does not end in a covering schedule goes on with the gap. -/
theorem searchTurn_of_uncovered {t' T a b : Int} {pred : Option Covering}
    (h : searchCovered w before t' pred = .inr (T, a)) :
    searchTurn s w before t' pred b = searchGap s w before T a b := by
  rw [searchTurn, h]

theorem searchTurn_of_covered {t' b : Int} {pred : Option Covering} {hit : Hit}
    (h : searchCovered w before t' pred = .inl hit) :
    searchTurn s w before t' pred b = .inl hit := by
  rw [searchTurn, h]

theorem searchLoop_of_hit {t' : Int} {pred : Option Covering} {rest : List Covering} {hit : Hit}
    (h : searchTurn s w before t' pred (gapEnd rest) = .inl hit) :
    searchLoop s w before t' pred rest = some hit := by
  cases rest with
  | nil => rw [searchLoop, h]
  | cons c rest => rw [searchLoop, h]

theorem searchLoop_of_next {t' T : Int} {pred : Option Covering} {c : Covering}
    {rest : List Covering} (h : searchTurn s w before t' pred (gapEnd (c :: rest)) = .inr T) :
    searchLoop s w before t' pred (c :: rest) = searchLoop s w before T (some c) rest := by
  rw [searchLoop, h]

/-- The covering schedule that begins at the iterator. -/
theorem searchCovered_self (c : Covering) {T : Int} (h1 : c.begin_ ≤ T) (h2 : T < c.end_) :
    searchCovered w before T (some c)
      = if (c.inlay.nextLocalPeriod T w before).begin_ < c.end_ then
          .inl ⟨{ c.inlay.nextLocalPeriod T w before with schedulePath := c.path }, c.begin_, c.end_⟩
        else .inr (c.end_, c.end_) := by
  have hc : c.isCoveringAt T = true := by
    rw [Covering.isCoveringAt, decide_eq_true h1, decide_eq_true h2]
    rfl
  rw [searchCovered, if_pos hc]

theorem searchCovered_over (c : Covering) {T : Int} (h : c.end_ ≤ T) :
    searchCovered w before T (some c) = .inr (T, c.end_) := by
  have hc : ¬c.isCoveringAt T = true := by
    rw [Covering.isCoveringAt, Bool.and_eq_true, decide_eq_true_eq, decide_eq_true_eq]
    exact fun hc => not_lt_of_ge h hc.2
  rw [searchCovered, if_neg hc]

/-- From a gap on, the loop finds the first interval with a period. -/
theorem searchLoop_of_uncovered {t' T a : Int} {pred : Option Covering} {rest : List Covering}
    (hc : searchCovered w before t' pred = .inr (T, a)) (hT : T = max t a)
    (hcov : Covers Covering.begin_ Covering.end_ never rest) (ha : ∀ c ∈ rest, a ≤ c.begin_)
    (ht : ∀ c ∈ rest, t < c.begin_) (han : a ≤ never) (htn : t ≤ never) :
    (searchLoop s w before t' pred rest).map Hit.clip
      = some (s.firstOf t w before (timeline Covering.begin_ Covering.end_ never a rest)) := by
  induction rest generalizing t' T a pred with
  | nil =>
      have hiff : a < never ∧ (s.inlay.nextLocalPeriod T w before).begin_ < never ↔
          a < never ∧ s.hits t w before ⟨a, never, none⟩ = true := by
        rw [hits_iff, Schedule.select, ← hT]
        refine and_congr_right fun _ => ⟨fun h => ⟨?_, h⟩, fun h => h.2⟩
        -- at the end of time there is no period
        refine lt_of_le_of_ne htn fun hn => ?_
        rw [hT, hn, max_eq_left han, nextLocalPeriod_never] at h
        exact lt_irrefl _ h
      rw [timeline, ← List.append_nil (gap a never)]
      by_cases hhit : a < never ∧ (s.inlay.nextLocalPeriod T w before).begin_ < never
      · have hturn : searchTurn s w before t' pred (gapEnd [])
            = .inl (s.hitOf t w before ⟨a, never, none⟩) := by
          rw [searchTurn_of_uncovered hc, gapEnd, searchGap, if_pos hhit, hT]
          rfl
        rw [firstOf_gap_pos (hiff.mp hhit), searchLoop_of_hit hturn]
        rfl
      · have hturn : searchTurn s w before t' pred (gapEnd []) = .inl ⟨init, a, never⟩ := by
          rw [searchTurn_of_uncovered hc, gapEnd, searchGap, if_neg hhit, if_pos rfl]
        rw [firstOf_gap_neg (fun h => hhit (hiff.mpr h)), searchLoop_of_hit hturn,
          Option.map_some, clip_init han]
        rfl
  | cons c rest ih =>
      have hac := ha c List.mem_cons_self
      have htc := ht c List.mem_cons_self
      have hend := c.end_le
      have hlt := c.begin_lt
      have hiff : a < c.begin_ ∧ (s.inlay.nextLocalPeriod T w before).begin_ < c.begin_ ↔
          a < c.begin_ ∧ s.hits t w before ⟨a, c.begin_, none⟩ = true := by
        rw [hits_iff, Schedule.select, ← hT]
        exact and_congr_right fun _ => ⟨fun h => ⟨htc, h⟩, fun h => h.2⟩
      rw [timeline]
      by_cases hhit : a < c.begin_ ∧ (s.inlay.nextLocalPeriod T w before).begin_ < c.begin_
      · have hturn : searchTurn s w before t' pred (gapEnd (c :: rest))
            = .inl (s.hitOf t w before ⟨a, c.begin_, none⟩) := by
          rw [searchTurn_of_uncovered hc, gapEnd, searchGap, if_pos hhit, hT]
          rfl
        rw [firstOf_gap_pos (hiff.mp hhit), searchLoop_of_hit hturn]
        rfl
      · have hturn : searchTurn s w before t' pred (gapEnd (c :: rest)) = .inr c.begin_ := by
          rw [searchTurn_of_uncovered hc, gapEnd, searchGap, if_neg hhit, if_neg (by omega)]
        rw [firstOf_gap_neg (fun h => hhit (hiff.mpr h)), searchLoop_of_next hturn]
        -- the iterator goes on to `c`, which covers its own begin
        have hself : searchCovered w before c.begin_ (some c) = _ :=
          searchCovered_self c (le_refl c.begin_) hlt
        have hsel : s.select t w before ⟨c.begin_, c.end_, some c⟩
            = c.inlay.nextLocalPeriod c.begin_ w before := by
          rw [Schedule.select, max_eq_right (le_of_lt htc)]
          rfl
        by_cases hper : (c.inlay.nextLocalPeriod c.begin_ w before).begin_ < c.end_
        · rw [if_pos hper] at hself
          rw [firstOf_cons_pos (hits_iff.mpr ⟨lt_trans htc hlt, by rw [hsel]; exact hper⟩),
            searchLoop_of_hit (searchTurn_of_covered hself), Schedule.hitOf, hsel]
          rfl
        · rw [if_neg hper] at hself
          rw [firstOf_cons_neg fun h => hper (by rw [hits_iff, hsel] at h; exact h.2)]
          refine ih hself (max_eq_right (by omega)).symm hcov.tail (fun d hd => hcov.hi_le hd) ?_
            hend
          exact fun d hd => ht d (List.mem_cons_of_mem _ hd)

end CoveringSchedule
