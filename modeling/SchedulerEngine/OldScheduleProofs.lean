import Mathlib.Data.List.Sort
import SchedulerEngine.MultipleProofs

/-! # The periods of the old run time

    `OldPeriod`, `PeriodSeq` and `OldSchedule`: the periods of a day and their
    starts, and the next start of a schedule.  All times are 64-bit milliseconds. -/

namespace OldRuntime

open Multiple

/-! ## `OldPeriod` -/

/-- What `require` lets pass.  The last requirement asks for a `repeat` where there
    is an `absoluteRepeat`. -/
structure OldPeriod where
  begin_ : Int64
  end_ : Int64
  repeat_ : Option Int64
  absoluteRepeat : Option Int64
  once : Bool
  begin_nonneg : 0 ≤ begin_
  end_le : end_ ≤ 86400000
  begin_le : begin_ ≤ end_
  repeat_pos : ∀ a ∈ repeat_, 0 < a
  absoluteRepeat_pos : ∀ a ∈ absoluteRepeat, 0 < a
  hasRepeat : repeat_.isSome = true ∨ absoluteRepeat = none

namespace OldPeriod

def hasStart (p : OldPeriod) : Bool := p.once || p.repeat_.isSome || p.absoluteRepeat.isSome

def startNotBefore (p : OldPeriod) (t : Int64) : Option Int64 :=
  if p.hasStart = true ∧ t < p.begin_ then some p.begin_
  else (p.absoluteRepeat.map fun a => (t + a - 1 - p.begin_) / a * a).filter
    fun x => x < p.end_

/-- The starts: the begin, and the instants of `absoluteRepeat` before the end. -/
def starts (p : OldPeriod) : Set Int :=
  {x | p.hasStart = true ∧ (x = p.begin_.toInt ∨ ∃ a ∈ p.absoluteRepeat, ∃ k : Int, 0 ≤ k ∧
    x = p.begin_.toInt + k * a.toInt ∧ x < p.end_.toInt)}

/-- Each period begins before the other one ends. -/
def Overlap (p q : OldPeriod) : Prop := p.begin_ < q.end_ ∧ q.begin_ < p.end_

end OldPeriod

/-! ## `PeriodSeq` -/

/-- The loop over `sliding 2`. -/
def inOrder : List OldPeriod → Bool
  | a :: b :: rest => a.end_ ≤ b.begin_ && inOrder (b :: rest)
  | _ => true

/-- `requireOrderedAndNotOverlapping`. -/
def requireOrderedAndNotOverlapping (l : List OldPeriod) : Bool :=
  if 2 < l.length then inOrder l else true

/-- `sortWith { _.begin < _.begin }`. -/
def sortByBegin (l : List OldPeriod) : List OldPeriod := l.mergeSort fun p q => p.begin_ ≤ q.begin_

structure PeriodSeq where
  orderedSeq : List OldPeriod
  required : requireOrderedAndNotOverlapping orderedSeq = true

namespace PeriodSeq

/-- `PeriodSeq.apply`; `none` if the requirement fails. -/
def ofPeriods (l : List OldPeriod) : Option PeriodSeq :=
  if h : requireOrderedAndNotOverlapping (sortByBegin l) = true then some ⟨sortByBegin l, h⟩
  else none

def nextTimeOfDay (s : PeriodSeq) (from_ : Int64) : Option Int64 :=
  (s.orderedSeq.filterMap fun p => p.startNotBefore from_).head?

def starts (s : PeriodSeq) : Set Int := {x | ∃ p ∈ s.orderedSeq, x ∈ p.starts}

end PeriodSeq

/-! ## `OldSchedule` -/

inductive Weekday where
  | monday | tuesday | wednesday | thursday | friday | saturday | sunday
deriving DecidableEq, Repr

/-- `Weekday(date.getDayOfWeek)`; day 0 was a Thursday. -/
def Weekday.ofDay (date : Int) : Weekday :=
  match (date + 3) % 7 with
  | 0 => monday
  | 1 => tuesday
  | 2 => wednesday
  | 3 => thursday
  | 4 => friday
  | 5 => saturday
  | _ => sunday

/-- A time zone: the date of an instant, its milliseconds of the day, and the
    midnight with which the date begins. -/
structure TimeZone where
  dateOf : Int → Int
  millisOfDay : Int → Int64
  midnight : Int → Int
  millisOfDay_nonneg : ∀ t, 0 ≤ millisOfDay t
  midnight_le : ∀ t, midnight (dateOf t) ≤ t
  millisOfDay_midnight : ∀ t, millisOfDay (midnight (dateOf t)) = 0

structure OldSchedule where
  timeZone : TimeZone
  defaultPeriods : PeriodSeq
  weekdays : Weekday → Option PeriodSeq

namespace OldSchedule

def periodSeq (s : OldSchedule) (date : Int) : PeriodSeq :=
  (s.weekdays (Weekday.ofDay date)).getD s.defaultPeriods

/-- `splitDateAndTime`, `nextTimeOfDay` and `toInstant`. -/
def nextInstant (s : OldSchedule) (from_ : Int) : Option Int :=
  let date := s.timeZone.dateOf from_
  ((s.periodSeq date).nextTimeOfDay (s.timeZone.millisOfDay from_)).map fun t =>
    s.timeZone.midnight date + t.toInt

/-- The instants of the starts of a day and of the following days. -/
def startsFrom (s : OldSchedule) (date : Int) : Set Int :=
  {x | ∃ d, date ≤ d ∧ ∃ y ∈ (s.periodSeq d).starts, x = s.timeZone.midnight d + y}

end OldSchedule

/-! ## Acceptance -/

variable {p q : OldPeriod} {l : List OldPeriod} {t : Int64} {x : Int}

theorem OldPeriod.Overlap.symm (h : OldPeriod.Overlap p q) : OldPeriod.Overlap q p := ⟨h.2, h.1⟩

theorem inOrder_iff : inOrder l = true ↔ l.Pairwise fun p q => p.end_ ≤ q.begin_ := by
  induction l with
  | nil => exact iff_of_true rfl List.Pairwise.nil
  | cons p l ih =>
      cases l with
      | nil => exact iff_of_true rfl (List.pairwise_singleton _ _)
      | cons q l =>
          rw [inOrder, Bool.and_eq_true, decide_eq_true_eq, ih]
          constructor
          · rintro ⟨hpq, h⟩
            refine List.pairwise_cons.mpr ⟨?_, h⟩
            intro r hr
            rcases List.mem_cons.mp hr with rfl | hr
            · exact hpq
            · exact Int64.le_trans hpq (Int64.le_trans q.begin_le ((List.pairwise_cons.mp h).1 r hr))
          · intro h
            exact ⟨(List.pairwise_cons.mp h).1 q List.mem_cons_self, (List.pairwise_cons.mp h).2⟩

theorem byBegin_trans (p q r : OldPeriod) (hpq : decide (p.begin_ ≤ q.begin_) = true)
    (hqr : decide (q.begin_ ≤ r.begin_) = true) : decide (p.begin_ ≤ r.begin_) = true :=
  decide_eq_true (Int64.le_trans (of_decide_eq_true hpq) (of_decide_eq_true hqr))

theorem byBegin_total (p q : OldPeriod) :
    (decide (p.begin_ ≤ q.begin_) || decide (q.begin_ ≤ p.begin_)) = true := by
  rw [Bool.or_eq_true, decide_eq_true_eq, decide_eq_true_eq]
  exact Int64.le_total _ _

theorem sorted_sortByBegin (l : List OldPeriod) :
    (sortByBegin l).Pairwise fun p q => p.begin_ ≤ q.begin_ :=
  (List.pairwise_mergeSort byBegin_trans byBegin_total l).imp fun h => of_decide_eq_true h

def NotOverlapping (l : List OldPeriod) : Prop := l.Pairwise fun p q => ¬OldPeriod.Overlap p q

/-- Of two periods with the same begin, an empty one is not written after one that
    is not empty. -/
def EmptyFirst (l : List OldPeriod) : Prop :=
  l.Pairwise fun p q => p.begin_ = q.begin_ → q.begin_ = q.end_ → p.begin_ = p.end_

/-- Periods with the same begin stay in the order in which they were written. -/
theorem pair_of_sortByBegin (h : List.Sublist [p, q] (sortByBegin l)) (heq : p.begin_ = q.begin_) :
    List.Sublist [p, q] l := by
  have hfilter : (l.filter fun r => r.begin_ = q.begin_).Sublist (sortByBegin l) := by
    refine List.sublist_mergeSort byBegin_trans byBegin_total ?_ List.filter_sublist
    refine List.pairwise_of_forall_mem_list fun a ha b hb => ?_
    have ha := of_decide_eq_true (List.mem_filter.mp ha).2
    have hb := of_decide_eq_true (List.mem_filter.mp hb).2
    rw [decide_eq_true_eq, ha, hb]
    exact Int64.le_refl _
  -- as many periods have that begin after the sort as before
  have hsame : (l.filter fun r => r.begin_ = q.begin_)
      = (sortByBegin l).filter fun r => r.begin_ = q.begin_ := by
    have hsub := hfilter.filter fun r : OldPeriod => decide (r.begin_ = q.begin_)
    simp only [List.filter_filter, Bool.and_self] at hsub
    refine hsub.eq_of_length ?_
    exact (((List.mergeSort_perm l _).filter _).length_eq).symm
  have hpair := h.filter fun r : OldPeriod => decide (r.begin_ = q.begin_)
  have hboth : [p, q].filter (fun r => decide (r.begin_ = q.begin_)) = [p, q] := by
    refine List.filter_eq_self.mpr fun r hr => ?_
    rcases List.mem_pair.mp hr with rfl | rfl
    · exact decide_eq_true heq
    · exact decide_eq_true rfl
  rw [← hsame, hboth] at hpair
  exact hpair.trans List.filter_sublist

theorem inOrder_sortByBegin_iff :
    inOrder (sortByBegin l) = true ↔ NotOverlapping l ∧ EmptyFirst l := by
  have hperm : (sortByBegin l).Perm l := List.mergeSort_perm l _
  have hsymm : ∀ {p q : OldPeriod}, ¬OldPeriod.Overlap p q → ¬OldPeriod.Overlap q p :=
    fun h hqp => h hqp.symm
  rw [inOrder_iff, NotOverlapping, ← hperm.pairwise_iff hsymm]
  constructor
  · intro h
    have hno : ∀ {p q : OldPeriod}, p.end_ ≤ q.begin_ → ¬OldPeriod.Overlap p q :=
      fun hpq hov => Int64.not_le.mpr hov.2 hpq
    refine ⟨h.imp hno, ?_⟩
    refine List.pairwise_iff_forall_sublist.mpr ?_
    intro p q hpq heq _
    have hle := List.pairwise_iff_forall_sublist.mp h (List.pair_sublist_mergeSort byBegin_trans
      byBegin_total (decide_eq_true (heq ▸ Int64.le_refl _)) hpq)
    rw [← heq] at hle
    exact Int64.le_antisymm p.begin_le hle
  · rintro ⟨hno, hempty⟩
    refine List.pairwise_iff_forall_sublist.mpr ?_
    intro p q hpq
    have hle := List.pairwise_iff_forall_sublist.mp (sorted_sortByBegin l) hpq
    have hov := List.pairwise_iff_forall_sublist.mp hno hpq
    by_contra hlt
    have hlt := Int64.not_le.mp hlt
    -- the later one is empty, at the begin of the earlier one
    have hend : q.end_ ≤ p.begin_ := Int64.not_lt.mp fun h => hov ⟨h, hlt⟩
    have heq : p.begin_ = q.begin_ :=
      Int64.le_antisymm hle (Int64.le_trans q.begin_le hend)
    have hqe : q.begin_ = q.end_ :=
      Int64.le_antisymm q.begin_le (Int64.le_trans hend hle)
    have hpe := List.pairwise_iff_forall_sublist.mp hempty (pair_of_sortByBegin hpq heq) heq hqe
    rw [← hpe, heq] at hlt
    exact Int64.lt_irrefl hlt

/-- The sequence is accepted exactly if no two periods overlap. -/
def Recognised (l : List OldPeriod) : Prop :=
  (PeriodSeq.ofPeriods l).isSome = true ↔ NotOverlapping l

theorem isSome_ofPeriods :
    (PeriodSeq.ofPeriods l).isSome = true ↔
      (2 < l.length → NotOverlapping l ∧ EmptyFirst l) := by
  have hlength : (sortByBegin l).length = l.length := (List.mergeSort_perm l _).length_eq
  have hreq : requireOrderedAndNotOverlapping (sortByBegin l) = true ↔
      (2 < l.length → NotOverlapping l ∧ EmptyFirst l) := by
    rw [requireOrderedAndNotOverlapping, hlength]
    by_cases hlt : 2 < l.length
    · rw [if_pos hlt, inOrder_sortByBegin_iff]
      exact ⟨fun h _ => h, fun h => h hlt⟩
    · rw [if_neg hlt]
      exact iff_of_true rfl fun h => absurd h hlt
  rw [PeriodSeq.ofPeriods, ← hreq]
  by_cases h : requireOrderedAndNotOverlapping (sortByBegin l) = true
  · rw [dif_pos h]
    exact iff_of_true rfl h
  · rw [dif_neg h]
    exact iff_of_false Bool.false_ne_true h

theorem recognised_iff :
    Recognised l ↔ (l.length = 2 → NotOverlapping l) ∧
      (2 < l.length → NotOverlapping l → EmptyFirst l) := by
  rw [Recognised, isSome_ofPeriods]
  constructor
  · intro h
    refine ⟨fun h2 => h.mp fun hlt => absurd hlt (by omega), fun hlt hno => ?_⟩
    exact (h.mpr hno hlt).2
  · rintro ⟨h2, h3⟩
    constructor
    · intro h
      by_cases hlt : 2 < l.length
      · exact (h hlt).1
      · by_cases heq : l.length = 2
        · exact h2 heq
        · -- one period, or none
          match l with
          | [] => exact List.Pairwise.nil
          | [p] => exact List.pairwise_singleton _ _
          | p :: q :: l =>
              rw [List.length_cons, List.length_cons] at hlt heq
              omega
    · exact fun hno hlt => ⟨hno, h3 hlt hno⟩

/-! ## The start that a period tells -/

namespace OldPeriod

/-- What the period tells: its begin, or a multiple of `absoluteRepeat`, counted
    from midnight instead of from the begin. -/
def Told (p : OldPeriod) (t x : Int) : Prop :=
  p.hasStart = true ∧ t < p.begin_.toInt ∧ x = p.begin_.toInt ∨
    p.begin_.toInt ≤ t ∧ ∃ a ∈ p.absoluteRepeat,
      Ceiling a.toInt (t - p.begin_.toInt) x ∧ x < p.end_.toInt

/-- The sum does not fit into 64 bits, and what is left of it is before the end. -/
def Wrapped (p : OldPeriod) (t : Int) : Prop :=
  p.begin_.toInt ≤ t ∧ ∃ a ∈ p.absoluteRepeat, 2 ^ 63 < t - p.begin_.toInt + a.toInt ∧
    (0 < p.end_.toInt ∨ t - p.begin_.toInt + 2 * a.toInt ≤ 2 ^ 64 + 1)

def Taken (p : OldPeriod) (t : Int) : Prop := (∃ x, p.Told t x) ∨ p.Wrapped t

theorem bounds (p : OldPeriod) :
    0 ≤ p.begin_.toInt ∧ p.begin_.toInt ≤ p.end_.toInt ∧ p.end_.toInt ≤ 86400000 :=
  ⟨Int64.le_iff_toInt_le.mp p.begin_nonneg, Int64.le_iff_toInt_le.mp p.begin_le,
    Int64.le_iff_toInt_le.mp p.end_le⟩

theorem absoluteRepeat_bounds {a : Int64} (ha : a ∈ p.absoluteRepeat) :
    0 < a.toInt ∧ a.toInt < 2 ^ 63 :=
  ⟨Int64.lt_iff_toInt_lt.mp (p.absoluteRepeat_pos a ha), a.toInt_lt⟩

theorem hasStart_of_mem {a : Int64} (ha : a ∈ p.absoluteRepeat) : p.hasStart = true := by
  rw [hasStart, Option.mem_def.mp ha, Option.isSome_some, Bool.or_true]

theorem toInt_sum {a : Int64} (ha : a ∈ p.absoluteRepeat) (hle : p.begin_.toInt ≤ t.toInt) :
    (t + a - 1 - p.begin_).toInt
      = if t.toInt - p.begin_.toInt + a.toInt ≤ 2 ^ 63 then t.toInt - p.begin_.toInt + a.toInt - 1
        else t.toInt - p.begin_.toInt + a.toInt - 1 - 2 ^ 64 := by
  have hone : (1 : Int64).toInt = 1 := rfl
  obtain ⟨ha0, ha1⟩ := absoluteRepeat_bounds ha
  obtain ⟨hb0, hb1, hb2⟩ := p.bounds
  have ht := t.toInt_lt
  obtain ⟨i, hi⟩ := exists_bmod (t.toInt + a.toInt)
  obtain ⟨j, hj⟩ := exists_bmod ((t.toInt + a.toInt).bmod (2 ^ 64) - 1)
  obtain ⟨k, hk⟩ :=
    exists_bmod (((t.toInt + a.toInt).bmod (2 ^ 64) - 1).bmod (2 ^ 64) - p.begin_.toInt)
  rw [Int64.toInt_sub, Int64.toInt_sub, Int64.toInt_add, hone]
  split <;> omega

/-- Within 64 bits, the multiple is the first one from the time since the begin on. -/
theorem ceiling_of_fits {a : Int64} (ha : a ∈ p.absoluteRepeat) (hle : p.begin_.toInt ≤ t.toInt)
    (hfit : t.toInt - p.begin_.toInt + a.toInt ≤ 2 ^ 63) :
    Ceiling a.toInt (t.toInt - p.begin_.toInt) ((t + a - 1 - p.begin_) / a * a).toInt := by
  obtain ⟨ha0, ha1⟩ := absoluteRepeat_bounds ha
  rw [toInt_div_mul ha0, toInt_sum ha hle, if_pos hfit]
  obtain ⟨h1, h2⟩ := tdiv_mul_of_nonneg (g := a.toInt)
    (x := t.toInt - p.begin_.toInt + a.toInt - 1) ha0 (by omega)
  exact ⟨Int.dvd_mul_left _ _, by omega, by omega⟩

/-- Else nothing remains of it. -/
theorem wrapped_nonpos {a : Int64} (ha : a ∈ p.absoluteRepeat) (hle : p.begin_.toInt ≤ t.toInt)
    (hfit : 2 ^ 63 < t.toInt - p.begin_.toInt + a.toInt) :
    ((t + a - 1 - p.begin_) / a * a).toInt ≤ 0 ∧
      (((t + a - 1 - p.begin_) / a * a).toInt = 0 ↔
        2 ^ 64 + 1 < t.toInt - p.begin_.toInt + 2 * a.toInt) := by
  obtain ⟨ha0, ha1⟩ := absoluteRepeat_bounds ha
  obtain ⟨hb0, -, -⟩ := p.bounds
  have ht := t.toInt_lt
  have hneg : t.toInt - p.begin_.toInt + a.toInt - 1 - 2 ^ 64 ≤ 0 := by omega
  rw [toInt_div_mul ha0, toInt_sum ha hle, if_neg (by omega)]
  obtain ⟨h1, h2⟩ := tdiv_mul_of_nonpos ha0 hneg
  have hdvd : a.toInt ∣ (t.toInt - p.begin_.toInt + a.toInt - 1 - 2 ^ 64).tdiv a.toInt * a.toInt :=
    Int.dvd_mul_left _ _
  generalize (t.toInt - p.begin_.toInt + a.toInt - 1 - 2 ^ 64).tdiv a.toInt * a.toInt = m at *
  have hle0 : m ≤ 0 := by
    by_contra hlt
    have := Int.le_of_dvd (by omega) hdvd
    omega
  refine ⟨hle0, ?_⟩
  constructor
  · intro hm
    omega
  · intro hlt
    by_contra hne
    have := Int.le_of_dvd (a := a.toInt) (b := -m) (by omega) ((Int.dvd_neg).mpr hdvd)
    omega

/-- Then no multiple lies before the end. -/
theorem not_told_of_wrapped {a : Int64} (ha : a ∈ p.absoluteRepeat)
    (hle : p.begin_.toInt ≤ t.toInt) (hfit : 2 ^ 63 < t.toInt - p.begin_.toInt + a.toInt) :
    ¬p.Told t.toInt x := by
  obtain ⟨ha0, ha1⟩ := absoluteRepeat_bounds ha
  obtain ⟨hb0, hb1, hb2⟩ := p.bounds
  rintro (⟨-, hlt, -⟩ | ⟨-, b, hb, hc, hx⟩)
  · omega
  · obtain rfl := Option.mem_unique ha hb
    have hge := hc.ge
    have hpos : 0 < x := by omega
    have := Int.le_of_dvd hpos hc.dvd
    omega

/-- The branches: before the begin, without a grid, and on the grid. -/
theorem startNotBefore_cases (p : OldPeriod) (t : Int64) :
    (t.toInt < p.begin_.toInt ∧ p.hasStart = true ∧ p.startNotBefore t = some p.begin_) ∨
    (p.startNotBefore t = none ∧ ∀ x, ¬p.Told t.toInt x ∧ ¬p.Wrapped t.toInt) ∨
    (p.begin_.toInt ≤ t.toInt ∧ ∃ a ∈ p.absoluteRepeat, p.startNotBefore t
      = if (t + a - 1 - p.begin_) / a * a < p.end_ then some ((t + a - 1 - p.begin_) / a * a)
        else none) := by
  have hlt : t < p.begin_ ↔ t.toInt < p.begin_.toInt := Int64.lt_iff_toInt_lt
  rw [startNotBefore]
  by_cases hcond : p.hasStart = true ∧ t < p.begin_
  · rw [if_pos hcond]
    exact Or.inl ⟨hlt.mp hcond.2, hcond.1, rfl⟩
  · rw [if_neg hcond]
    cases ha : p.absoluteRepeat with
    | none =>
        refine Or.inr (Or.inl ⟨rfl, fun x => ⟨?_, ?_⟩⟩)
        · rintro (⟨hstart, hb, -⟩ | ⟨-, a, hmem, -⟩)
          · exact hcond ⟨hstart, hlt.mpr hb⟩
          · rw [ha] at hmem
            cases hmem
        · rintro ⟨-, a, hmem, -⟩
          rw [ha] at hmem
          cases hmem
    | some a =>
        have hle : p.begin_.toInt ≤ t.toInt := by
          by_contra hb
          exact hcond ⟨hasStart_of_mem ha, hlt.mpr (lt_of_not_ge hb)⟩
        refine Or.inr (Or.inr ⟨hle, a, rfl, ?_⟩)
        rw [Option.map_some, Option.filter_some]
        by_cases hx : (t + a - 1 - p.begin_) / a * a < p.end_
        · rw [if_pos hx, if_pos (decide_eq_true hx)]
        · rw [if_neg hx, if_neg fun h => hx (of_decide_eq_true h)]

/-- What a period tells on its grid. -/
theorem told_of_grid {a : Int64} (ha : a ∈ p.absoluteRepeat) (hle : p.begin_.toInt ≤ t.toInt)
    (hfit : t.toInt - p.begin_.toInt + a.toInt ≤ 2 ^ 63) :
    p.Told t.toInt x ↔ x = ((t + a - 1 - p.begin_) / a * a).toInt ∧ x < p.end_.toInt := by
  have hceil := ceiling_of_fits ha hle hfit
  constructor
  · rintro (⟨-, hlt, -⟩ | ⟨-, b, hb, hc, hx⟩)
    · omega
    · obtain rfl := Option.mem_unique ha hb
      exact ⟨le_antisymm (hc.le_of_dvd hceil.dvd hceil.ge) (hceil.le_of_dvd hc.dvd hc.ge), hx⟩
  · rintro ⟨rfl, hx⟩
    exact Or.inr ⟨hle, a, ha, hceil, hx⟩

/-- The period tells nothing if it is not taken. -/
theorem startNotBefore_eq_none (p : OldPeriod) (t : Int64) :
    p.startNotBefore t = none ↔ ¬p.Taken t.toInt := by
  obtain ⟨hlt, hstart, heq⟩ | ⟨heq, hno⟩ | ⟨hle, a, ha, heq⟩ := p.startNotBefore_cases t
  · rw [heq]
    exact iff_of_false (fun h => by cases h)
      (not_not_intro (Or.inl ⟨_, Or.inl ⟨hstart, hlt, rfl⟩⟩))
  · rw [heq]
    refine iff_of_true rfl ?_
    rintro (⟨x, hx⟩ | hw)
    · exact (hno x).1 hx
    · exact (hno 0).2 hw
  · have hx := Int64.lt_iff_toInt_lt (x := (t + a - 1 - p.begin_) / a * a) (y := p.end_)
    rw [heq]
    by_cases hfit : t.toInt - p.begin_.toInt + a.toInt ≤ 2 ^ 63
    · have hw : ¬p.Wrapped t.toInt := by
        rintro ⟨-, b, hb, hlt, -⟩
        obtain rfl := Option.mem_unique ha hb
        omega
      by_cases hend : ((t + a - 1 - p.begin_) / a * a).toInt < p.end_.toInt
      · rw [if_pos (hx.mpr hend)]
        exact iff_of_false (fun h => by cases h) (not_not_intro
          (Or.inl ⟨_, (told_of_grid ha hle hfit).mpr ⟨rfl, hend⟩⟩))
      · rw [if_neg fun h => hend (hx.mp h)]
        refine iff_of_true rfl ?_
        rintro (⟨x, hx⟩ | hw')
        · obtain ⟨rfl, hx⟩ := (told_of_grid ha hle hfit).mp hx
          exact hend hx
        · exact hw hw'
    · have hlt : 2 ^ 63 < t.toInt - p.begin_.toInt + a.toInt := lt_of_not_ge hfit
      obtain ⟨hm, hm0⟩ := wrapped_nonpos ha hle hlt
      obtain ⟨hb0, hb1, hb2⟩ := p.bounds
      have htaken : p.Taken t.toInt ↔ ((t + a - 1 - p.begin_) / a * a).toInt < p.end_.toInt := by
        constructor
        · rintro (⟨x, hx⟩ | ⟨-, b, hb, -, hend⟩)
          · exact absurd hx (not_told_of_wrapped ha hle hlt)
          · obtain rfl := Option.mem_unique ha hb
            omega
        · intro hend
          exact Or.inr ⟨hle, a, ha, hlt, by omega⟩
      rw [htaken]
      split
      · rename_i hend
        exact iff_of_false (fun h => by cases h) (not_not_intro (hx.mp hend))
      · rename_i hend
        exact iff_of_true rfl fun h => hend (hx.mpr h)

/-- What it tells is told by the specification, or the sum was wrapped around. -/
theorem told_of_startNotBefore {y : Int64} (h : p.startNotBefore t = some y) :
    p.Told t.toInt y.toInt ∨ 0 < t.toInt ∧ y.toInt ≤ 0 ∧ ∀ x, ¬p.Told t.toInt x := by
  obtain ⟨hlt, hstart, heq⟩ | ⟨heq, -⟩ | ⟨hle, a, ha, heq⟩ := p.startNotBefore_cases t
  · rw [heq] at h
    cases h
    exact Or.inl (Or.inl ⟨hstart, hlt, rfl⟩)
  · rw [heq] at h
    cases h
  · rw [heq] at h
    split at h
    · rename_i hend
      cases h
      rw [Int64.lt_iff_toInt_lt] at hend
      by_cases hfit : t.toInt - p.begin_.toInt + a.toInt ≤ 2 ^ 63
      · exact Or.inl ((told_of_grid ha hle hfit).mpr ⟨rfl, hend⟩)
      · have hlt : 2 ^ 63 < t.toInt - p.begin_.toInt + a.toInt := lt_of_not_ge hfit
        have hb := (absoluteRepeat_bounds ha).2
        have hb0 := p.bounds.1
        exact Or.inr ⟨by omega, (wrapped_nonpos ha hle hlt).1,
          fun x => not_told_of_wrapped ha hle hlt⟩
    · cases h

theorem Told.unique {y : Int} (hx : p.Told t.toInt x) (hy : p.Told t.toInt y) : x = y := by
  rcases hx with ⟨-, hlt, rfl⟩ | ⟨hle, a, ha, hc, -⟩
  · rcases hy with ⟨-, -, rfl⟩ | ⟨hle, -⟩
    · rfl
    · exact absurd hlt (not_lt_of_ge hle)
  · rcases hy with ⟨-, hlt, -⟩ | ⟨-, b, hb, hc', -⟩
    · exact absurd hlt (not_lt_of_ge hle)
    · obtain rfl := Option.mem_unique ha hb
      exact le_antisymm (hc.le_of_dvd hc'.dvd hc'.ge) (hc'.le_of_dvd hc.dvd hc.ge)

end OldPeriod

/-! ## The next start -/

/-- The result is the least of the instants from `now` on, or none if there is none. -/
def TellsNext (starts : Set Int) (now : Int) : Option Int → Prop
  | some x => x ∈ starts ∧ now ≤ x ∧ ∀ y ∈ starts, now ≤ y → x ≤ y
  | none => ∀ y ∈ starts, y < now

/-- The first period that is taken tells the least instant, and nothing starts if
    none is taken. -/
def Fits (starts : Set Int) (now base : Int) (l : List OldPeriod) (t : Int) : Prop :=
  (∀ as p bs, l = as ++ p :: bs → (∀ q ∈ as, ¬q.Taken t) → p.Taken t →
    ∃ x, p.Told t x ∧ TellsNext starts now (some (base + x))) ∧
  ((∀ p ∈ l, ¬p.Taken t) → TellsNext starts now none)

variable {starts : Set Int} {now base : Int}

theorem nextTimeOfDay_eq (s : PeriodSeq) (t : Int64) :
    s.nextTimeOfDay t = s.orderedSeq.findSome? fun p => p.startNotBefore t := by
  rw [PeriodSeq.nextTimeOfDay, List.head?_filterMap]

theorem tellsNext_iff_fits (s : PeriodSeq) (hlate : 0 < t.toInt → base < now) :
    TellsNext starts now ((s.nextTimeOfDay t).map fun y => base + y.toInt) ↔
      Fits starts now base s.orderedSeq t.toInt := by
  rw [nextTimeOfDay_eq]
  cases hfind : s.orderedSeq.findSome? fun p => p.startNotBefore t with
  | none =>
      have hno : ∀ p ∈ s.orderedSeq, ¬p.Taken t.toInt := fun p hp =>
        (p.startNotBefore_eq_none t).mp (List.findSome?_eq_none_iff.mp hfind p hp)
      constructor
      · intro h
        refine ⟨?_, fun _ => h⟩
        intro as p bs hl _ hp
        exact absurd hp (hno p (hl ▸ List.mem_append_right as List.mem_cons_self))
      · exact fun h => h.2 hno
  | some y =>
      obtain ⟨as, p, bs, hl, hy, has⟩ := List.findSome?_eq_some_iff.mp hfind
      have has' : ∀ q ∈ as, ¬q.Taken t.toInt := fun q hq =>
        (q.startNotBefore_eq_none t).mp (has q hq)
      have hp : p.Taken t.toInt := by
        by_contra hp
        rw [(p.startNotBefore_eq_none t).mpr hp] at hy
        cases hy
      constructor
      · intro h
        constructor
        · intro as' p' bs' hl' has'' hp'
          -- it is the same period
          have hsome : ∃ y', p'.startNotBefore t = some y' := by
            by_contra hno
            have := Option.eq_none_iff_forall_not_mem.mpr fun y' hy' => hno ⟨y', hy'⟩
            exact (p'.startNotBefore_eq_none t).mp this hp'
          obtain ⟨y', hy'⟩ := hsome
          have hfind' := List.findSome?_eq_some_iff.mpr ⟨as', p', bs', hl', hy', fun q hq =>
            (q.startNotBefore_eq_none t).mpr (has'' q hq)⟩
          obtain rfl := Option.some.inj (hfind.symm.trans hfind')
          rcases OldPeriod.told_of_startNotBefore hy' with htold | ⟨hpos, hneg, -⟩
          · exact ⟨_, htold, h⟩
          · have hnow : now ≤ base + y.toInt := h.2.1
            have := hlate hpos
            omega
        · exact fun hno => absurd hp (hno p (hl ▸ List.mem_append_right as List.mem_cons_self))
      · intro h
        obtain ⟨x, hx, htells⟩ := h.1 as p bs hl has' hp
        rcases OldPeriod.told_of_startNotBefore hy with hy' | ⟨-, -, hno⟩
        · rw [hx.unique hy'] at htells
          exact htells
        · exact absurd hx (hno x)

/-- A period from `b` to `e` seconds that starts once. -/
def once (b e : Int64) (h0 : 0 ≤ b) (he : e ≤ 86400000) (hle : b ≤ e) : OldPeriod where
  begin_ := b
  end_ := e
  repeat_ := none
  absoluteRepeat := none
  once := true
  begin_nonneg := h0
  end_le := he
  begin_le := hle
  repeat_pos := fun a ha => by cases ha
  absoluteRepeat_pos := fun a ha => by cases ha
  hasRepeat := Or.inr rfl

/-- Each hour from 00:30 on, until 02:00. -/
def hourly : OldPeriod where
  begin_ := 1800000
  end_ := 7200000
  repeat_ := some 3600000
  absoluteRepeat := some 3600000
  once := false
  begin_nonneg := by decide
  end_le := by decide
  begin_le := by decide
  repeat_pos := fun _ h => Option.some.inj h ▸ by decide
  absoluteRepeat_pos := fun _ h => Option.some.inj h ▸ by decide
  hasRepeat := Or.inl rfl

def hourlySeq : PeriodSeq := ⟨[hourly], by decide⟩

def utc : TimeZone where
  dateOf t := t / 86400000
  millisOfDay t := Int64.ofInt (t % 86400000)
  midnight d := d * 86400000
  millisOfDay_nonneg t := by
    rw [Int64.le_iff_toInt_le, Int64.toInt_ofInt_of_le (by omega) (by omega)]
    show (0 : Int) ≤ _
    omega
  midnight_le t := by omega
  millisOfDay_midnight t := by
    rw [Int.mul_emod_left]
    rfl

def hourlySchedule : OldSchedule := ⟨utc, hourlySeq, fun _ => none⟩

end OldRuntime
