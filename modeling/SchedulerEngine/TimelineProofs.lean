import Mathlib.Order.Lattice
import Mathlib.Data.List.Basic

/-! # Time lines

    Disjoint covers lie over a background.  The time line is cut into segments:
    the covers, and what is left of the background between them. -/

namespace Timeline

variable {β κ : Type*} [LinearOrder κ] {lo hi : β → κ} {top a b u v : κ} {c : β} {l : List β}

/-- From `lo` up to `hi`; `none` is the background. -/
structure Segment (β κ : Type*) where
  lo : κ
  hi : κ
  cover : Option β

/-- The background between two times, unless they touch. -/
def gap (a b : κ) : List (Segment β κ) := if a < b then [⟨a, b, none⟩] else []

/-- The segments from `a` up to `top`. -/
def timeline (lo hi : β → κ) (top : κ) : κ → List β → List (Segment β κ)
  | a, [] => gap a top
  | a, c :: rest => gap a (lo c) ++ ⟨lo c, hi c, some c⟩ :: timeline lo hi top (hi c) rest

/-- The cover that has the time. -/
def coverAt (lo hi : β → κ) (l : List β) (u : κ) : Option β :=
  l.find? fun c => lo c ≤ u ∧ u < hi c

/-- The covers are not empty, and follow each other. -/
structure Covers (lo hi : β → κ) (top : κ) (l : List β) : Prop where
  lt : ∀ c ∈ l, lo c < hi c
  le_top : ∀ c ∈ l, hi c ≤ top
  disjoint : l.Pairwise fun c d => hi c ≤ lo d

theorem mem_gap {seg : Segment β κ} : seg ∈ gap a b ↔ a < b ∧ seg = ⟨a, b, none⟩ := by
  rw [gap]
  split
  · rename_i h
    rw [List.mem_singleton]
    exact ⟨fun heq => ⟨h, heq⟩, fun heq => heq.2⟩
  · rename_i h
    refine ⟨fun hmem => absurd hmem List.not_mem_nil, ?_⟩
    rintro ⟨hlt, -⟩
    exact absurd hlt h

theorem Covers.tail (h : Covers lo hi top (c :: l)) : Covers lo hi top l :=
  ⟨fun d hd => h.lt d (List.mem_cons_of_mem _ hd),
    fun d hd => h.le_top d (List.mem_cons_of_mem _ hd), (List.pairwise_cons.mp h.disjoint).2⟩

theorem Covers.hi_le (h : Covers lo hi top (c :: l)) {d : β} (hd : d ∈ l) : hi c ≤ lo d :=
  (List.pairwise_cons.mp h.disjoint).1 d hd

/-- Only one cover has the time. -/
theorem coverAt_eq_some (h : Covers lo hi top l) :
    coverAt lo hi l u = some c ↔ c ∈ l ∧ lo c ≤ u ∧ u < hi c := by
  constructor
  · intro hc
    have hp := List.find?_some hc
    exact ⟨List.mem_of_find?_eq_some hc, of_decide_eq_true hp⟩
  · rintro ⟨hmem, hlo, hhi⟩
    induction l with
    | nil => cases hmem
    | cons d l ih =>
        rcases List.mem_cons.mp hmem with rfl | hmem
        · exact List.find?_cons_of_pos (decide_eq_true ⟨hlo, hhi⟩)
        · have hd : ¬decide (lo d ≤ u ∧ u < hi d) = true := by
            intro hd
            exact absurd (of_decide_eq_true hd).2 (not_lt_of_ge (le_trans (h.hi_le hmem) hlo))
          rw [coverAt, List.find?_cons_of_neg (p := fun c => decide (lo c ≤ u ∧ u < hi c)) hd]
          exact ih h.tail hmem

theorem coverAt_eq_none : coverAt lo hi l u = none ↔ ∀ c ∈ l, u < lo c ∨ hi c ≤ u := by
  rw [coverAt, List.find?_eq_none]
  constructor
  · intro h c hc
    have := h c hc
    by_contra hcon
    obtain ⟨h1, h2⟩ := not_or.mp hcon
    exact this (decide_eq_true ⟨le_of_not_gt h1, lt_of_not_ge h2⟩)
  · intro h c hc hd
    obtain ⟨h1, h2⟩ := of_decide_eq_true hd
    rcases h c hc with h3 | h3
    · exact absurd h1 (not_le_of_gt h3)
    · exact absurd h2 (not_lt_of_ge h3)

/-- Each time from `a` on lies in a segment. -/
theorem exists_segment (h : Covers lo hi top l) (ha : a ≤ u) (hu : u < top) :
    ∃ seg ∈ timeline lo hi top a l, seg.lo ≤ u ∧ u < seg.hi := by
  induction l generalizing a with
  | nil => exact ⟨⟨a, top, none⟩, mem_gap.mpr ⟨lt_of_le_of_lt ha hu, rfl⟩, ha, hu⟩
  | cons c l ih =>
      by_cases h1 : u < lo c
      · exact ⟨⟨a, lo c, none⟩, List.mem_append_left _
          (mem_gap.mpr ⟨lt_of_le_of_lt ha h1, rfl⟩), ha, h1⟩
      · by_cases h2 : u < hi c
        · exact ⟨⟨lo c, hi c, some c⟩, List.mem_append_right _ List.mem_cons_self,
            le_of_not_gt h1, h2⟩
        · obtain ⟨seg, hmem, hseg⟩ := ih h.tail (le_of_not_gt h2)
          exact ⟨seg, List.mem_append_right _ (List.mem_cons_of_mem _ hmem), hseg⟩

/-- The end of each segment of a cover, and where a segment of the background
    begins and ends. -/
structure IsSegment (lo hi : β → κ) (top a : κ) (l : List β) (seg : Segment β κ) : Prop where
  lt : seg.lo < seg.hi
  le_top : seg.hi ≤ top
  cover : ∀ c, seg.cover = some c → c ∈ l ∧ seg.lo = lo c ∧ seg.hi = hi c
  begins : seg.cover = none → seg.lo = a ∨ ∃ c ∈ l, seg.lo = hi c
  ends : seg.cover = none → seg.hi = top ∨ ∃ c ∈ l, seg.hi = lo c
  free : seg.cover = none → ∀ c ∈ l, hi c ≤ seg.lo ∨ seg.hi ≤ lo c

theorem isSegment_gap {b : κ} (hab : a < b) (hb : b ≤ top) (he : b = top ∨ ∃ c ∈ l, b = lo c)
    (hfree : ∀ c ∈ l, hi c ≤ a ∨ b ≤ lo c) : IsSegment lo hi top a l ⟨a, b, none⟩ := by
  refine ⟨hab, hb, ?_, fun _ => Or.inl rfl, fun _ => he, fun _ => hfree⟩
  intro c hc
  cases hc

theorem isSegment_of_mem (h : Covers lo hi top l) {seg : Segment β κ}
    (hmem : seg ∈ timeline lo hi top a l) : IsSegment lo hi top a l seg := by
  induction l generalizing a with
  | nil =>
      obtain ⟨hlt, rfl⟩ := mem_gap.mp hmem
      exact isSegment_gap hlt (le_refl _) (Or.inl rfl) fun c hc => absurd hc List.not_mem_nil
  | cons c l ih =>
      rcases List.mem_append.mp hmem with hmem | hmem
      · obtain ⟨hlt, rfl⟩ := mem_gap.mp hmem
        have hc := h.lt c List.mem_cons_self
        refine isSegment_gap hlt (le_trans (le_of_lt hc) (h.le_top c List.mem_cons_self))
          (Or.inr ⟨c, List.mem_cons_self, rfl⟩) ?_
        intro d hd
        rcases List.mem_cons.mp hd with rfl | hd
        · exact Or.inr (le_refl _)
        · exact Or.inr (le_trans (le_of_lt hc) (h.hi_le hd))
      · rcases List.mem_cons.mp hmem with rfl | hmem
        · refine ⟨h.lt c List.mem_cons_self, h.le_top c List.mem_cons_self, ?_, ?_, ?_, ?_⟩
          · intro d hd
            cases hd
            exact ⟨List.mem_cons_self, rfl, rfl⟩
          all_goals
            intro hnone
            cases hnone
        · have hseg := ih h.tail hmem
          refine ⟨hseg.lt, hseg.le_top, ?_, ?_, ?_, ?_⟩
          · intro d hd
            obtain ⟨hdl, hd⟩ := hseg.cover d hd
            exact ⟨List.mem_cons_of_mem _ hdl, hd⟩
          · intro hnone
            rcases hseg.begins hnone with heq | ⟨d, hd, heq⟩
            · exact Or.inr ⟨c, List.mem_cons_self, heq⟩
            · exact Or.inr ⟨d, List.mem_cons_of_mem _ hd, heq⟩
          · intro hnone
            rcases hseg.ends hnone with heq | ⟨d, hd, heq⟩
            · exact Or.inl heq
            · exact Or.inr ⟨d, List.mem_cons_of_mem _ hd, heq⟩
          · intro hnone d hd
            rcases List.mem_cons.mp hd with rfl | hd
            · rcases hseg.begins hnone with heq | ⟨e, he, heq⟩
              · exact Or.inl (le_of_eq heq.symm)
              · refine Or.inl (le_trans (h.hi_le he) ?_)
                rw [heq]
                exact le_of_lt (h.lt e (List.mem_cons_of_mem _ he))
            · exact hseg.free hnone d hd

/-- A segment has the same cover everywhere. -/
theorem coverAt_of_mem (h : Covers lo hi top l) {seg : Segment β κ}
    (hmem : seg ∈ timeline lo hi top a l) (hlo : seg.lo ≤ u) (hhi : u < seg.hi) :
    coverAt lo hi l u = seg.cover := by
  have hseg := isSegment_of_mem h hmem
  cases hc : seg.cover with
  | some c =>
      obtain ⟨hcl, h1, h2⟩ := hseg.cover c hc
      rw [h1] at hlo
      rw [h2] at hhi
      exact (coverAt_eq_some h).mpr ⟨hcl, hlo, hhi⟩
  | none =>
      refine coverAt_eq_none.mpr ?_
      intro c hcl
      rcases hseg.free hc c hcl with h1 | h1
      · exact Or.inr (le_trans h1 hlo)
      · exact Or.inl (lt_of_lt_of_le hhi h1)

/-- A segment is as long as its cover stays the same. -/
theorem segment_maximal (h : Covers lo hi top l) {seg : Segment β κ}
    (hmem : seg ∈ timeline lo hi top a l) (hlo : seg.lo ≤ u) (hhi : u < seg.hi) {x y : κ}
    (hax : a ≤ x) (hy : y ≤ top) (hxu : x ≤ u) (huy : u < y)
    (hsame : ∀ v, x ≤ v → v < y → coverAt lo hi l v = coverAt lo hi l u) :
    seg.lo ≤ x ∧ y ≤ seg.hi := by
  have hseg := isSegment_of_mem h hmem
  rw [coverAt_of_mem h hmem hlo hhi] at hsame
  cases hc : seg.cover with
  | some c =>
      obtain ⟨hcl, h1, h2⟩ := hseg.cover c hc
      rw [hc] at hsame
      constructor
      · rw [h1]
        exact ((coverAt_eq_some h).mp (hsame x (le_refl x) (lt_of_le_of_lt hxu huy))).2.1
      · by_contra hcon
        rw [h2] at hcon hhi
        exact absurd ((coverAt_eq_some h).mp (hsame (hi c) (le_trans hxu (le_of_lt hhi))
          (lt_of_not_ge hcon))).2.2 (lt_irrefl _)
  | none =>
      rw [hc] at hsame
      -- no cover begins or ends within the interval
      have hout : ∀ c ∈ l, hi c ≤ x ∨ y ≤ lo c := by
        intro c hcl
        by_contra hcon
        obtain ⟨h1, h2⟩ := not_or.mp hcon
        have hv := coverAt_eq_none.mp (hsame (max x (lo c)) (le_max_left _ _)
          (max_lt (lt_of_le_of_lt hxu huy) (lt_of_not_ge h2))) c hcl
        rcases hv with hv | hv
        · exact absurd (le_max_right x (lo c)) (not_le_of_gt hv)
        · exact absurd hv (not_le_of_gt (max_lt (lt_of_not_ge h1) (h.lt c hcl)))
      constructor
      · rcases hseg.begins hc with heq | ⟨c, hcl, heq⟩
        · rw [heq]
          exact hax
        · rcases hout c hcl with h1 | h1
          · rw [heq]
            exact h1
          · rw [heq] at hlo
            exact absurd (lt_of_lt_of_le (lt_of_lt_of_le huy h1) (le_of_lt (h.lt c hcl)))
              (not_lt_of_ge hlo)
      · rcases hseg.ends hc with heq | ⟨c, hcl, heq⟩
        · rw [heq]
          exact hy
        · rcases hout c hcl with h1 | h1
          · rw [heq] at hhi
            exact absurd (lt_of_lt_of_le (lt_of_lt_of_le hhi (le_of_lt (h.lt c hcl))) h1)
              (not_lt_of_ge hxu)
          · rw [heq]
            exact h1

theorem lo_le_of_mem (h : Covers lo hi top l) (ha : ∀ c ∈ l, a ≤ lo c) {seg : Segment β κ}
    (hmem : seg ∈ timeline lo hi top a l) : a ≤ seg.lo := by
  have hseg := isSegment_of_mem h hmem
  cases hc : seg.cover with
  | some c =>
      obtain ⟨hcl, h1, -⟩ := hseg.cover c hc
      rw [h1]
      exact ha c hcl
  | none =>
      rcases hseg.begins hc with heq | ⟨c, hcl, heq⟩
      · exact le_of_eq heq.symm
      · rw [heq]
        exact le_trans (ha c hcl) (le_of_lt (h.lt c hcl))

/-- The segments follow each other. -/
theorem timeline_pairwise (h : Covers lo hi top l) :
    (timeline lo hi top a l).Pairwise fun s t => s.hi ≤ t.lo := by
  have hgap : ∀ (x y : κ), (gap x y : List (Segment β κ)).Pairwise fun s t => s.hi ≤ t.lo := by
    intro x y
    rw [gap]
    split
    · exact List.pairwise_singleton _ _
    · exact List.Pairwise.nil
  induction l generalizing a with
  | nil => exact hgap a top
  | cons c l ih =>
      have hrest : ∀ seg ∈ timeline lo hi top (hi c) l, hi c ≤ seg.lo := fun seg hseg =>
        lo_le_of_mem h.tail (fun d hd => h.hi_le hd) hseg
      refine List.pairwise_append.mpr ⟨hgap a (lo c), List.pairwise_cons.mpr ⟨hrest, ih h.tail⟩, ?_⟩
      intro s hs t ht
      obtain ⟨-, rfl⟩ := mem_gap.mp hs
      rcases List.mem_cons.mp ht with rfl | ht
      · exact le_refl _
      · exact le_trans (le_of_lt (h.lt c List.mem_cons_self)) (hrest t ht)

/-! ## The first segment with a property -/

variable {p : Segment β κ → Bool}

theorem find?_gap_append {r : List (Segment β κ)} :
    (gap a b ++ r).find? p
      = if a < b ∧ p ⟨a, b, none⟩ = true then some ⟨a, b, none⟩ else r.find? p := by
  rw [gap]
  by_cases h : a < b
  · rw [if_pos h, List.singleton_append]
    by_cases hp : p ⟨a, b, none⟩ = true
    · rw [List.find?_cons_of_pos hp, if_pos ⟨h, hp⟩]
    · rw [List.find?_cons_of_neg hp, if_neg fun hc => hp hc.2]
  · rw [if_neg h, if_neg fun hc => h hc.1, List.nil_append]

/-- The search may begin with a cover if nothing before it has the property. -/
theorem find?_from (pre : List β) {rest : List β} (h : Covers lo hi top (pre ++ c :: rest))
    (hp : ∀ seg : Segment β κ, seg.hi ≤ lo c → p seg = false) :
    (timeline lo hi top a (pre ++ c :: rest)).find? p
      = (⟨lo c, hi c, some c⟩ :: timeline lo hi top (hi c) rest).find? p := by
  induction pre generalizing a with
  | nil =>
      rw [List.nil_append, timeline, find?_gap_append, if_neg]
      rintro ⟨-, ht⟩
      rw [hp _ (le_refl _)] at ht
      cases ht
  | cons d pre ih =>
      have hd : hi d ≤ lo c := h.hi_le (List.mem_append_right _ List.mem_cons_self)
      have hlt := h.lt d List.mem_cons_self
      rw [List.cons_append, timeline, find?_gap_append, if_neg, List.find?_cons_of_neg, ih h.tail]
      · rw [hp _ hd]
        exact Bool.false_ne_true
      · rintro ⟨-, ht⟩
        rw [hp _ (le_trans (le_of_lt hlt) hd)] at ht
        cases ht

end Timeline
