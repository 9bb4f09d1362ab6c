import Mathlib.Data.Finset.Card
import Mathlib.Data.Finset.Prod
import Mathlib.Data.Finset.Union
import Mathlib.Logic.Relation

/-! # Transitive predecessors in a finite graph

    The predecessors of a point are collected round by round, until a round adds
    nothing.  What is collected then are the points that reach it along edges. -/

namespace Predecessors

variable {α : Type*} [DecidableEq α]

def predecessors (edges : Finset (α × α)) (a : α) : Finset α :=
  (edges.filter fun e => e.2 = a).image Prod.fst

/-- One round. -/
def grow (edges : Finset (α × α)) (s : Finset α) : Finset α :=
  s ∪ s.biUnion (predecessors edges)

/-- Rounds as long as the set grows, and no more than `fuel` of them. -/
def close (edges : Finset (α × α)) : Nat → Finset α → Finset α
  | 0, s => s
  | fuel + 1, s =>
      let result := grow edges s
      if s.card < result.card then close edges fuel result else result

/-- No more rounds than edges add something. -/
def allPredecessors (edges : Finset (α × α)) (a : α) : Finset α :=
  (close edges (edges.card + 1) {a}).erase a

variable {edges : Finset (α × α)} {s t : Finset α} {a b : α} {fuel : Nat}

/-- There is an edge from `a` to `b`. -/
def Edge (edges : Finset (α × α)) (a b : α) : Prop := (a, b) ∈ edges

theorem mem_predecessors : b ∈ predecessors edges a ↔ Edge edges b a := by
  rw [predecessors, Finset.mem_image]
  constructor
  · rintro ⟨⟨x, y⟩, he, rfl⟩
    obtain ⟨he, heq⟩ := Finset.mem_filter.mp he
    show (x, a) ∈ edges
    rw [← heq]
    exact he
  · intro he
    exact ⟨(b, a), Finset.mem_filter.mpr ⟨he, rfl⟩, rfl⟩

theorem mem_grow : b ∈ grow edges s ↔ b ∈ s ∨ ∃ a ∈ s, Edge edges b a := by
  rw [grow, Finset.mem_union, Finset.mem_biUnion]
  simp only [mem_predecessors]

theorem subset_grow : s ⊆ grow edges s := Finset.subset_union_left

/-- A round that does not make the set larger adds nothing. -/
theorem grow_eq_of_card (h : ¬s.card < (grow edges s).card) : grow edges s = s :=
  (Finset.eq_of_subset_of_card_le subset_grow (Nat.le_of_not_lt h)).symm

theorem subset_close : s ⊆ close edges fuel s := by
  induction fuel generalizing s with
  | zero => exact Finset.Subset.refl s
  | succ fuel ih =>
      rw [close]
      split
      · exact subset_grow.trans ih
      · exact subset_grow

/-- Only points are collected that reach the set. -/
theorem reaches_of_mem_close (h : b ∈ close edges fuel s) :
    ∃ a ∈ s, Relation.ReflTransGen (Edge edges) b a := by
  have hgrow : ∀ {s : Finset α} {b : α}, b ∈ grow edges s →
      ∃ a ∈ s, Relation.ReflTransGen (Edge edges) b a := by
    intro s b hb
    rcases mem_grow.mp hb with hb | ⟨a, ha, he⟩
    · exact ⟨b, hb, .refl⟩
    · exact ⟨a, ha, .single he⟩
  induction fuel generalizing s with
  | zero => exact ⟨b, h, .refl⟩
  | succ fuel ih =>
      rw [close] at h
      split at h
      · obtain ⟨c, hc, hbc⟩ := ih h
        obtain ⟨a, ha, hca⟩ := hgrow hc
        exact ⟨a, ha, hbc.trans hca⟩
      · exact hgrow h

/-- With enough rounds nothing is left to be added. -/
theorem grow_close (hsub : s ⊆ t) (hsource : edges.image Prod.fst ⊆ t)
    (hfuel : t.card < s.card + fuel) : grow edges (close edges fuel s) = close edges fuel s := by
  induction fuel generalizing s with
  | zero =>
      have hle := Finset.card_le_card hsub
      omega
  | succ fuel ih =>
      rw [close]
      split
      · rename_i hlt
        refine ih ?_ (by omega)
        intro b hb
        rcases mem_grow.mp hb with hb | ⟨a, -, he⟩
        · exact hsub hb
        · exact hsource (Finset.mem_image_of_mem Prod.fst he)
      · rename_i hsame
        have hgrow := grow_eq_of_card hsame
        show grow edges (grow edges s) = grow edges s
        rw [hgrow, hgrow]

/-- A set that is closed under predecessors contains every point that reaches it. -/
theorem mem_of_reaches (hclosed : grow edges s = s) (h : Relation.ReflTransGen (Edge edges) b a)
    (ha : a ∈ s) : b ∈ s := by
  induction h using Relation.ReflTransGen.head_induction_on with
  | refl => exact ha
  | head he _ ih =>
      rw [← hclosed]
      exact mem_grow.mpr (Or.inr ⟨_, ih, he⟩)

/-- The points, other than `a`, from which edges lead to `a`. -/
theorem mem_allPredecessors :
    b ∈ allPredecessors edges a ↔ b ≠ a ∧ Relation.ReflTransGen (Edge edges) b a := by
  rw [allPredecessors, Finset.mem_erase]
  refine and_congr_right fun _ => ?_
  constructor
  · intro hb
    obtain ⟨c, hc, hbc⟩ := reaches_of_mem_close hb
    rw [Finset.mem_singleton.mp hc] at hbc
    exact hbc
  · intro hreach
    have hclosed : grow edges (close edges (edges.card + 1) {a}) =
        close edges (edges.card + 1) {a} := by
      refine grow_close (t := insert a (edges.image Prod.fst)) ?_ (Finset.subset_insert _ _) ?_
      · exact Finset.singleton_subset_iff.mpr (Finset.mem_insert_self _ _)
      · have hinsert := Finset.card_insert_le a (edges.image Prod.fst)
        have himage : (edges.image Prod.fst).card ≤ edges.card := Finset.card_image_le
        rw [Finset.card_singleton]
        omega
    exact mem_of_reaches hclosed hreach (subset_close (Finset.mem_singleton_self a))

end Predecessors
