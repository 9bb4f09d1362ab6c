import Mathlib.Order.Lattice
import Mathlib.Data.List.Basic
import Mathlib.Data.Set.Basic

/-! # The first of the least

    A minimum by a key that prefers the earlier one of two equal keys, over a
    list.  Minima of parts are put together, and a minimum is carried through a
    map that is monotone up to a bound. -/

namespace LeftmostLeast

variable {α β κ : Type*} [LinearOrder κ] {key : α → κ} {key' : β → κ} {a b c top : α}
  {l l' : List α}

/-- The first one unless the second is smaller. -/
def pick (key : α → κ) (a b : α) : α := if key b < key a then b else a

theorem pick_of_lt (h : key b < key a) : pick key a b = b := if_pos h

theorem pick_of_le (h : key a ≤ key b) : pick key a b = a := if_neg (not_lt_of_ge h)

theorem key_pick_le_left : key (pick key a b) ≤ key a := by
  by_cases h : key b < key a
  · rw [pick_of_lt h]
    exact le_of_lt h
  · rw [pick_of_le (le_of_not_gt h)]

theorem key_pick_le_right : key (pick key a b) ≤ key b := by
  by_cases h : key b < key a
  · rw [pick_of_lt h]
  · rw [pick_of_le (le_of_not_gt h)]
    exact le_of_not_gt h

theorem pick_eq_or (key : α → κ) (a b : α) : pick key a b = a ∨ pick key a b = b := by
  by_cases h : key b < key a
  · exact Or.inr (pick_of_lt h)
  · exact Or.inl (pick_of_le (le_of_not_gt h))

theorem pick_assoc : pick key (pick key a b) c = pick key a (pick key b c) := by
  by_cases hb : key b < key a
  · rw [pick_of_lt hb]
    rcases pick_eq_or key b c with h | h
    · rw [h, pick_of_lt hb]
    · have hc : key (pick key b c) ≤ key b := key_pick_le_left
      rw [h] at hc
      rw [h, pick_of_lt (lt_of_le_of_lt hc hb)]
  · have hb := le_of_not_gt hb
    rw [pick_of_le hb]
    by_cases hc : key c < key b
    · rw [pick_of_lt hc]
    · have hc := le_of_not_gt hc
      rw [pick_of_le hc, pick_of_le hb, pick_of_le (le_trans hb hc)]

/-- The first of the least of `a` and the elements of the list. -/
def least (key : α → κ) (a : α) (l : List α) : α := l.foldl (pick key) a

theorem least_nil : least key a [] = a := rfl

theorem least_cons : least key a (b :: l) = least key (pick key a b) l := rfl

theorem least_append : least key a (l ++ l') = least key (least key a l) l' :=
  List.foldl_append

theorem least_pick : least key (pick key a b) l = pick key a (least key b l) := by
  induction l generalizing b with
  | nil => rfl
  | cons c l ih =>
      rw [least_cons, least_cons, pick_assoc]
      exact ih

theorem key_least_le_init : key (least key a l) ≤ key a := by
  induction l generalizing a with
  | nil => exact le_refl _
  | cons b l ih => exact le_trans ih key_pick_le_left

theorem key_least_le (h : b ∈ l) : key (least key a l) ≤ key b := by
  induction l generalizing a with
  | nil => cases h
  | cons c l ih =>
      rw [least_cons]
      rcases List.mem_cons.mp h with heq | h
      · rw [heq]
        exact le_trans key_least_le_init key_pick_le_right
      · exact ih h

theorem least_eq_or_mem (key : α → κ) (a : α) (l : List α) :
    least key a l = a ∨ least key a l ∈ l := by
  induction l generalizing a with
  | nil => exact Or.inl rfl
  | cons b l ih =>
      rw [least_cons]
      rcases ih (pick key a b) with h | h
      · rw [h]
        rcases pick_eq_or key a b with h | h
        · exact Or.inl h
        · exact Or.inr (List.mem_cons.mpr (Or.inl h))
      · exact Or.inr (List.mem_cons_of_mem _ h)

/-- What is smaller than the start value comes from the list. -/
theorem least_mem (h : key (least key a l) < key a) : least key a l ∈ l := by
  rcases least_eq_or_mem key a l with heq | hmem
  · rw [heq] at h
    exact absurd h (lt_irrefl _)
  · exact hmem

theorem least_eq_init (h : ∀ b ∈ l, key a ≤ key b) : least key a l = a := by
  induction l with
  | nil => rfl
  | cons b l ih =>
      rw [least_cons, pick_of_le (h b List.mem_cons_self)]
      exact ih fun c hc => h c (List.mem_cons_of_mem _ hc)

/-- Where the least stands: what comes before it is larger. -/
theorem exists_split (h : key (least key a l) < key a) :
    ∃ as bs, l = as ++ least key a l :: bs ∧ (∀ b ∈ as, key (least key a l) < key b) ∧
      ∀ b ∈ bs, key (least key a l) ≤ key b := by
  induction l generalizing a with
  | nil => exact absurd h (lt_irrefl _)
  | cons c l ih =>
      rw [least_cons] at h ⊢
      by_cases hlt : key (least key (pick key a c) l) < key (pick key a c)
      · obtain ⟨as, bs, hl, has, hbs⟩ := ih hlt
        refine ⟨c :: as, bs, congrArg (c :: ·) hl, ?_, hbs⟩
        intro b hb
        rcases List.mem_cons.mp hb with rfl | hb
        · exact lt_of_lt_of_le hlt key_pick_le_right
        · exact has b hb
      · -- `c` itself is the least
        have hle : ∀ b ∈ l, key (pick key a c) ≤ key b := fun b hb =>
          le_trans (le_of_not_gt hlt) (key_least_le hb)
        rw [least_eq_init hle] at h ⊢
        rcases pick_eq_or key a c with heq | heq
        · rw [heq] at h
          exact absurd h (lt_irrefl _)
        · rw [heq] at hle ⊢
          exact ⟨[], l, rfl, fun b hb => absurd hb List.not_mem_nil, hle⟩

/-! ## Minima of parts -/

/-- The start value of the second minimum does not count if it is not smaller. -/
theorem pick_least (h : key a ≤ key top) : pick key a (least key top l) = least key a l := by
  rw [← least_pick, pick_of_le h]

/-- Minima of the parts, one after the other. -/
theorem foldl_pick_least {L : List (List α)} (h : key a ≤ key top) :
    L.foldl (fun r l => pick key r (least key top l)) a = least key a L.flatten := by
  induction L generalizing a with
  | nil => rfl
  | cons l L ih =>
      rw [List.foldl_cons, List.flatten_cons, least_append, pick_least h]
      exact ih (le_trans key_least_le_init h)

/-- The first element of a sorted list that satisfies a condition is the least. -/
theorem find?_getD_eq_least {p : α → Bool} (hl : l.Pairwise fun a b => key a < key b)
    (htop : ∀ a ∈ l, key a < key top) : (l.find? p).getD top = least key top (l.filter p) := by
  induction l with
  | nil => rfl
  | cons b l ih =>
      obtain ⟨hb, hl⟩ := List.pairwise_cons.mp hl
      cases hp : p b with
      | true =>
          rw [List.find?_cons_of_pos hp, List.filter_cons_of_pos hp, least_cons,
            pick_of_lt (htop b List.mem_cons_self), Option.getD_some]
          exact (least_eq_init fun c hc => le_of_lt (hb c (List.mem_of_mem_filter hc))).symm
      | false =>
          have hp' : ¬p b = true := fun h => Bool.false_ne_true (hp.symm.trans h)
          rw [List.find?_cons_of_neg hp', List.filter_cons_of_neg hp']
          exact ih hl fun c hc => htop c (List.mem_cons_of_mem _ hc)

/-! ## Maps -/

/-- The map keeps the order of the keys; images from the bound on count as equal. -/
def MonotoneBelow (key : α → κ) (key' : β → κ) (bound : κ) (f : α → β) (l : List α) : Prop :=
  ∀ a ∈ l, ∀ b ∈ l, key' (f b) < key' (f a) ↔ key b < key a ∧ key' (f b) < bound

/-- The image of the least is the least of the images. -/
theorem pick_map_least {f : α → β} {bound : κ} {x : β}
    (hf : MonotoneBelow key key' bound f (a :: l)) (hx : key' x ≤ bound) :
    pick key' x (f (least key a l)) = least key' (pick key' x (f a)) (l.map f) := by
  induction l generalizing a with
  | nil => rfl
  | cons b l ih =>
      have hab := hf a List.mem_cons_self b (List.mem_cons_of_mem _ List.mem_cons_self)
      have hba := hf b (List.mem_cons_of_mem _ List.mem_cons_self) a List.mem_cons_self
      have hsub : MonotoneBelow key key' bound f (pick key a b :: l) := by
        intro c hc d hd
        have hmem : ∀ e ∈ pick key a b :: l, e ∈ a :: b :: l := by
          intro e he
          rcases List.mem_cons.mp he with heq | he
          · rw [heq]
            rcases pick_eq_or key a b with h | h
            · rw [h]
              exact List.mem_cons_self
            · rw [h]
              exact List.mem_cons_of_mem _ List.mem_cons_self
          · exact List.mem_cons_of_mem _ (List.mem_cons_of_mem _ he)
        exact hf c (hmem c hc) d (hmem d hd)
      rw [least_cons, ih hsub, List.map_cons, least_cons]
      congr 1
      rw [pick_assoc]
      by_cases h : key b < key a
      · rw [pick_of_lt h]
        by_cases hb : key' (f b) < bound
        · rw [pick_of_lt (hab.mpr ⟨h, hb⟩)]
        · -- both images are at the bound, where nothing is picked
          have hle : key' (f a) ≤ key' (f b) := le_of_not_gt fun hlt => hb (hab.mp hlt).2
          have hge : key' (f b) ≤ key' (f a) :=
            le_of_not_gt fun hlt => lt_asymm h (hba.mp hlt).1
          have hb := le_of_not_gt hb
          rw [pick_of_le hle, pick_of_le (le_trans hx hb),
            pick_of_le (le_trans hx (le_trans hb hge))]
      · rw [pick_of_le (le_of_not_gt h),
          pick_of_le (a := f a) (le_of_not_gt fun hlt => h (hab.mp hlt).1)]

/-! ## The least of a set, or a bound -/

/-- `x` is the least element of the set, or the bound if nothing is below it. -/
structure LeastOr (S : Set κ) (bound x : κ) : Prop where
  mem : x < bound → x ∈ S
  le : ∀ y ∈ S, x ≤ y
  le_bound : x ≤ bound

variable {S T : Set κ} {bound x y : κ}

theorem leastOr_bound (h : ∀ y ∈ S, bound ≤ y) : LeastOr S bound bound :=
  ⟨fun hlt => absurd hlt (lt_irrefl _), h, le_refl _⟩

theorem leastOr_of_mem (h : x ∈ S) (hle : ∀ y ∈ S, x ≤ y) (hb : x ≤ bound) :
    LeastOr S bound x := ⟨fun _ => h, hle, hb⟩

theorem LeastOr.congr (h : LeastOr S bound x) (hST : ∀ y, y < bound → (y ∈ S ↔ y ∈ T)) :
    LeastOr T bound x := by
  refine ⟨fun hx => (hST x hx).mp (h.mem hx), ?_, h.le_bound⟩
  intro y hy
  by_cases hyb : y < bound
  · exact h.le y ((hST y hyb).mpr hy)
  · exact le_trans h.le_bound (le_of_not_gt hyb)

/-- The first of the least of two parts. -/
theorem LeastOr.pick (ha : LeastOr S bound (key a)) (hb : LeastOr T bound (key b)) :
    LeastOr (S ∪ T) bound (key (pick key a b)) := by
  refine ⟨?_, ?_, le_trans key_pick_le_left ha.le_bound⟩
  · intro hlt
    rcases pick_eq_or key a b with h | h
    · rw [h] at hlt ⊢
      exact Or.inl (ha.mem hlt)
    · rw [h] at hlt ⊢
      exact Or.inr (hb.mem hlt)
  · rintro y (hy | hy)
    · exact le_trans key_pick_le_left (ha.le y hy)
    · exact le_trans key_pick_le_right (hb.le y hy)

/-- The first of the least of several parts. -/
theorem LeastOr.least_map {f : β → α} {U : β → Set κ} {l : List β}
    (ha : LeastOr S bound (key a)) (hf : ∀ b ∈ l, LeastOr (U b) bound (key (f b))) :
    LeastOr {x | x ∈ S ∨ ∃ b ∈ l, x ∈ U b} bound (key (least key a (l.map f))) := by
  induction l generalizing a S with
  | nil =>
      refine ha.congr fun y _ => ⟨Or.inl, ?_⟩
      rintro (hy | ⟨b, hb, -⟩)
      · exact hy
      · cases hb
  | cons b l ih =>
      have hpick := ha.pick (hf b List.mem_cons_self)
      refine (ih hpick fun c hc => hf c (List.mem_cons_of_mem _ hc)).congr ?_
      intro y _
      constructor
      · rintro ((hy | hy) | ⟨c, hc, hy⟩)
        · exact Or.inl hy
        · exact Or.inr ⟨b, List.mem_cons_self, hy⟩
        · exact Or.inr ⟨c, List.mem_cons_of_mem _ hc, hy⟩
      · rintro (hy | ⟨c, hc, hy⟩)
        · exact Or.inl (Or.inl hy)
        · rcases List.mem_cons.mp hc with rfl | hc
          · exact Or.inl (Or.inr hy)
          · exact Or.inr ⟨c, hc, hy⟩

end LeftmostLeast
