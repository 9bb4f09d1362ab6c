import Mathlib.Data.Fintype.Card
import Mathlib.Logic.Relation

/-! # Collecting over a graph by recursion

    Every node has a list of items, each of them another node or something to be
    collected.  The recursion without a list of visited nodes collects from every
    node it comes to.  Here is when it ends, and what it has collected then. -/

namespace Gathering

variable {α β : Type*}

/-! ## Partial results of a list -/

/-- The results for the elements of a list, if there are all of them. -/
def concat (f : α → Option (List β)) : List α → Option (List β)
  | [] => some []
  | a :: l => (f a).bind fun xs => (concat f l).map (xs ++ ·)

variable {f g : α → Option (List β)} {l : List α} {a : α} {x : β} {xs ys : List β}

theorem concat_cons_eq_some (h : concat f (a :: l) = some ys) :
    ∃ xs zs, f a = some xs ∧ concat f l = some zs ∧ ys = xs ++ zs := by
  rw [concat] at h
  obtain ⟨xs, hxs, h⟩ := Option.bind_eq_some_iff.mp h
  obtain ⟨zs, hzs, h⟩ := Option.map_eq_some_iff.mp h
  exact ⟨xs, zs, hxs, hzs, h.symm⟩

theorem concat_cons (hxs : f a = some xs) (hys : concat f l = some ys) :
    concat f (a :: l) = some (xs ++ ys) := by
  rw [concat, hxs, Option.bind_some, hys, Option.map_some]

/-- There is a result for every element. -/
theorem exists_of_concat (h : concat f l = some ys) : ∀ a ∈ l, ∃ xs, f a = some xs := by
  induction l generalizing ys with
  | nil =>
      intro a ha
      exact absurd ha List.not_mem_nil
  | cons b l ih =>
      obtain ⟨xs, zs, hxs, hzs, -⟩ := concat_cons_eq_some h
      rintro a (_ | ⟨_, ha⟩)
      · exact ⟨xs, hxs⟩
      · exact ih hzs a ha

theorem concat_of_exists (h : ∀ a ∈ l, ∃ xs, f a = some xs) : ∃ ys, concat f l = some ys := by
  induction l with
  | nil => exact ⟨[], rfl⟩
  | cons b l ih =>
      obtain ⟨xs, hxs⟩ := h b List.mem_cons_self
      obtain ⟨ys, hys⟩ := ih fun a ha => h a (List.mem_cons_of_mem _ ha)
      exact ⟨xs ++ ys, concat_cons hxs hys⟩

theorem mem_concat (h : concat f l = some ys) :
    x ∈ ys ↔ ∃ a ∈ l, ∃ xs, f a = some xs ∧ x ∈ xs := by
  induction l generalizing ys with
  | nil =>
      cases h
      simp
  | cons b l ih =>
      obtain ⟨xs, zs, hxs, hzs, rfl⟩ := concat_cons_eq_some h
      rw [List.mem_append, ih hzs]
      constructor
      · rintro (hx | ⟨a, ha, hrest⟩)
        · exact ⟨b, List.mem_cons_self, xs, hxs, hx⟩
        · exact ⟨a, List.mem_cons_of_mem _ ha, hrest⟩
      · rintro ⟨a, _ | ⟨_, ha⟩, ws, hws, hx⟩
        · rw [hxs] at hws
          exact Or.inl (Option.some.inj hws ▸ hx)
        · exact Or.inr ⟨a, ha, ws, hws, hx⟩

/-- A better function gives the same result. -/
theorem concat_mono (hfg : ∀ a ∈ l, ∀ xs, f a = some xs → g a = some xs)
    (h : concat f l = some ys) : concat g l = some ys := by
  induction l generalizing ys with
  | nil => exact h
  | cons b l ih =>
      obtain ⟨xs, zs, hxs, hzs, rfl⟩ := concat_cons_eq_some h
      exact concat_cons (hfg b List.mem_cons_self xs hxs)
        (ih (fun a ha => hfg a (List.mem_cons_of_mem _ ha)) hzs)

theorem concat_append (l l' : List α) :
    concat f (l ++ l') = (concat f l).bind fun xs => (concat f l').map (xs ++ ·) := by
  induction l with
  | nil =>
      rw [List.nil_append, concat, Option.bind_some]
      cases concat f l' <;> rfl
  | cons a l ih =>
      rw [List.cons_append, concat, concat, ih]
      cases f a with
      | none => rfl
      | some xs =>
          cases concat f l with
          | none => rfl
          | some ys =>
              cases concat f l' with
              | none => rfl
              | some zs => exact congrArg some (List.append_assoc xs ys zs).symm

theorem concat_map {γ : Type*} (k : γ → α) (l : List γ) :
    concat f (l.map k) = concat (fun c => f (k c)) l := by
  induction l with
  | nil => rfl
  | cons c l ih => rw [List.map_cons, concat, concat, ih]

/-- Element for element. -/
theorem concat_flatMap {γ : Type*} (k : γ → List α) (l : List γ) :
    concat f (l.flatMap k) = concat (fun c => concat f (k c)) l := by
  induction l with
  | nil => rfl
  | cons c l ih => rw [List.flatMap_cons, concat_append, ih, concat]

/-! ## The recursion -/

/-- What is collected from a node, with `fuel` nested calls. -/
def gather (items : α → List (α ⊕ β)) : Nat → α → Option (List β)
  | 0, _ => none
  | fuel + 1, a => concat (Sum.elim (gather items fuel) fun x => some [x]) (items a)

/-- The recursion goes from `a` to `b`. -/
def Child (items : α → List (α ⊕ β)) (a b : α) : Prop := Sum.inl b ∈ items a

variable {items : α → List (α ⊕ β)} {m n : Nat} {b c : α}

theorem gather_succ (h : gather items n a = some xs) : gather items (n + 1) a = some xs := by
  induction n generalizing a xs with
  | zero => cases h
  | succ n ih =>
      refine concat_mono ?_ h
      rintro (b | x) - ys hys
      · exact ih hys
      · exact hys

theorem gather_mono (hle : n ≤ m) (h : gather items n a = some xs) :
    gather items m a = some xs := by
  induction hle with
  | refl => exact h
  | step _ ih => exact gather_succ ih

/-- What has been collected are the things of the nodes that are reachable. -/
theorem mem_gather (h : gather items n a = some xs) :
    x ∈ xs ↔ ∃ b, Relation.ReflTransGen (Child items) a b ∧ Sum.inr x ∈ items b := by
  induction n generalizing a xs with
  | zero => cases h
  | succ n ih =>
      rw [gather] at h
      rw [mem_concat h]
      constructor
      · rintro ⟨b | y, hmem, ys, hys, hx⟩
        · obtain ⟨c, hreach, hc⟩ := (ih hys).mp hx
          exact ⟨c, hreach.head hmem, hc⟩
        · cases hys
          rw [List.mem_singleton.mp hx]
          exact ⟨a, .refl, hmem⟩
      · rintro ⟨b, hreach, hb⟩
        rcases hreach.cases_head with rfl | ⟨c, hchild, hrest⟩
        · exact ⟨Sum.inr x, hb, [x], rfl, List.mem_cons_self⟩
        · obtain ⟨ys, hys⟩ := exists_of_concat h _ hchild
          exact ⟨Sum.inl c, hchild, ys, hys, (ih hys).mpr ⟨b, hrest, hb⟩⟩

/-! ## When it ends -/

theorem acc_of_gather (h : gather items n a = some xs) :
    Acc (fun b a => Child items a b) a := by
  induction n generalizing a xs with
  | zero => cases h
  | succ n ih =>
      refine ⟨a, ?_⟩
      intro b hchild
      obtain ⟨ys, hys⟩ := exists_of_concat h _ hchild
      exact ih hys

/-- Finitely many elements that have a result have one with the same fuel. -/
theorem exists_fuel {γ : Type*} {F : Nat → γ → Option (List β)} {l : List γ}
    (hmono : ∀ n m c xs, n ≤ m → F n c = some xs → F m c = some xs)
    (h : ∀ c ∈ l, ∃ n xs, F n c = some xs) : ∃ n, ∀ c ∈ l, ∃ xs, F n c = some xs := by
  induction l with
  | nil => exact ⟨0, fun c hc => absurd hc List.not_mem_nil⟩
  | cons d l ih =>
      obtain ⟨n, xs, hxs⟩ := h d List.mem_cons_self
      obtain ⟨m, hm⟩ := ih fun c hc => h c (List.mem_cons_of_mem _ hc)
      refine ⟨max n m, ?_⟩
      rintro c (_ | ⟨_, hc⟩)
      · exact ⟨xs, hmono n _ _ _ (le_max_left n m) hxs⟩
      · obtain ⟨ys, hys⟩ := hm c hc
        exact ⟨ys, hmono m _ _ _ (le_max_right n m) hys⟩

theorem gather_of_acc (h : Acc (fun b a => Child items a b) a) :
    ∃ n xs, gather items n a = some xs := by
  induction h with
  | intro a _ ih =>
      have hitems : ∀ c ∈ items a, ∃ n xs,
          Sum.elim (gather items n) (fun x => some [x]) c = some xs := by
        rintro (b | x) hmem
        · exact ih b hmem
        · exact ⟨0, [x], rfl⟩
      obtain ⟨n, hn⟩ := exists_fuel (F := fun n => Sum.elim (gather items n) fun x => some [x])
        (by
          rintro n m (b | x) xs hle hxs
          · exact gather_mono hle hxs
          · exact hxs) hitems
      obtain ⟨ys, hys⟩ := concat_of_exists hn
      exact ⟨n + 1, ys, hys⟩

/-- An accessible point is on no cycle. -/
theorem not_transGen_of_acc {r : α → α → Prop} (h : Acc r a) : ¬Relation.TransGen r a a := by
  have hacc : Acc (Relation.TransGen r) a := h.transGen
  clear h
  induction hacc with
  | intro b _ ih =>
      intro hcycle
      exact ih b hcycle hcycle

theorem acc_of_reach {r : α → α → Prop} (h : Acc (fun b a => r a b) a)
    (hreach : Relation.ReflTransGen r a b) : Acc (fun b a => r a b) b := by
  induction hreach with
  | refl => exact h
  | tail _ hstep ih => exact ih.inv hstep

/-- On finitely many points a relation can be followed down from `a` if and only if no
    cycle is reachable from there. -/
theorem acc_iff [Finite α] {r : α → α → Prop} :
    Acc (fun b a => r a b) a ↔
      ¬∃ b, Relation.ReflTransGen r a b ∧ Relation.TransGen r b b := by
  constructor
  · rintro h ⟨b, hreach, hcycle⟩
    exact not_transGen_of_acc (acc_of_reach h hreach) (Relation.transGen_swap.mp hcycle)
  · intro hnone
    -- the relation between the points that are reachable
    let s : α → α → Prop := fun y x => Relation.ReflTransGen r a x ∧ r x y
    have hirrefl : ∀ x, ¬Relation.TransGen s x x := by
      intro x hcycle
      refine hnone ⟨x, ?_, ?_⟩
      · obtain ⟨z, -, hlast⟩ := Relation.TransGen.tail'_iff.mp hcycle
        exact hlast.1
      · have hsub : s ≤ fun y x => r x y := fun _ _ h => h.2
        exact Relation.transGen_swap.mp (Relation.TransGen.mono hsub _ _ hcycle)
    have : Std.Irrefl (Relation.TransGen s) := ⟨hirrefl⟩
    have hwf : WellFounded (Relation.TransGen s) := Finite.wellFounded_of_trans_of_irrefl _
    have hall : ∀ x, Relation.ReflTransGen r a x → Acc (fun b a => r a b) x := by
      intro x
      induction x using hwf.induction with
      | h x ih =>
          intro hx
          refine ⟨x, ?_⟩
          intro y hy
          exact ih y (.single ⟨hx, hy⟩) (hx.tail hy)
    exact hall a .refl

/-- The recursion ends if and only if it comes to no cycle. -/
theorem gather_iff [Finite α] :
    (∃ n xs, gather items n a = some xs) ↔
      ¬∃ b, Relation.ReflTransGen (Child items) a b ∧ Relation.TransGen (Child items) b b := by
  rw [← acc_iff]
  constructor
  · rintro ⟨n, xs, h⟩
    exact acc_of_gather h
  · exact gather_of_acc

end Gathering
