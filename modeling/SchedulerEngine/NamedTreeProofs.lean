import Mathlib.Data.List.Sort
import Mathlib.Data.List.Nodup

/-! # Trees of named entries

    A level is a list of entries with names: leaves, and nodes with a level below them.
    `find`, `put` and `erase` work on one level, `itemAt` goes down along a path. -/

namespace NamedTree

variable {N α β : Type}

/-- The entries of a level in their order, with what is below them. -/
inductive Level (N α β : Type) where
  | nil
  | leaf (name : N) (a : α) (rest : Level N α β)
  | node (name : N) (b : β) (below rest : Level N α β)

/-- What stands under a name. -/
inductive Item (N α β : Type) where
  | leaf (a : α)
  | node (b : β) (below : Level N α β)

namespace Level

/-- An entry before the others. -/
def cons (n : N) : Item N α β → Level N α β → Level N α β
  | .leaf a, t => leaf n a t
  | .node b below, t => node n b below t

/-- The names of this level. -/
def names : Level N α β → List N
  | nil => []
  | leaf n _ rest => n :: rest.names
  | node n _ _ rest => n :: rest.names

/-- The entries of this level. -/
def items : Level N α β → List (N × Item N α β)
  | nil => []
  | leaf n a rest => (n, .leaf a) :: rest.items
  | node n b below rest => (n, .node b below) :: rest.items

/-- No name stands twice in a level. -/
def Distinct : Level N α β → Prop
  | nil => True
  | leaf n _ rest => n ∉ rest.names ∧ rest.Distinct
  | node n _ below rest => n ∉ rest.names ∧ below.Distinct ∧ rest.Distinct

/-- The names of a level increase. -/
def Sorted [LT N] : Level N α β → Prop
  | nil => True
  | leaf n _ rest => (∀ k ∈ rest.names, n < k) ∧ rest.Sorted
  | node n _ below rest => (∀ k ∈ rest.names, n < k) ∧ below.Sorted ∧ rest.Sorted

/-- Every entry satisfies `P`, at every level. -/
def All (P : N → Item N α β → Prop) : Level N α β → Prop
  | nil => True
  | leaf n a rest => P n (.leaf a) ∧ rest.All P
  | node n b below rest => P n (.node b below) ∧ below.All P ∧ rest.All P

/-- The number of leaves, at every level, whose name satisfies `p`. -/
def count (p : N → Prop) [DecidablePred p] : Level N α β → Nat
  | nil => 0
  | leaf n _ rest => (if p n then 1 else 0) + rest.count p
  | node _ _ below rest => below.count p + rest.count p

variable [LinearOrder N]

/-- The first entry with the name. -/
def find (n : N) : Level N α β → Option (Item N α β)
  | nil => none
  | leaf k a rest => if k = n then some (.leaf a) else rest.find n
  | node k b below rest => if k = n then some (.node b below) else rest.find n

/-- The entry takes the place of the one with its name, or comes last. -/
def put (n : N) (x : Item N α β) : Level N α β → Level N α β
  | nil => cons n x nil
  | leaf k a rest => if k = n then cons n x rest else leaf k a (rest.put n x)
  | node k b below rest => if k = n then cons n x rest else node k b below (rest.put n x)

/-- The first entry with the name goes. -/
def erase (n : N) : Level N α β → Level N α β
  | nil => nil
  | leaf k a rest => if k = n then rest else leaf k a (rest.erase n)
  | node k b below rest => if k = n then rest else node k b below (rest.erase n)

/-- The entries of this level in the order of their names. -/
def ordered (t : Level N α β) : List (N × Item N α β) :=
  t.items.insertionSort fun x y => x.1 ≤ y.1

/-- What stands at the end of a path that is not empty. -/
def itemAt (t : Level N α β) : List N → Option (Item N α β)
  | [] => none
  | [n] => t.find n
  | n :: path =>
      match t.find n with
      | some (.node _ below) => below.itemAt path
      | _ => none

end Level

open Level

variable {t : Level N α β} {n k : N} {x : Item N α β} {P : N → Item N α β → Prop}

/-- The level below an item satisfies `F`. -/
def Item.Below (F : Level N α β → Prop) : Item N α β → Prop
  | .leaf _ => True
  | .node _ below => F below

/-- The number of leaves that an item has under a name. -/
def Item.count (p : N → Prop) [DecidablePred p] (n : N) : Item N α β → Nat
  | .leaf _ => if p n then 1 else 0
  | .node _ below => below.count p

/-! ## A level, entry by entry -/

/-- Induction on the entries of a level, whatever is below them. -/
@[elab_as_elim] theorem cons_induction {motive : Level N α β → Prop} (nil : motive nil)
    (cons : ∀ n x t, motive t → motive (cons n x t)) (t : Level N α β) : motive t := by
  induction t with
  | nil => exact nil
  | leaf n a rest ih => exact cons n (.leaf a) rest ih
  | node n b below rest _ ih => exact cons n (.node b below) rest ih

@[simp] theorem names_cons : (cons n x t).names = n :: t.names := by
  cases x <;> rfl

theorem items_cons : (cons n x t).items = (n, x) :: t.items := by
  cases x <;> rfl

theorem distinct_cons : (cons n x t).Distinct ↔ n ∉ t.names ∧ x.Below Distinct ∧ t.Distinct := by
  cases x with
  | leaf a => exact ⟨fun h => ⟨h.1, trivial, h.2⟩, fun h => ⟨h.1, h.2.2⟩⟩
  | node b below => exact Iff.rfl

theorem sorted_cons [LT N] :
    (cons n x t).Sorted ↔ (∀ k ∈ t.names, n < k) ∧ x.Below Sorted ∧ t.Sorted := by
  cases x with
  | leaf a => exact ⟨fun h => ⟨h.1, trivial, h.2⟩, fun h => ⟨h.1, h.2.2⟩⟩
  | node b below => exact Iff.rfl

theorem all_cons : (cons n x t).All P ↔ P n x ∧ x.Below (All P) ∧ t.All P := by
  cases x with
  | leaf a => exact ⟨fun h => ⟨h.1, trivial, h.2⟩, fun h => ⟨h.1, h.2.2⟩⟩
  | node b below => exact Iff.rfl

theorem all_of_forall (h : ∀ n x, P n x) (t : Level N α β) : t.All P := by
  induction t with
  | nil => trivial
  | leaf n a rest ih => exact ⟨h n _, ih⟩
  | node n b below rest ihb ih => exact ⟨h n _, ihb, ih⟩

theorem Level.All.imp {Q : N → Item N α β → Prop} (h : t.All P) (hPQ : ∀ n x, P n x → Q n x) :
    t.All Q := by
  induction t with
  | nil => trivial
  | leaf n a rest ih => exact ⟨hPQ n _ h.1, ih h.2⟩
  | node n b below rest ihb ih => exact ⟨hPQ n _ h.1, ihb h.2.1, ih h.2.2⟩

theorem names_items : t.items.map Prod.fst = t.names := by
  induction t using cons_induction with
  | nil => rfl
  | cons n x t ih => rw [items_cons, List.map_cons, ih, names_cons]

theorem nodup_names (h : t.Distinct) : t.names.Nodup := by
  induction t using cons_induction with
  | nil => exact List.nodup_nil
  | cons n x t ih =>
      obtain ⟨hn, -, ht⟩ := distinct_cons.mp h
      rw [names_cons]
      exact List.nodup_cons.mpr ⟨hn, ih ht⟩

theorem Level.Sorted.distinct [Preorder N] (h : t.Sorted) : t.Distinct := by
  induction t with
  | nil => trivial
  | leaf n a rest ih => exact ⟨fun hn => lt_irrefl _ (h.1 n hn), ih h.2⟩
  | node n b below rest ihb ih => exact ⟨fun hn => lt_irrefl _ (h.1 n hn), ihb h.2.1, ih h.2.2⟩

/-! ## What stands under a name -/

variable [LinearOrder N]

@[simp] theorem find_nil : (nil : Level N α β).find n = none := rfl

theorem find_cons : (cons k x t).find n = if k = n then some x else t.find n := by
  cases x <;> rfl

theorem put_cons {y : Item N α β} :
    (cons k y t).put n x = if k = n then cons n x t else cons k y (t.put n x) := by
  cases y <;> rfl

theorem erase_cons : (cons k x t).erase n = if k = n then t else cons k x (t.erase n) := by
  cases x <;> rfl

theorem find_eq_none_iff : t.find n = none ↔ n ∉ t.names := by
  induction t using cons_induction with
  | nil => exact iff_of_true rfl List.not_mem_nil
  | cons k x t ih =>
      rw [find_cons, names_cons, List.mem_cons, not_or]
      by_cases hk : k = n
      · rw [if_pos hk]
        exact iff_of_false (fun h => by cases h) fun h => h.1 hk.symm
      · rw [if_neg hk, ih]
        exact ⟨fun h => ⟨Ne.symm hk, h⟩, And.right⟩

theorem mem_names_of_find (h : t.find n = some x) : n ∈ t.names := by
  by_contra hn
  rw [find_eq_none_iff.mpr hn] at h
  cases h

theorem mem_items_iff (h : t.Distinct) : (n, x) ∈ t.items ↔ t.find n = some x := by
  induction t using cons_induction with
  | nil => exact iff_of_false List.not_mem_nil fun h => by cases h
  | cons k y t ih =>
      obtain ⟨hk, -, ht⟩ := distinct_cons.mp h
      rw [items_cons, List.mem_cons, find_cons, ih ht, Prod.mk.injEq]
      by_cases hkn : k = n
      · subst hkn
        rw [if_pos rfl, find_eq_none_iff.mpr hk, Option.some.injEq]
        exact ⟨fun h => (h.resolve_right fun hx => by cases hx).2.symm, fun h => Or.inl ⟨rfl, h.symm⟩⟩
      · rw [if_neg hkn]
        exact ⟨fun h => h.resolve_left fun he => hkn he.1.symm, Or.inr⟩

theorem find_put (m : N) : (t.put n x).find m = if n = m then some x else t.find m := by
  induction t using cons_induction with
  | nil => rw [put, find_cons]
  | cons k y t ih =>
      rw [put_cons]
      by_cases hk : k = n
      · rw [if_pos hk, find_cons, find_cons, hk]
        by_cases hm : n = m
        · rw [if_pos hm, if_pos hm]
        · rw [if_neg hm, if_neg hm, if_neg hm]
      · rw [if_neg hk, find_cons, ih, find_cons]
        by_cases hm : k = m
        · rw [if_pos hm, if_pos hm, if_neg fun h => hk (hm.trans h.symm)]
        · rw [if_neg hm, if_neg hm]

@[simp] theorem find_put_self : (t.put n x).find n = some x := by
  rw [find_put, if_pos rfl]

theorem find_put_of_ne (h : n ≠ k) : (t.put n x).find k = t.find k := by
  rw [find_put, if_neg h]

/-- Nothing changes if what is put there stands there. -/
theorem put_same (h : t.find n = some x) : t.put n x = t := by
  induction t using cons_induction with
  | nil => cases h
  | cons k y t ih =>
      rw [find_cons] at h
      rw [put_cons]
      by_cases hk : k = n
      · rw [if_pos hk] at h ⊢
        cases h
        rw [hk]
      · rw [if_neg hk] at h ⊢
        rw [ih h]

theorem put_put {y : Item N α β} : (t.put n x).put n y = t.put n y := by
  induction t using cons_induction with
  | nil => rw [put, put_cons, if_pos rfl, put]
  | cons k z t ih =>
      rw [put_cons, put_cons]
      by_cases hk : k = n
      · rw [if_pos hk, if_pos hk, put_cons, if_pos rfl]
      · rw [if_neg hk, if_neg hk, put_cons, if_neg hk, ih]

theorem find_erase_of_ne (h : n ≠ k) : (t.erase n).find k = t.find k := by
  induction t using cons_induction with
  | nil => rfl
  | cons m y t ih =>
      rw [erase_cons]
      by_cases hm : m = n
      · rw [if_pos hm, find_cons, if_neg fun hk => h (hm.symm.trans hk)]
      · rw [if_neg hm, find_cons, find_cons, ih]

theorem find_erase_self (h : t.Distinct) : (t.erase n).find n = none := by
  induction t using cons_induction with
  | nil => rfl
  | cons m y t ih =>
      obtain ⟨hn, -, ht⟩ := distinct_cons.mp h
      rw [erase_cons]
      by_cases hm : m = n
      · rw [if_pos hm]
        exact find_eq_none_iff.mpr (hm ▸ hn)
      · rw [if_neg hm, find_cons, if_neg hm, ih ht]

/-! ## What putting and erasing keep -/

theorem mem_names_iff : n ∈ t.names ↔ t.find n ≠ none := by
  rw [ne_eq, find_eq_none_iff, not_not]

theorem mem_names_put : k ∈ (t.put n x).names ↔ k = n ∨ k ∈ t.names := by
  rw [mem_names_iff, mem_names_iff, find_put]
  by_cases h : n = k
  · rw [if_pos h]
    exact iff_of_true (fun hx => by cases hx) (Or.inl h.symm)
  · rw [if_neg h]
    exact ⟨Or.inr, fun hk => hk.resolve_left fun he => h he.symm⟩

theorem mem_names_of_erase (h : k ∈ (t.erase n).names) : k ∈ t.names := by
  induction t using cons_induction with
  | nil => exact h
  | cons m y t ih =>
      rw [erase_cons] at h
      rw [names_cons]
      by_cases hm : m = n
      · rw [if_pos hm] at h
        exact List.mem_cons_of_mem _ h
      · rw [if_neg hm, names_cons] at h
        rcases List.mem_cons.mp h with rfl | h
        · exact List.mem_cons_self
        · exact List.mem_cons_of_mem _ (ih h)

theorem Level.Distinct.put (h : t.Distinct) (hx : x.Below Distinct) : (t.put n x).Distinct := by
  induction t using cons_induction with
  | nil => exact distinct_cons.mpr ⟨List.not_mem_nil, hx, trivial⟩
  | cons k y t ih =>
      obtain ⟨hk, hy, ht⟩ := distinct_cons.mp h
      rw [put_cons]
      by_cases hkn : k = n
      · rw [if_pos hkn]
        exact distinct_cons.mpr ⟨hkn ▸ hk, hx, ht⟩
      · rw [if_neg hkn]
        exact distinct_cons.mpr ⟨fun hm => (mem_names_put.mp hm).elim hkn hk, hy, ih ht⟩

theorem Level.Distinct.erase (h : t.Distinct) : (t.erase n).Distinct := by
  induction t using cons_induction with
  | nil => trivial
  | cons k y t ih =>
      obtain ⟨hk, hy, ht⟩ := distinct_cons.mp h
      rw [erase_cons]
      by_cases hkn : k = n
      · rw [if_pos hkn]
        exact ht
      · rw [if_neg hkn]
        exact distinct_cons.mpr ⟨fun hm => hk (mem_names_of_erase hm), hy, ih ht⟩

theorem Level.All.put (h : t.All P) (hn : P n x) (hx : x.Below (All P)) : (t.put n x).All P := by
  induction t using cons_induction with
  | nil => exact all_cons.mpr ⟨hn, hx, trivial⟩
  | cons k y t ih =>
      obtain ⟨hk, hy, ht⟩ := all_cons.mp h
      rw [put_cons]
      by_cases hkn : k = n
      · rw [if_pos hkn]
        exact all_cons.mpr ⟨hn, hx, ht⟩
      · rw [if_neg hkn]
        exact all_cons.mpr ⟨hk, hy, ih ht⟩

theorem Level.All.erase (h : t.All P) : (t.erase n).All P := by
  induction t using cons_induction with
  | nil => trivial
  | cons k y t ih =>
      obtain ⟨hk, hy, ht⟩ := all_cons.mp h
      rw [erase_cons]
      by_cases hkn : k = n
      · rw [if_pos hkn]
        exact ht
      · rw [if_neg hkn]
        exact all_cons.mpr ⟨hk, hy, ih ht⟩

/-- What holds of every entry holds of one that is found. -/
theorem Level.All.entry (h : t.All P) (hf : t.find n = some x) : P n x := by
  induction t using cons_induction with
  | nil => cases hf
  | cons k y t ih =>
      obtain ⟨hk, -, ht⟩ := all_cons.mp h
      rw [find_cons] at hf
      by_cases hkn : k = n
      · rw [if_pos hkn] at hf
        cases hf
        exact hkn ▸ hk
      · rw [if_neg hkn] at hf
        exact ih ht hf

/-- What holds of the entries that are found, and below them, holds of every entry. -/
theorem all_of_find (h : t.Distinct)
    (hf : ∀ n x, t.find n = some x → P n x ∧ x.Below (All P)) : t.All P := by
  induction t using cons_induction with
  | nil => trivial
  | cons k y t ih =>
      obtain ⟨hk, -, ht⟩ := distinct_cons.mp h
      obtain ⟨hy, hbelow⟩ := hf k y (by rw [find_cons, if_pos rfl])
      refine all_cons.mpr ⟨hy, hbelow, ih ht fun n x hx => hf n x ?_⟩
      rw [find_cons, if_neg]
      · exact hx
      · rintro rfl
        rw [find_eq_none_iff.mpr hk] at hx
        cases hx

/-- What holds of every level holds of the one below an entry. -/
theorem below_of_find {F : Level N α β → Prop}
    (hcons : ∀ n x t, F (cons n x t) → Item.Below F x ∧ F t) (h : F t)
    (hf : t.find n = some x) : x.Below F := by
  induction t using cons_induction with
  | nil => cases hf
  | cons k y t ih =>
      obtain ⟨hy, ht⟩ := hcons k y t h
      rw [find_cons] at hf
      by_cases hk : k = n
      · rw [if_pos hk] at hf
        cases hf
        exact hy
      · rw [if_neg hk] at hf
        exact ih ht hf

theorem Level.Distinct.find (h : t.Distinct) (hf : t.find n = some x) : x.Below Distinct :=
  below_of_find (fun _ _ _ h => (distinct_cons.mp h).2) h hf

theorem Level.All.find (h : t.All P) (hf : t.find n = some x) : x.Below (All P) :=
  below_of_find (fun _ _ _ h => (all_cons.mp h).2) h hf

theorem Level.Sorted.find (h : t.Sorted) (hf : t.find n = some x) : x.Below Sorted :=
  below_of_find (fun _ _ _ h => (sorted_cons.mp h).2) h hf

/-- Induction on the levels: what holds of all levels below the entries that are found holds
    of the level. -/
theorem level_induction {M : Level N α β → Prop}
    (h : ∀ t, (∀ n b below, t.find n = some (.node b below) → M below) → M t)
    (t : Level N α β) : M t := by
  refine h t ?_
  induction t with
  | nil =>
      intro n b below hf
      cases hf
  | leaf k a rest ih =>
      intro n b below hf
      rw [Level.find] at hf
      by_cases hk : k = n
      · rw [if_pos hk] at hf
        cases hf
      · rw [if_neg hk] at hf
        exact ih n b below hf
  | node k c under rest ihu ih =>
      intro n b below hf
      rw [Level.find] at hf
      by_cases hk : k = n
      · rw [if_pos hk] at hf
        cases hf
        exact h under ihu
      · rw [if_neg hk] at hf
        exact ih n b below hf

/-! ## The number of leaves -/

section Count

variable {p : N → Prop} [DecidablePred p]

omit [LinearOrder N] in
theorem count_cons : (cons n x t).count p = x.count p n + t.count p := by
  cases x <;> rfl

theorem count_put :
    (t.put n x).count p + (t.find n).elim 0 (Item.count p n) = t.count p + x.count p n := by
  induction t using cons_induction with
  | nil => rw [put, count_cons, find_nil, Option.elim_none, Nat.add_zero, Nat.add_comm]
  | cons k y t ih =>
      rw [put_cons, find_cons]
      by_cases hk : k = n
      · rw [if_pos hk, if_pos hk, count_cons, count_cons, Option.elim_some, hk]
        omega
      · rw [if_neg hk, if_neg hk, count_cons, count_cons]
        omega

theorem count_erase : (t.erase n).count p + (t.find n).elim 0 (Item.count p n) = t.count p := by
  induction t using cons_induction with
  | nil => rfl
  | cons k y t ih =>
      rw [erase_cons, find_cons]
      by_cases hk : k = n
      · rw [if_pos hk, if_pos hk, count_cons, Option.elim_some, hk]
        omega
      · rw [if_neg hk, if_neg hk, count_cons, count_cons]
        omega

end Count

/-! ## Paths -/

theorem itemAt_cons (m : N) (path : List N) : t.itemAt (n :: m :: path)
    = match t.find n with
      | some (.node _ below) => below.itemAt (m :: path)
      | _ => none := by
  rw [itemAt]
  intro h
  cases h

theorem itemAt_of_find_none (h : t.find n = none) (path : List N) :
    t.itemAt (n :: path) = none := by
  cases path with
  | nil => exact h
  | cons m path => rw [itemAt_cons, h]

/-- There is nothing below a leaf. -/
theorem itemAt_of_find_leaf {a : α} (h : t.find n = some (.leaf a)) (m : N) (path : List N) :
    t.itemAt (n :: m :: path) = none := by
  rw [itemAt_cons, h]

theorem itemAt_of_find_node {b : β} {below : Level N α β} (h : t.find n = some (.node b below))
    (m : N) (path : List N) : t.itemAt (n :: m :: path) = below.itemAt (m :: path) := by
  rw [itemAt_cons, h]

/-- What holds of every entry holds of one at a path. -/
theorem Level.All.itemAt {path : List N} (h : t.All P) (hx : t.itemAt path = some x) :
    ∃ n, P n x := by
  induction path generalizing t with
  | nil => cases hx
  | cons n path ih =>
      cases path with
      | nil => exact ⟨n, h.entry hx⟩
      | cons m path =>
          rw [itemAt_cons] at hx
          split at hx
          · rename_i hf
            exact ih (h.find hf) hx
          · cases hx

/-- What holds of all names holds of those of a path at which something stands. -/
theorem names_of_itemAt {Q : N → Prop} {path : List N} (h : t.All fun n _ => Q n)
    (hx : t.itemAt path = some x) : ∀ n ∈ path, Q n := by
  induction path generalizing t with
  | nil => cases hx
  | cons n path ih =>
      intro k hk
      cases hf : t.find n with
      | none =>
          rw [itemAt_of_find_none hf] at hx
          cases hx
      | some y =>
          rcases List.mem_cons.mp hk with rfl | hk
          · exact h.entry hf
          · cases path with
            | nil => cases hk
            | cons m path =>
                cases y with
                | leaf a =>
                    rw [itemAt_of_find_leaf hf] at hx
                    cases hx
                | node b below =>
                    rw [itemAt_of_find_node hf] at hx
                    exact ih (h.find hf) hx k hk

/-! ## Levels in order -/

theorem pairwise_ordered (h : t.Distinct) :
    t.ordered.Pairwise fun x y => x.1 < y.1 := by
  have htotal : Std.Total fun x y : N × Item N α β => x.1 ≤ y.1 := ⟨fun x y => le_total x.1 y.1⟩
  have htrans : IsTrans (N × Item N α β) fun x y => x.1 ≤ y.1 := ⟨fun _ _ _ => le_trans⟩
  have hle := List.pairwise_insertionSort (fun x y : N × Item N α β => x.1 ≤ y.1) t.items
  have hne : t.ordered.Pairwise fun x y => x.1 ≠ y.1 := by
    have hperm := (List.perm_insertionSort (fun x y : N × Item N α β => x.1 ≤ y.1) t.items).map
      Prod.fst
    rw [names_items] at hperm
    exact List.pairwise_map.mp (hperm.nodup_iff.mpr (nodup_names h))
  exact (List.pairwise_and_iff.mpr ⟨hle, hne⟩).imp fun hxy => lt_of_le_of_ne hxy.1 hxy.2

theorem lookup_of_mem {l : List (N × Item N α β)}
    (h : l.Pairwise fun x y => x.1 < y.1) (hx : (n, x) ∈ l) : l.lookup n = some x := by
  induction l with
  | nil => cases hx
  | cons y l ih =>
      obtain ⟨hy, hl⟩ := List.pairwise_cons.mp h
      rcases List.mem_cons.mp hx with rfl | hx
      · rw [List.lookup_cons_self]
      · have hne : (n == y.1) = false := beq_eq_false_iff_ne.mpr (hy _ hx).ne'
        rw [List.lookup_cons, hne]
        exact ih hl hx

theorem lookup_ordered (h : t.Distinct) : t.ordered.lookup n = t.find n := by
  have hmem : ∀ x, (n, x) ∈ t.ordered ↔ t.find n = some x := fun x => by
    rw [ordered, List.mem_insertionSort, mem_items_iff h]
  cases hf : t.find n with
  | some x => exact lookup_of_mem (pairwise_ordered h) ((hmem x).mpr hf)
  | none =>
      refine List.lookup_eq_none_iff.mpr fun y hy => ?_
      by_contra he
      have hn : n = y.1 := by simpa using he
      have hsome := (hmem y.2).mp (hn ▸ hy)
      rw [hf] at hsome
      cases hsome

end NamedTree
