import Mathlib.Order.Lattice
import Mathlib.Data.List.Basic

/-! # Merging sorted forests of named entries

    A forest is a list of entries, each of which has data with a name and may have a
    forest below it.  `merge` goes once through the entries of one forest and keeps its
    place in the other one.  `IsMerged` says what it is for: name by name and level by
    level, without an order of steps. -/

namespace NamedForest

variable {N δ : Type} [LinearOrder N]

/-- Entries in their order: a leaf, or a node with what is below it. -/
inductive Forest (δ : Type) where
  | nil
  | leaf (d : δ) (rest : Forest δ)
  | node (d : δ) (sub rest : Forest δ)

/-- An entry: its data, and what is below it. -/
abbrev Item (δ : Type) := δ × Option (Forest δ)

namespace Forest

variable (name : δ → N)

def names : Forest δ → List N
  | nil => []
  | leaf d rest => name d :: names rest
  | node d _ rest => name d :: names rest

/-- Strictly by name, at every level. -/
def Sorted : Forest δ → Prop
  | nil => True
  | leaf d rest => (∀ x ∈ rest.names name, name d < x) ∧ Sorted rest
  | node d sub rest => (∀ x ∈ rest.names name, name d < x) ∧ Sorted sub ∧ Sorted rest

/-- The first entry of a name. -/
def entry (n : N) : Forest δ → Option (Item δ)
  | nil => none
  | leaf d rest => if name d = n then some (d, none) else entry n rest
  | node d sub rest => if name d = n then some (d, some sub) else entry n rest

def append : Forest δ → Forest δ → Forest δ
  | nil, g => g
  | leaf d rest, g => leaf d (append rest g)
  | node d sub rest, g => node d sub (append rest g)

/-- How deep the forest is. -/
def depth : Forest δ → Nat
  | nil => 0
  | leaf _ rest => depth rest
  | node _ sub rest => max (depth sub + 1) (depth rest)

/-- Go to the place of a name: past the entries with smaller names. -/
def walk (n : N) (same absent : Forest δ → Forest δ) : Forest δ → Forest δ
  | nil => absent nil
  | leaf d rest =>
      if name d < n then leaf d (walk n same absent rest)
      else if name d = n then same (leaf d rest)
      else absent (leaf d rest)
  | node d sub rest =>
      if name d < n then node d sub (walk n same absent rest)
      else if name d = n then same (node d sub rest)
      else absent (node d sub rest)

variable (hide : δ → δ → δ)

/-- A leaf meets an entry of its name, which stays and hides it. -/
def hideAtHead (d : δ) : Forest δ → Forest δ
  | nil => nil
  | leaf e rest => leaf (hide e d) rest
  | node e sub rest => node (hide e d) sub rest

/-- A node meets an entry of its name: it takes the place of a leaf, and is merged into
    a node. -/
def mergeAtHead (d : δ) (sub : Forest δ) (mergeSub : Forest δ → Forest δ) : Forest δ → Forest δ
  | nil => nil
  | leaf _ rest => node d sub rest
  | node e s rest => node e (mergeSub s) rest

/-- Merge the entries of the first forest into the second one. -/
def merge : Forest δ → Forest δ → Forest δ
  | nil, my => my
  | leaf d rest, my =>
      walk name (name d) (fun my => merge rest (hideAtHead hide d my))
        (fun my => leaf d (merge rest my)) my
  | node d sub rest, my =>
      walk name (name d) (fun my => merge rest (mergeAtHead d sub (merge sub) my))
        (fun my => node d sub (merge rest my)) my

end Forest

open Forest

/-! ## What merging is for -/

mutual

/-- `t` is sorted, and has for each name what the two forests have of it. -/
inductive IsMerged (name : δ → N) (hide : δ → δ → δ) : Forest δ → Forest δ → Forest δ → Prop
  | mk {my other t : Forest δ} : t.Sorted name →
      (∀ n, EntryMerged name hide (my.entry name n) (other.entry name n) (t.entry name n)) →
      IsMerged name hide my other t

/-- What becomes of one name. -/
inductive EntryMerged (name : δ → N) (hide : δ → δ → δ) :
    Option (Item δ) → Option (Item δ) → Option (Item δ) → Prop
  | absent : EntryMerged name hide none none none
  | mine (x : Item δ) : EntryMerged name hide (some x) none (some x)
  | other (x : Item δ) : EntryMerged name hide none (some x) (some x)
  | hidden (d d' : δ) (s : Option (Forest δ)) :
      EntryMerged name hide (some (d, s)) (some (d', none)) (some (hide d d', s))
  | replaced (d d' : δ) (s' : Forest δ) :
      EntryMerged name hide (some (d, none)) (some (d', some s')) (some (d', some s'))
  | merged (d d' : δ) (s s' t : Forest δ) : IsMerged name hide s s' t →
      EntryMerged name hide (some (d, some s)) (some (d', some s')) (some (d, some t))

end

variable {name : δ → N} {hide : δ → δ → δ}

/-! ## Names -/

omit [LinearOrder N] in
theorem names_append (f g : Forest δ) : (f.append g).names name = f.names name ++ g.names name := by
  induction f with
  | nil => rfl
  | leaf d rest ih => rw [append, names, ih]; rfl
  | node d sub rest _ ih => rw [append, names, ih]; rfl

theorem entry_append (n : N) (f g : Forest δ) :
    (f.append g).entry name n = (f.entry name n).or (g.entry name n) := by
  induction f with
  | nil => rfl
  | leaf d rest ih =>
      rw [append, entry, entry, ih]
      by_cases h : name d = n
      · rw [if_pos h, if_pos h]; rfl
      · rw [if_neg h, if_neg h]
  | node d sub rest _ ih =>
      rw [append, entry, entry, ih]
      by_cases h : name d = n
      · rw [if_pos h, if_pos h]; rfl
      · rw [if_neg h, if_neg h]

theorem entry_eq_none {n : N} {f : Forest δ} (h : n ∉ f.names name) : f.entry name n = none := by
  induction f with
  | nil => rfl
  | leaf d rest ih =>
      rw [names, List.mem_cons, not_or] at h
      obtain ⟨h1, h2⟩ := h
      rw [entry, if_neg fun he => h1 he.symm, ih h2]
  | node d sub rest _ ih =>
      rw [names, List.mem_cons, not_or] at h
      obtain ⟨h1, h2⟩ := h
      rw [entry, if_neg fun he => h1 he.symm, ih h2]

theorem Forest.Sorted.append {f g : Forest δ} (hf : f.Sorted name) (hg : g.Sorted name)
    (h : ∀ x ∈ f.names name, ∀ y ∈ g.names name, x < y) : (f.append g).Sorted name := by
  induction f with
  | nil => exact hg
  | leaf d rest ih =>
      have h1 : ∀ x ∈ rest.names name, ∀ y ∈ g.names name, x < y :=
        fun x hx => h x (List.mem_cons_of_mem _ hx)
      refine ⟨fun x hx => ?_, ih hf.2 h1⟩
      rw [names_append] at hx
      rcases List.mem_append.mp hx with hx | hx
      · exact hf.1 x hx
      · exact h _ (List.mem_cons_self ..) x hx
  | node d sub rest _ ih =>
      have h1 : ∀ x ∈ rest.names name, ∀ y ∈ g.names name, x < y :=
        fun x hx => h x (List.mem_cons_of_mem _ hx)
      refine ⟨fun x hx => ?_, hf.2.1, ih hf.2.2 h1⟩
      rw [names_append] at hx
      rcases List.mem_append.mp hx with hx | hx
      · exact hf.1 x hx
      · exact h _ (List.mem_cons_self ..) x hx

theorem Forest.Sorted.left {f g : Forest δ} (h : (f.append g).Sorted name) : f.Sorted name := by
  induction f with
  | nil => exact trivial
  | leaf d rest ih =>
      refine ⟨fun x hx => h.1 x ?_, ih h.2⟩
      rw [names_append]
      exact List.mem_append_left _ hx
  | node d sub rest _ ih =>
      refine ⟨fun x hx => h.1 x ?_, h.2.1, ih h.2.2⟩
      rw [names_append]
      exact List.mem_append_left _ hx

theorem Forest.Sorted.right {f g : Forest δ} (h : (f.append g).Sorted name) : g.Sorted name := by
  induction f with
  | nil => exact h
  | leaf d rest ih => exact ih h.2
  | node d sub rest _ ih => exact ih h.2.2

/-! ## Going to a place -/

/-- The entry of a name stands after the smaller names. -/
structure Found (name : δ → N) (n : N) (my before remain : Forest δ) : Prop where
  split : my = before.append remain
  smaller : ∀ x ∈ before.names name, x < n
  head : (∃ e r, remain = .leaf e r ∧ name e = n) ∨ ∃ e s r, remain = .node e s r ∧ name e = n

/-- Between the smaller and the greater names there is no entry of the name. -/
structure Missing (name : δ → N) (n : N) (my before remain : Forest δ) : Prop where
  split : my = before.append remain
  smaller : ∀ x ∈ before.names name, x < n
  greater : ∀ x ∈ remain.names name, n < x

/-- Where a walk ends. -/
def Ends (name : δ → N) (n : N) (same absent : Forest δ → Forest δ) (my result : Forest δ) : Prop :=
  ∃ before remain,
    (Found name n my before remain ∧ result = before.append (same remain)) ∨
    (Missing name n my before remain ∧ result = before.append (absent remain))

/-- One entry more to go past. -/
theorem Ends.cons {n : N} {same absent : Forest δ → Forest δ} {my result : Forest δ}
    (h : Ends name n same absent my result) {c : Forest δ → Forest δ} {d : δ}
    (hc : ∀ f, (c f).names name = name d :: f.names name)
    (ha : ∀ f g, c (f.append g) = (c f).append g) (hd : name d < n) :
    Ends name n same absent (c my) (c result) := by
  have smaller : ∀ b : Forest δ, (∀ x ∈ b.names name, x < n) → ∀ x ∈ (c b).names name, x < n := by
    intro b hb x hx
    rw [hc] at hx
    rcases List.mem_cons.mp hx with rfl | hx
    · exact hd
    · exact hb x hx
  obtain ⟨b, r, ⟨h1, h2⟩ | ⟨h1, h2⟩⟩ := h
  · refine ⟨c b, r, .inl ⟨⟨?_, smaller b h1.smaller, h1.head⟩, ?_⟩⟩
    · rw [h1.split, ha]
    · rw [h2, ha]
  · refine ⟨c b, r, .inr ⟨⟨?_, smaller b h1.smaller, h1.greater⟩, ?_⟩⟩
    · rw [h1.split, ha]
    · rw [h2, ha]

theorem ends_walk (n : N) {my : Forest δ} (same absent : Forest δ → Forest δ)
    (h : my.Sorted name) : Ends name n same absent my (my.walk name n same absent) := by
  have no_names : ∀ x ∈ (nil : Forest δ).names name, x < n := fun x hx => by cases hx
  have later : ∀ {d : δ} {xs : List N}, ¬ name d < n → ¬ name d = n → (∀ x ∈ xs, name d < x) →
      ∀ x ∈ name d :: xs, n < x := by
    intro d xs hlt heq hxs x hx
    have hgt : n < name d := lt_of_le_of_ne (not_lt.mp hlt) (Ne.symm heq)
    rcases List.mem_cons.mp hx with rfl | hx
    · exact hgt
    · exact lt_trans hgt (hxs x hx)
  induction my with
  | nil => exact ⟨nil, nil, .inr ⟨⟨rfl, no_names, fun x hx => by cases hx⟩, rfl⟩⟩
  | leaf d rest ih =>
      rw [walk]
      by_cases hlt : name d < n
      · rw [if_pos hlt]
        exact (ih h.2).cons (c := leaf d) (fun _ => rfl) (fun _ _ => rfl) hlt
      · rw [if_neg hlt]
        by_cases heq : name d = n
        · rw [if_pos heq]
          exact ⟨nil, leaf d rest, .inl ⟨⟨rfl, no_names, .inl ⟨d, rest, rfl, heq⟩⟩, rfl⟩⟩
        · rw [if_neg heq]
          exact ⟨nil, leaf d rest, .inr ⟨⟨rfl, no_names, later hlt heq h.1⟩, rfl⟩⟩
  | node d sub rest _ ih =>
      rw [walk]
      by_cases hlt : name d < n
      · rw [if_pos hlt]
        exact (ih h.2.2).cons (c := node d sub) (fun _ => rfl) (fun _ _ => rfl) hlt
      · rw [if_neg hlt]
        by_cases heq : name d = n
        · rw [if_pos heq]
          exact ⟨nil, node d sub rest, .inl ⟨⟨rfl, no_names, .inr ⟨d, sub, rest, rfl, heq⟩⟩, rfl⟩⟩
        · rw [if_neg heq]
          exact ⟨nil, node d sub rest, .inr ⟨⟨rfl, no_names, later hlt heq h.1⟩, rfl⟩⟩

/-- A walk goes past entries with smaller names. -/
theorem walk_append {n : N} (same absent : Forest δ → Forest δ) {f : Forest δ} (g : Forest δ)
    (h : ∀ x ∈ f.names name, x < n) :
    (f.append g).walk name n same absent = f.append (g.walk name n same absent) := by
  induction f with
  | nil => rfl
  | leaf d rest ih =>
      rw [append, walk, if_pos (h _ (List.mem_cons_self ..)),
        ih fun x hx => h x (List.mem_cons_of_mem _ hx)]
      rfl
  | node d sub rest _ ih =>
      rw [append, walk, if_pos (h _ (List.mem_cons_self ..)),
        ih fun x hx => h x (List.mem_cons_of_mem _ hx)]
      rfl

/-- It ends at an entry of the name, -/
theorem walk_same {n : N} (same absent : Forest δ → Forest δ) {f : Forest δ} {ns : List N}
    (h : f.names name = n :: ns) : f.walk name n same absent = same f := by
  cases f with
  | nil => cases h
  | leaf d rest =>
      cases h
      rw [walk, if_neg (lt_irrefl _), if_pos rfl]
  | node d sub rest =>
      cases h
      rw [walk, if_neg (lt_irrefl _), if_pos rfl]

/-- or before a greater name, -/
theorem walk_absent {n x : N} (same absent : Forest δ → Forest δ) {f : Forest δ} {ns : List N}
    (h : f.names name = x :: ns) (hlt : ¬ x < n) (hne : x ≠ n) :
    f.walk name n same absent = absent f := by
  cases f with
  | nil => cases h
  | leaf d rest =>
      cases h
      rw [walk, if_neg hlt, if_neg hne]
  | node d sub rest =>
      cases h
      rw [walk, if_neg hlt, if_neg hne]

/-! ## What `merge` makes is merged -/

theorem EntryMerged.of_mine (x : Option (Item δ)) : EntryMerged name hide x none x := by
  cases x with
  | none => exact .absent
  | some x => exact .mine x

theorem EntryMerged.eq_mine {x y : Option (Item δ)} (h : EntryMerged name hide x none y) : y = x := by
  cases h with
  | absent => rfl
  | mine x => rfl

/-- `t` merges `my` and `other`, and adds no names. -/
structure Merges (name : δ → N) (hide : δ → δ → δ) (my other t : Forest δ) : Prop where
  merged : IsMerged name hide my other t
  names : ∀ x ∈ t.names name, x ∈ other.names name ∨ x ∈ my.names name

theorem Merges.sorted {my other t : Forest δ} (h : Merges name hide my other t) :
    t.Sorted name := by
  cases h.merged with
  | mk h1 h2 => exact h1

theorem Merges.entry {my other t : Forest δ} (h : Merges name hide my other t) (n : N) :
    EntryMerged name hide (my.entry name n) (other.entry name n) (t.entry name n) := by
  cases h.merged with
  | mk h1 h2 => exact h2 n

/-- Behind the entries that are gone past, only what follows has to be merged. -/
theorem Merges.behind {n : N} {before remain other tail : Forest δ}
    (hmy : (before.append remain).Sorted name) (hb : ∀ x ∈ before.names name, x < n)
    (ho : ∀ x ∈ other.names name, n ≤ x) (hr : ∀ x ∈ remain.names name, n ≤ x)
    (ht : tail.Sorted name) (hn : ∀ x ∈ tail.names name, x ∈ other.names name ∨ x ∈ remain.names name)
    (he : ∀ x, n ≤ x → EntryMerged name hide (remain.entry name x) (other.entry name x)
      (tail.entry name x)) :
    Merges name hide (before.append remain) other (before.append tail) := by
  have tail_ge : ∀ x ∈ tail.names name, n ≤ x := fun x hx => (hn x hx).elim (ho x) (hr x)
  refine ⟨.mk (hmy.left.append ht fun x hx y hy => lt_of_lt_of_le (hb x hx) (tail_ge y hy)) ?_, ?_⟩
  · intro x
    rw [entry_append, entry_append]
    rcases lt_or_ge x n with hx | hx
    · have not_ge : ∀ {f : Forest δ}, (∀ y ∈ f.names name, n ≤ y) → f.entry name x = none :=
        fun hf => entry_eq_none fun hm => absurd (hf x hm) (not_le.mpr hx)
      rw [not_ge hr, not_ge ho, not_ge tail_ge]
      exact .of_mine _
    · rw [entry_eq_none fun hm => absurd (hb x hm) (not_lt.mpr hx)]
      exact he x hx
  · intro x hx
    rw [names_append] at hx ⊢
    rcases List.mem_append.mp hx with hx | hx
    · exact .inr (List.mem_append_left _ hx)
    · exact (hn x hx).imp id (List.mem_append_right _)

/-- The entry found is changed, and the greater names are merged behind it. -/
theorem Merges.changed {n : N} {remain remain' rest tail : Forest δ} {y : Item δ}
    {o : Option (Item δ)} (h : Merges name hide remain' rest tail)
    (hrest : ∀ x ∈ rest.names name, n < x) (hy : remain'.entry name n = some y)
    (hsame : ∀ x, n < x → remain'.entry name x = remain.entry name x)
    (hn : EntryMerged name hide (remain.entry name n) o (some y)) :
    ∀ x, n ≤ x → EntryMerged name hide (remain.entry name x)
      (if x = n then o else rest.entry name x) (tail.entry name x) := by
  intro x hx
  have h1 := h.entry x
  by_cases he : x = n
  · rw [if_pos he, he]
    rw [he, entry_eq_none fun hm => lt_irrefl n (hrest n hm), hy] at h1
    rw [h1.eq_mine]
    exact hn
  · rw [if_neg he]
    rw [hsame x (lt_of_le_of_ne hx (Ne.symm he))] at h1
    exact h1

/-- A new entry, and the greater names merged behind it. -/
theorem Merges.inserted {n : N} {remain rest tail : Forest δ} {o : Option (Item δ)}
    {c : Forest δ → Forest δ} (h : Merges name hide remain rest tail)
    (hremain : ∀ x ∈ remain.names name, n < x)
    (hc : ∀ f x, (c f).entry name x = if x = n then o else f.entry name x) (hsome : o.isSome) :
    ∀ x, n ≤ x → EntryMerged name hide (remain.entry name x)
      (if x = n then o else rest.entry name x) ((c tail).entry name x) := by
  intro x hx
  rw [hc]
  by_cases he : x = n
  · rw [if_pos he, if_pos he, he, entry_eq_none fun hm => lt_irrefl n (hremain n hm)]
    obtain ⟨y, rfl⟩ := Option.isSome_iff_exists.mp hsome
    exact .other y
  · rw [if_neg he, if_neg he]
    exact h.entry x

theorem entry_leaf (d : δ) (f : Forest δ) (x : N) :
    (leaf d f).entry name x = if x = name d then some (d, none) else f.entry name x := by
  rw [entry]
  by_cases h : name d = x
  · rw [if_pos h, if_pos h.symm]
  · rw [if_neg h, if_neg (Ne.symm h)]

theorem entry_node (d : δ) (s f : Forest δ) (x : N) :
    (node d s f).entry name x = if x = name d then some (d, some s) else f.entry name x := by
  rw [entry]
  by_cases h : name d = x
  · rw [if_pos h, if_pos h.symm]
  · rw [if_neg h, if_neg (Ne.symm h)]

/-- Names that begin with a smallest one. -/
theorem le_of_cons {n : N} {xs : List N} (h : ∀ x ∈ xs, n < x) : ∀ x ∈ n :: xs, n ≤ x := by
  intro x hx
  rcases List.mem_cons.mp hx with rfl | hx
  · exact le_refl _
  · exact le_of_lt (h x hx)

/-- By induction on the forest that is merged in; `my` is any forest. -/
theorem merges_merge (hname : ∀ d d', name (hide d d') = name d) (other : Forest δ) :
    ∀ my : Forest δ, my.Sorted name → other.Sorted name →
      Merges name hide my other (other.merge name hide my) := by
  induction other with
  | nil =>
      intro my hmy _
      exact ⟨.mk hmy fun n => .of_mine _, fun x hx => .inr hx⟩
  | leaf d rest ih =>
      intro my hmy ho
      obtain ⟨before, remain, ⟨⟨rfl, hb, hh⟩, he⟩ | ⟨⟨rfl, hb, hg⟩, he⟩⟩ :=
        ends_walk (name d) (fun my => rest.merge name hide (my.hideAtHead hide d))
          (fun my => leaf d (rest.merge name hide my)) hmy
      · rw [merge, he]
        rcases hh with ⟨e, r, rfl, hn⟩ | ⟨e, s, r, rfl, hn⟩
        · have hr := hmy.right
          have h := ih (leaf (hide e d) r) ⟨by rw [hname]; exact hr.1, hr.2⟩ ho.2
          refine Merges.behind hmy hb (le_of_cons ho.1) (hn ▸ le_of_cons hr.1) h.sorted ?_ ?_
          · intro x hx
            rcases h.names x hx with h1 | h1
            · exact .inl (List.mem_cons_of_mem _ h1)
            · rw [Forest.names, hname] at h1
              exact .inr h1
          · intro x hx
            rw [entry_leaf d]
            refine h.changed ho.1 (y := (hide e d, none)) ?_ (fun x hx => ?_) ?_ x hx
            · rw [entry_leaf, hname, if_pos hn.symm]
            · rw [entry_leaf, entry_leaf, hname, if_neg (hn ▸ ne_of_gt hx), if_neg (hn ▸ ne_of_gt hx)]
            · rw [entry_leaf, if_pos hn.symm]
              exact .hidden e d none
        · have hr := hmy.right
          have h := ih (node (hide e d) s r) ⟨by rw [hname]; exact hr.1, hr.2⟩ ho.2
          refine Merges.behind hmy hb (le_of_cons ho.1) (hn ▸ le_of_cons hr.1) h.sorted ?_ ?_
          · intro x hx
            rcases h.names x hx with h1 | h1
            · exact .inl (List.mem_cons_of_mem _ h1)
            · rw [Forest.names, hname] at h1
              exact .inr h1
          · intro x hx
            rw [entry_leaf d]
            refine h.changed ho.1 (y := (hide e d, some s)) ?_ (fun x hx => ?_) ?_ x hx
            · rw [entry_node, hname, if_pos hn.symm]
            · rw [entry_node, entry_node, hname, if_neg (hn ▸ ne_of_gt hx), if_neg (hn ▸ ne_of_gt hx)]
            · rw [entry_node, if_pos hn.symm]
              exact .hidden e d (some s)
      · rw [merge, he]
        have h := ih remain hmy.right ho.2
        have greater : ∀ x ∈ (rest.merge name hide remain).names name, name d < x :=
          fun x hx => (h.names x hx).elim (ho.1 x) (hg x)
        refine Merges.behind hmy hb (le_of_cons ho.1) (fun x hx => le_of_lt (hg x hx))
          ⟨greater, h.sorted⟩ ?_ ?_
        · intro x hx
          rcases List.mem_cons.mp hx with rfl | hx
          · exact .inl (List.mem_cons_self ..)
          · exact (h.names x hx).imp (List.mem_cons_of_mem _) id
        · intro x hx
          rw [entry_leaf d rest]
          exact h.inserted hg (c := leaf d) (fun f x => entry_leaf d f x) rfl x hx
  | node d sub rest ihs ih =>
      intro my hmy ho
      obtain ⟨before, remain, ⟨⟨rfl, hb, hh⟩, he⟩ | ⟨⟨rfl, hb, hg⟩, he⟩⟩ :=
        ends_walk (name d)
          (fun my => rest.merge name hide (mergeAtHead d sub (sub.merge name hide) my))
          (fun my => node d sub (rest.merge name hide my)) hmy
      · rw [merge, he]
        rcases hh with ⟨e, r, rfl, hn⟩ | ⟨e, s, r, rfl, hn⟩
        · have hr := hmy.right
          have h := ih (node d sub r) ⟨hn ▸ hr.1, ho.2.1, hr.2⟩ ho.2.2
          refine Merges.behind hmy hb (le_of_cons ho.1) (hn ▸ le_of_cons hr.1) h.sorted ?_ ?_
          · intro x hx
            rcases h.names x hx with h1 | h1
            · exact .inl (List.mem_cons_of_mem _ h1)
            · rw [Forest.names, ← hn] at h1
              exact .inr h1
          · intro x hx
            rw [entry_node d]
            refine h.changed ho.1 (y := (d, some sub)) ?_ (fun x hx => ?_) ?_ x hx
            · rw [entry_node, if_pos rfl]
            · rw [entry_node, entry_leaf, if_neg (ne_of_gt hx), if_neg (hn ▸ ne_of_gt hx)]
            · rw [entry_leaf, if_pos hn.symm]
              exact .replaced e d sub
        · have hr := hmy.right
          have hs := ihs s hr.2.1 ho.2.1
          have h := ih (node e (sub.merge name hide s) r) ⟨hr.1, hs.sorted, hr.2.2⟩ ho.2.2
          refine Merges.behind hmy hb (le_of_cons ho.1) (hn ▸ le_of_cons hr.1) h.sorted ?_ ?_
          · intro x hx
            exact (h.names x hx).imp (List.mem_cons_of_mem _) id
          · intro x hx
            rw [entry_node d]
            refine h.changed ho.1 (y := (e, some (sub.merge name hide s))) ?_ (fun x hx => ?_) ?_ x hx
            · rw [entry_node, if_pos hn.symm]
            · rw [entry_node, entry_node, if_neg (hn ▸ ne_of_gt hx), if_neg (hn ▸ ne_of_gt hx)]
            · rw [entry_node, if_pos hn.symm]
              exact .merged e d s sub _ hs.merged
      · rw [merge, he]
        have h := ih remain hmy.right ho.2.2
        have greater : ∀ x ∈ (rest.merge name hide remain).names name, name d < x :=
          fun x hx => (h.names x hx).elim (ho.1 x) (hg x)
        refine Merges.behind hmy hb (le_of_cons ho.1) (fun x hx => le_of_lt (hg x hx))
          ⟨greater, ho.2.1, h.sorted⟩ ?_ ?_
        · intro x hx
          rcases List.mem_cons.mp hx with rfl | hx
          · exact .inl (List.mem_cons_self ..)
          · exact (h.names x hx).imp (List.mem_cons_of_mem _) id
        · intro x hx
          rw [entry_node d sub rest]
          exact h.inserted hg (c := node d sub) (fun f x => entry_node d sub f x) rfl x hx

theorem mem_names_iff {n : N} {f : Forest δ} :
    n ∈ f.names name ↔ (f.entry name n).isSome := by
  induction f with
  | nil => simp [Forest.names, Forest.entry]
  | leaf d rest ih =>
      rw [Forest.names, List.mem_cons, ih, entry_leaf]
      by_cases h : n = name d
      · simp [h]
      · simp [h]
  | node d sub rest _ ih =>
      rw [Forest.names, List.mem_cons, ih, entry_node]
      by_cases h : n = name d
      · simp [h]
      · simp [h]

/-- The names are the union. -/
theorem IsMerged.names {my other t : Forest δ} (h : IsMerged name hide my other t) (n : N) :
    n ∈ t.names name ↔ n ∈ my.names name ∨ n ∈ other.names name := by
  cases h with
  | mk _ he =>
      rw [mem_names_iff, mem_names_iff, mem_names_iff]
      have h := he n
      generalize my.entry name n = x, other.entry name n = y, t.entry name n = z at h ⊢
      cases h <;> simp

end NamedForest
