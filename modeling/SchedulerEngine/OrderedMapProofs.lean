import Mathlib.Order.Lattice
import Mathlib.Data.List.TakeWhile
import Mathlib.Logic.Function.Iterate

/-! # Ordered maps

    A `std::map`: entries of a key and a value in the order of the keys.  Beside the
    assignment at a key and the removal of a key, the entry before a lower bound is
    what neighbours are compared with. -/

namespace OrderedMap

variable {κ β : Type*} [LinearOrder κ] {k : κ} {v : β} {e d : κ × β} {m : List (κ × β)}

def Sorted (m : List (κ × β)) : Prop := m.Pairwise fun a b => a.1 < b.1

/-- `m[ k ] = v`. -/
def assign (k : κ) (v : β) : List (κ × β) → List (κ × β)
  | [] => [(k, v)]
  | e :: rest =>
      if k < e.1 then (k, v) :: e :: rest
      else if e.1 < k then e :: assign k v rest
      else (k, v) :: rest

/-- `m.erase( k )`. -/
def erase (k : κ) (m : List (κ × β)) : List (κ × β) := m.filter fun e => e.1 ≠ k

/-- The entry before `m.lower_bound( k )`. -/
def beforeLowerBound (k : κ) (m : List (κ × β)) : Option (κ × β) :=
  (m.takeWhile fun e => e.1 < k).getLast?

/-- In an ordered map a key has one value. -/
theorem Sorted.eq_of_key_eq (hm : Sorted m) (he : e ∈ m) (hd : d ∈ m) (h : e.1 = d.1) :
    e = d := by
  induction m with
  | nil => cases he
  | cons a m ih =>
      obtain ⟨ha, hm⟩ := List.pairwise_cons.mp hm
      rcases List.mem_cons.mp he with hea | he
      · rcases List.mem_cons.mp hd with hda | hd
        · rw [hea, hda]
        · exact absurd (hea ▸ h) (ne_of_lt (ha d hd))
      · rcases List.mem_cons.mp hd with hda | hd
        · exact absurd (hda ▸ h.symm) (ne_of_lt (ha e he))
        · exact ih hm he hd

theorem mem_erase : e ∈ erase k m ↔ e ∈ m ∧ e.1 ≠ k := by
  rw [erase, List.mem_filter, decide_eq_true_eq]

theorem Sorted.erase (hm : Sorted m) : Sorted (OrderedMap.erase k m) :=
  hm.sublist List.filter_sublist

/-- Afterwards the key has the new value, the others have theirs. -/
theorem mem_assign (hm : Sorted m) :
    e ∈ assign k v m ↔ e = (k, v) ∨ e ∈ m ∧ e.1 ≠ k := by
  induction m with
  | nil =>
      rw [assign, List.mem_singleton]
      exact ⟨Or.inl, fun h => h.resolve_right fun h => List.not_mem_nil h.1⟩
  | cons a m ih =>
      obtain ⟨ha, hm⟩ := List.pairwise_cons.mp hm
      rw [assign]
      by_cases hka : k < a.1
      · -- the key stands before every other
        have hne : ∀ d ∈ a :: m, d.1 ≠ k := by
          intro d hd
          rcases List.mem_cons.mp hd with rfl | hd
          · exact ne_of_gt hka
          · exact ne_of_gt (lt_trans hka (ha d hd))
        rw [if_pos hka, List.mem_cons]
        exact or_congr_right ⟨fun h => ⟨h, hne e h⟩, fun h => h.1⟩
      · rw [if_neg hka]
        by_cases hak : a.1 < k
        · rw [if_pos hak, List.mem_cons, ih hm, List.mem_cons]
          constructor
          · rintro (rfl | rfl | ⟨he, hk⟩)
            · exact Or.inr ⟨Or.inl rfl, ne_of_lt hak⟩
            · exact Or.inl rfl
            · exact Or.inr ⟨Or.inr he, hk⟩
          · rintro (rfl | ⟨rfl | he, hk⟩)
            · exact Or.inr (Or.inl rfl)
            · exact Or.inl rfl
            · exact Or.inr (Or.inr ⟨he, hk⟩)
        · have hk : a.1 = k := le_antisymm (le_of_not_gt hka) (le_of_not_gt hak)
          rw [if_neg hak, List.mem_cons, List.mem_cons]
          refine or_congr_right ?_
          constructor
          · intro he
            exact ⟨Or.inr he, hk ▸ ne_of_gt (ha e he)⟩
          · rintro ⟨rfl | he, hne⟩
            · exact absurd hk hne
            · exact he

theorem Sorted.assign (hm : Sorted m) : Sorted (OrderedMap.assign k v m) := by
  induction m with
  | nil => exact List.pairwise_singleton _ _
  | cons a m ih =>
      have hall := hm
      obtain ⟨ha, hm⟩ := List.pairwise_cons.mp hm
      rw [OrderedMap.assign]
      by_cases hka : k < a.1
      · rw [if_pos hka]
        refine List.pairwise_cons.mpr ⟨?_, hall⟩
        intro d hd
        rcases List.mem_cons.mp hd with rfl | hd
        · exact hka
        · exact lt_trans hka (ha d hd)
      · rw [if_neg hka]
        by_cases hak : a.1 < k
        · rw [if_pos hak]
          refine List.pairwise_cons.mpr ⟨?_, ih hm⟩
          intro d hd
          rcases (mem_assign hm).mp hd with rfl | ⟨hd, _⟩
          · exact hak
          · exact ha d hd
        · have hk : a.1 = k := le_antisymm (le_of_not_gt hka) (le_of_not_gt hak)
          rw [if_neg hak]
          refine List.pairwise_cons.mpr ⟨?_, hm⟩
          intro d hd
          exact hk ▸ ha d hd

theorem beforeLowerBound_cons (h : e.1 < k) :
    beforeLowerBound k (e :: m) = some ((beforeLowerBound k m).getD e) := by
  rw [beforeLowerBound, beforeLowerBound,
    List.takeWhile_cons_of_pos (p := fun e : κ × β => decide (e.1 < k)) (decide_eq_true h),
    List.getLast?_cons]

/-- Without an entry before the lower bound, every key is at or after it. -/
theorem beforeLowerBound_none (h : beforeLowerBound k m = none) (hm : Sorted m)
    (he : e ∈ m) : k ≤ e.1 := by
  cases m with
  | nil => cases he
  | cons a m =>
      obtain ⟨ha, _⟩ := List.pairwise_cons.mp hm
      have hak : ¬a.1 < k := by
        intro hak
        rw [beforeLowerBound_cons hak] at h
        cases h
      rcases List.mem_cons.mp he with rfl | he
      · exact le_of_not_gt hak
      · exact le_trans (le_of_not_gt hak) (le_of_lt (ha e he))

theorem beforeLowerBound_some (h : beforeLowerBound k m = some d) : d ∈ m ∧ d.1 < k := by
  have hd := List.mem_of_getLast? h
  exact ⟨(List.takeWhile_sublist _).mem hd,
    of_decide_eq_true (List.mem_takeWhile_imp (p := fun e : κ × β => decide (e.1 < k)) hd)⟩

/-- It is the last entry before the lower bound. -/
theorem le_beforeLowerBound (hm : Sorted m) (h : beforeLowerBound k m = some d) (he : e ∈ m)
    (hk : e.1 < k) : e.1 ≤ d.1 := by
  induction m with
  | nil => cases he
  | cons a m ih =>
      obtain ⟨ha, hm⟩ := List.pairwise_cons.mp hm
      have hak : a.1 < k := by
        rcases List.mem_cons.mp he with rfl | he
        · exact hk
        · exact lt_trans (ha e he) hk
      rw [beforeLowerBound_cons hak, Option.some.injEq] at h
      cases hb : beforeLowerBound k m with
      | none =>
          have hda : d = a := by
            rw [← h, hb]
            rfl
          rcases List.mem_cons.mp he with rfl | he
          · rw [hda]
          · exact absurd hk (not_lt_of_ge (beforeLowerBound_none hb hm he))
      | some c =>
          have hdc : d = c := by
            rw [← h, hb]
            rfl
          subst hdc
          rcases List.mem_cons.mp he with rfl | he
          · exact le_of_lt (ha d (beforeLowerBound_some hb).1)
          · exact ih hm hb he

/-! ## What is found under a key -/

/-- `m.find( k )`. -/
def find (k : κ) : List (κ × β) → Option β
  | [] => none
  | e :: rest => if e.1 = k then some e.2 else find k rest

theorem mem_of_find (h : find k m = some v) : (k, v) ∈ m := by
  induction m with
  | nil => cases h
  | cons a m ih =>
      rw [find] at h
      by_cases hk : a.1 = k
      · rw [if_pos hk, Option.some.injEq] at h
        subst hk h
        exact List.mem_cons_self
      · rw [if_neg hk] at h
        exact List.mem_cons_of_mem a (ih h)

/-- Of the entries of an ordered map exactly one is found under its key. -/
theorem find_eq_some (hm : Sorted m) : find k m = some v ↔ (k, v) ∈ m := by
  refine ⟨mem_of_find, ?_⟩
  intro hmem
  induction m with
  | nil => cases hmem
  | cons a m ih =>
      obtain ⟨ha, hm⟩ := List.pairwise_cons.mp hm
      rw [find]
      rcases List.mem_cons.mp hmem with heq | hmem
      · subst heq
        rw [if_pos rfl]
      · rw [if_neg (ne_of_lt (ha _ hmem))]
        exact ih hm hmem

theorem find_assign (hm : Sorted m) (j : κ) :
    find j (assign k v m) = if j = k then some v else find j m := by
  refine Option.ext ?_
  intro w
  rw [find_eq_some hm.assign, mem_assign hm, Prod.mk.injEq]
  by_cases hj : j = k
  · rw [if_pos hj, Option.some.injEq]
    constructor
    · rintro (⟨_, hw⟩ | ⟨_, hne⟩)
      · exact hw.symm
      · exact absurd hj hne
    · intro hw
      exact Or.inl ⟨hj, hw.symm⟩
  · rw [if_neg hj, find_eq_some hm]
    constructor
    · rintro (⟨hk, _⟩ | ⟨hmem, _⟩)
      · exact absurd hk hj
      · exact hmem
    · intro hmem
      exact Or.inr ⟨hmem, hj⟩

theorem find_erase (hm : Sorted m) (j : κ) :
    find j (erase k m) = if j = k then none else find j m := by
  refine Option.ext ?_
  intro w
  rw [find_eq_some hm.erase, mem_erase]
  by_cases hj : j = k
  · rw [if_pos hj]
    constructor
    · rintro ⟨_, hne⟩
      exact absurd hj hne
    · intro h
      cases h
  · rw [if_neg hj, find_eq_some hm]
    exact ⟨And.left, fun hmem => ⟨hmem, hj⟩⟩

/-- The value under a key becomes a function of what was there. -/
def update (k : κ) (f : Option β → Option β) (m : List (κ × β)) : List (κ × β) :=
  match f (find k m) with
  | some v => assign k v m
  | none => erase k m

theorem Sorted.update (hm : Sorted m) (f : Option β → Option β) :
    Sorted (OrderedMap.update k f m) := by
  rw [OrderedMap.update]
  cases f (find k m) with
  | none => exact hm.erase
  | some v => exact hm.assign

theorem find_update (hm : Sorted m) (f : Option β → Option β) (j : κ) :
    find j (update k f m) = if j = k then f (find k m) else find j m := by
  rw [update]
  cases f (find k m) with
  | none => exact find_erase hm j
  | some v => exact find_assign hm j

/-- The values under several keys change, one after another. -/
def updates (f : κ → Option β → Option β) (ks : List κ) (m : List (κ × β)) : List (κ × β) :=
  ks.foldl (fun m k => update k (f k) m) m

variable {f : κ → Option β → Option β} {ks : List κ}

theorem Sorted.updates (hm : Sorted m) : Sorted (OrderedMap.updates f ks m) := by
  induction ks generalizing m with
  | nil => exact hm
  | cons k ks ih => exact ih (hm.update (f k))

/-- A value has changed as often as its key was named. -/
theorem find_updates (hm : Sorted m) (j : κ) :
    find j (updates f ks m) = (f j)^[ks.count j] (find j m) := by
  induction ks generalizing m with
  | nil => rfl
  | cons k ks ih =>
      show find j (updates f ks (update k (f k) m)) = _
      rw [ih (hm.update (f k)), find_update hm]
      by_cases hj : j = k
      · rw [if_pos hj, hj, List.count_cons_self, Function.iterate_succ_apply]
      · rw [if_neg hj, List.count_cons_of_ne (Ne.symm hj)]

/-! ## The parts around a key -/

variable {pre post : List (κ × β)}

/-- The entries before the key, the one with it, if any, and those after it. -/
theorem Sorted.exists_split (hm : Sorted m) (k : κ) :
    ∃ pre post, (∀ e ∈ pre, e.1 < k) ∧ (∀ e ∈ post, k < e.1) ∧
      (find k m = none ∧ m = pre ++ post ∨
        ∃ v, find k m = some v ∧ m = pre ++ (k, v) :: post) := by
  induction m with
  | nil => exact ⟨[], [], by simp, by simp, Or.inl ⟨rfl, rfl⟩⟩
  | cons a m ih =>
      obtain ⟨ha, hm⟩ := List.pairwise_cons.mp hm
      rcases lt_trichotomy a.1 k with hak | hak | hka
      · obtain ⟨pre, post, hpre, hpost, hcase⟩ := ih hm
        have hfind : find k (a :: m) = find k m := by rw [find, if_neg (ne_of_lt hak)]
        refine ⟨a :: pre, post, ?_, hpost, ?_⟩
        · intro e he
          rcases List.mem_cons.mp he with rfl | he
          · exact hak
          · exact hpre e he
        · rw [hfind]
          rcases hcase with ⟨hnone, rfl⟩ | ⟨v, hsome, rfl⟩
          · exact Or.inl ⟨hnone, rfl⟩
          · exact Or.inr ⟨v, hsome, rfl⟩
      · subst hak
        refine ⟨[], m, by simp, ha, Or.inr ⟨a.2, ?_, rfl⟩⟩
        rw [find, if_pos rfl]
      · have hall : ∀ e ∈ a :: m, k < e.1 := by
          intro e he
          rcases List.mem_cons.mp he with rfl | he
          · exact hka
          · exact lt_trans hka (ha e he)
        refine ⟨[], a :: m, by simp, hall, Or.inl ⟨?_, rfl⟩⟩
        cases hf : find k (a :: m) with
        | none => rfl
        | some v => exact absurd (hall _ (mem_of_find hf)) (lt_irrefl k)

theorem assign_append (hpre : ∀ e ∈ pre, e.1 < k) :
    assign k v (pre ++ m) = pre ++ assign k v m := by
  induction pre with
  | nil => rfl
  | cons a pre ih =>
      have ha := hpre a List.mem_cons_self
      rw [List.cons_append, assign, if_neg (not_lt_of_gt ha), if_pos ha,
        ih fun e he => hpre e (List.mem_cons_of_mem a he), List.cons_append]

theorem assign_of_lt (hpost : ∀ e ∈ post, k < e.1) : assign k v post = (k, v) :: post := by
  cases post with
  | nil => rfl
  | cons a post => rw [assign, if_pos (hpost a List.mem_cons_self)]

theorem assign_self {w : β} : assign k v ((k, w) :: post) = (k, v) :: post := by
  rw [assign, if_neg (lt_irrefl k), if_neg (lt_irrefl k)]

theorem erase_split (hpre : ∀ e ∈ pre, e.1 < k) (hpost : ∀ e ∈ post, k < e.1) :
    erase k (pre ++ (k, v) :: post) = pre ++ post := by
  have h1 : pre.filter (fun e => e.1 ≠ k) = pre :=
    List.filter_eq_self.mpr fun e he => decide_eq_true (ne_of_lt (hpre e he))
  have h2 : post.filter (fun e => e.1 ≠ k) = post :=
    List.filter_eq_self.mpr fun e he => decide_eq_true (ne_of_gt (hpost e he))
  rw [erase, List.filter_append, List.filter_cons_of_neg (by simp), h1, h2]

/-! ## Ordered keys -/

section Keys

variable {n : κ} {ns : List κ}

theorem mem_takeWhile_lt (hs : ns.Pairwise (· < ·)) :
    n ∈ ns.takeWhile (fun n => n < k) ↔ n ∈ ns ∧ n < k := by
  induction ns with
  | nil => exact ⟨fun h => absurd h List.not_mem_nil, fun h => absurd h.1 List.not_mem_nil⟩
  | cons a ns ih =>
      obtain ⟨ha, hs⟩ := List.pairwise_cons.mp hs
      by_cases hak : a < k
      · rw [List.takeWhile_cons_of_pos (p := fun n : κ => decide (n < k)) (decide_eq_true hak),
          List.mem_cons, ih hs, List.mem_cons]
        constructor
        · rintro (rfl | ⟨hmem, hn⟩)
          · exact ⟨Or.inl rfl, hak⟩
          · exact ⟨Or.inr hmem, hn⟩
        · rintro ⟨rfl | hmem, hn⟩
          · exact Or.inl rfl
          · exact Or.inr ⟨hmem, hn⟩
      · rw [List.takeWhile_cons_of_neg (p := fun n : κ => decide (n < k))
          (fun h => hak (of_decide_eq_true h))]
        constructor
        · intro h
          cases h
        · rintro ⟨hmem, hn⟩
          rcases List.mem_cons.mp hmem with rfl | hmem
          · exact absurd hn hak
          · exact absurd (lt_trans (ha n hmem) hn) hak

theorem mem_dropWhile_le (hs : ns.Pairwise (· < ·)) :
    n ∈ ns.dropWhile (fun n => n ≤ k) ↔ n ∈ ns ∧ k < n := by
  induction ns with
  | nil => exact ⟨fun h => absurd h List.not_mem_nil, fun h => absurd h.1 List.not_mem_nil⟩
  | cons a ns ih =>
      obtain ⟨ha, hs⟩ := List.pairwise_cons.mp hs
      by_cases hak : a ≤ k
      · rw [List.dropWhile_cons_of_pos (p := fun n : κ => decide (n ≤ k)) (decide_eq_true hak),
          ih hs, List.mem_cons]
        constructor
        · rintro ⟨hmem, hn⟩
          exact ⟨Or.inr hmem, hn⟩
        · rintro ⟨rfl | hmem, hn⟩
          · exact absurd hak (not_le_of_gt hn)
          · exact ⟨hmem, hn⟩
      · rw [List.dropWhile_cons_of_neg (p := fun n : κ => decide (n ≤ k))
          (fun h => hak (of_decide_eq_true h))]
        constructor
        · intro hmem
          refine ⟨hmem, ?_⟩
          rcases List.mem_cons.mp hmem with rfl | hmem
          · exact lt_of_not_ge hak
          · exact lt_trans (lt_of_not_ge hak) (ha n hmem)
        · exact And.left

end Keys

end OrderedMap
