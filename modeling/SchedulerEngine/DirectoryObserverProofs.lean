import Mathlib.Data.List.Basic
import Mathlib.Order.Lattice
import Mathlib.Data.String.Basic

/-! # Reading a directory

    A `Directory` keeps an ordered list of the entries it has seen.  A read merges
    it with the ordered listing of the disk: entries are added and erased, and what
    has changed ages for some seconds before it counts. -/

namespace DirectoryObserver

/-! ## The data -/

/-- `double` seconds, in microseconds. -/
def second : Int := 1000000

def fileTimestampDelay : Int := 3 * second

def removeDelay : Int := 2 * second

/-- `Directory_entry`.  `D` is the type of subdirectories. -/
structure Entry (D : Type) where
  /-- `_file_info->path().name()` -/
  name : String
  /-- `_file_info->last_write_time()` -/
  lastWriteTime : Int
  subdirectory : Option D
  isAgingUntil : Int
  isRemoved : Bool
  version : Nat

inductive Directory where
  | mk (version : Nat) (lastReadAt : Int) (orderedList : List (Entry Directory))

namespace Directory

def version : Directory → Nat
  | mk version _ _ => version

def lastReadAt : Directory → Int
  | mk _ lastReadAt _ => lastReadAt

/-- `_ordered_list` -/
def orderedList : Directory → List (Entry Directory)
  | mk _ _ orderedList => orderedList

/-- As constructed. -/
def new : Directory := mk 0 0 []

/-- `entry_or_null` -/
def entryOrNull (n : String) (d : Directory) : Option (Entry Directory) :=
  d.orderedList.find? fun e => e.name = n

end Directory

/-- `ordered_file_infos` of a directory, with what its subdirectories contain. -/
inductive Listing where
  | nil
  | file (name : String) (lastWriteTime : Int) (rest : Listing)
  | directory (name : String) (lastWriteTime : Int) (content : Listing) (rest : Listing)

/-- `read_what`, and whether the tree is watched. -/
structure Mode where
  readSubdirectories : Bool
  suppressAging : Bool
  isWatched : Bool

abbrev Entries : Type := List (Entry Directory)

/-! ## One entry -/

section Entry

variable (m : Mode) (now : Int)

/-- `is_aging` -/
def Entry.isAging {D : Type} (e : Entry D) : Bool := 0 < e.isAgingUntil

/-- `set_aging_until` -/
def setAgingUntil (until_ : Int) (e : Entry Directory) : Entry Directory :=
  if m.isWatched then { e with isAgingUntil := until_ } else e

/-- A file is found under the name of the entry. -/
def foundFile (lastWriteTime : Int) (e : Entry Directory) : Entry Directory × Bool :=
  let e := { e with isRemoved := false, subdirectory := none }
  if e.lastWriteTime ≠ lastWriteTime then
    let e := { e with lastWriteTime := lastWriteTime }
    (if m.suppressAging then e else setAgingUntil m (now + fileTimestampDelay) e, false)
  else if now < e.isAgingUntil then (e, false)
  else if e.isAgingUntil ≠ 0 then
    ({ e with isAgingUntil := 0, version := e.version + 1 }, true)
  else (e, false)

/-- A directory is found under the name of the entry; `readSub` reads it. -/
def foundDirectory (readSub : Directory → Directory × Bool) (e : Entry Directory) :
    Entry Directory × Bool :=
  let d := e.subdirectory.getD Directory.new
  let r := if m.readSubdirectories then readSub d else (d, false)
  ({ e with isRemoved := false, subdirectory := some r.1 }, e.subdirectory.isNone || r.2)

def newFile (name : String) (lastWriteTime : Int) : Entry Directory × Bool :=
  let e := ⟨name, lastWriteTime, none, 0, false, 1⟩
  (if m.suppressAging then e else setAgingUntil m (now + fileTimestampDelay) e, false)

def newDirectory (readSub : Directory → Directory × Bool) (name : String)
    (lastWriteTime : Int) : Entry Directory × Bool :=
  let d := if m.readSubdirectories then (readSub Directory.new).1 else Directory.new
  (⟨name, lastWriteTime, some d, 0, false, 1⟩, true)

/-- Nothing is found under the name of the entry. -/
def missing (e : Entry Directory) : Option (Entry Directory) × Bool :=
  if e.subdirectory.isSome then (none, true)
  else if !e.isRemoved && !m.suppressAging then
    (some (setAgingUntil m (now + removeDelay) { e with isRemoved := true }), false)
  else if now < e.isAgingUntil && !m.suppressAging then (some e, false)
  else (none, true)

end Entry

/-! ## The merge -/

section Read

variable (m : Mode) (now : Int)

/-- One more entry before the result of the rest. -/
def push (r : Option (Entry Directory) × Bool) (rest : Entries × Bool) : Entries × Bool :=
  (r.1.toList ++ rest.1, r.2 || rest.2)

def missingAll : Entries → Entries × Bool
  | [] => ([], false)
  | e :: es => push (missing m now e) (missingAll es)

/-- The loop until the file or directory at the iterator has been merged. -/
def mergeItem (name : String) (found : Entry Directory → Entry Directory × Bool)
    (new : Entry Directory × Bool) (rest : Entries → Entries × Bool) : Entries → Entries × Bool
  | [] => push (new.map some id) (rest [])
  | e :: es =>
      if e.name = name then push ((found e).map some id) (rest es)
      else if name < e.name then push (new.map some id) (rest (e :: es))
      else push (missing m now e) (mergeItem name found new rest es)

/-- `read`, around its loop. -/
def readWith (loop : Entries → Entries × Bool) (d : Directory) : Directory × Bool :=
  if !m.readSubdirectories || d.lastReadAt ≤ now then
    let r := loop d.orderedList
    (.mk (if r.2 then d.version + 1 else d.version)
      (if m.readSubdirectories then now else d.lastReadAt) r.1, r.2)
  else (d, false)

/-- The loop of `read` over the listing and the list. -/
def merge : Listing → Entries → Entries × Bool
  | .nil, es => missingAll m now es
  | .file name lastWriteTime rest, es =>
      mergeItem m now name (foundFile m now lastWriteTime) (newFile m now name lastWriteTime)
        (fun es => merge rest es) es
  | .directory name lastWriteTime content rest, es =>
      mergeItem m now name (foundDirectory m (readWith m now fun es => merge content es))
        (newDirectory m (readWith m now fun es => merge content es) name lastWriteTime)
        (fun es => merge rest es) es

/-- `Directory::read` -/
def read (l : Listing) (d : Directory) : Directory × Bool := readWith m now (merge m now l) d

end Read

/-! ## Listings and lists in order -/

namespace Listing

/-- The names of this level. -/
def names : Listing → List String
  | nil => []
  | file name _ rest => name :: rest.names
  | directory name _ _ rest => name :: rest.names

/-- The names increase, in the subdirectories too. -/
def Ordered : Listing → Prop
  | nil => True
  | file name _ rest => (∀ n ∈ rest.names, name < n) ∧ rest.Ordered
  | directory name _ content rest =>
      (∀ n ∈ rest.names, name < n) ∧ content.Ordered ∧ rest.Ordered

/-- What stands under a name. -/
inductive Item where
  | file (lastWriteTime : Int)
  | directory (lastWriteTime : Int) (content : Listing)

def lookup (n : String) : Listing → Option Item
  | nil => none
  | file name t rest => if name = n then some (.file t) else rest.lookup n
  | directory name t content rest =>
      if name = n then some (.directory t content) else rest.lookup n

theorem lookup_isSome {l : Listing} {n : String} : (l.lookup n).isSome = true ↔ n ∈ l.names := by
  induction l with
  | nil =>
      rw [lookup, names]
      simp
  | file name t rest ih =>
      rw [lookup, names, List.mem_cons]
      by_cases h : name = n
      · rw [if_pos h]
        exact iff_of_true rfl (Or.inl h.symm)
      · rw [if_neg h, ih]
        exact ⟨Or.inr, fun hn => hn.resolve_left (Ne.symm h)⟩
  | directory name t content rest _ ih =>
      rw [lookup, names, List.mem_cons]
      by_cases h : name = n
      · rw [if_pos h]
        exact iff_of_true rfl (Or.inl h.symm)
      · rw [if_neg h, ih]
        exact ⟨Or.inr, fun hn => hn.resolve_left (Ne.symm h)⟩

theorem lookup_none {l : Listing} {n : String} (h : n ∉ l.names) : l.lookup n = none := by
  cases hl : l.lookup n with
  | none => rfl
  | some i => exact absurd (lookup_isSome.mp (by rw [hl]; rfl)) h

end Listing

open Listing

variable {m : Mode} {now : Int} {l : Listing} {es : Entries} {e : Entry Directory} {n : String}

def Sorted (es : Entries) : Prop := es.Pairwise fun a b => a.name < b.name

/-- The entry with the name. -/
def entryOf (n : String) (es : Entries) : Option (Entry Directory) := es.find? fun e => e.name = n

theorem entryOf_nil : entryOf n [] = none := rfl

theorem entryOf_cons_self (e : Entry Directory) (es : Entries) : entryOf e.name (e :: es) = some e :=
  List.find?_cons_of_pos (decide_eq_true rfl)

theorem entryOf_cons_of_ne (h : e.name ≠ n) : entryOf n (e :: es) = entryOf n es :=
  List.find?_cons_of_neg (by simpa using h)

theorem entryOf_of_lt (h : ∀ e ∈ es, n < e.name) : entryOf n es = none :=
  List.find?_eq_none.mpr fun e he => by
    rw [decide_eq_true_eq]
    exact ne_of_gt (h e he)

theorem name_of_entryOf (h : entryOf n es = some e) : e.name = n :=
  of_decide_eq_true (List.find?_some (p := fun e : Entry Directory => decide (e.name = n)) h)

theorem mem_of_entryOf (h : entryOf n es = some e) : e ∈ es := List.mem_of_find?_eq_some h

/-! ## What the parts of the loop keep -/

theorem name_setAgingUntil (u : Int) : (setAgingUntil m u e).name = e.name := by
  rw [setAgingUntil]
  split <;> rfl

theorem name_foundFile (t : Int) : (foundFile m now t e).1.name = e.name := by
  simp only [foundFile]
  split
  · split
    · rfl
    · rw [name_setAgingUntil]
  · split
    · rfl
    · split <;> rfl

theorem name_foundDirectory (r : Directory → Directory × Bool) :
    (foundDirectory m r e).1.name = e.name := rfl

theorem name_newFile (t : Int) : (newFile m now n t).1.name = n := by
  simp only [newFile]
  split
  · rfl
  · rw [name_setAgingUntil]

theorem name_newDirectory (r : Directory → Directory × Bool) (t : Int) :
    (newDirectory m r n t).1.name = n := rfl

theorem name_missing {e' : Entry Directory} (h : (missing m now e).1 = some e') :
    e'.name = e.name := by
  rw [missing] at h
  split at h
  · cases h
  · split at h
    · rw [← Option.some.inj h, name_setAgingUntil]
    · split at h
      · rw [← Option.some.inj h]
      · cases h

theorem entryOf_push_some {r : Option (Entry Directory) × Bool} {rest : Entries × Bool}
    (h : r.1 = some e) (hn : e.name = n) : entryOf n (push r rest).1 = some e := by
  rw [push, h, ← hn]
  exact entryOf_cons_self e _

theorem entryOf_push_of_ne {r : Option (Entry Directory) × Bool} {rest : Entries × Bool}
    (h : ∀ e, r.1 = some e → e.name ≠ n) : entryOf n (push r rest).1 = entryOf n rest.1 := by
  rw [push]
  cases hr : r.1 with
  | none => rfl
  | some e => exact entryOf_cons_of_ne (h e hr)

theorem mem_push {r : Option (Entry Directory) × Bool} {rest : Entries × Bool}
    (h : e ∈ (push r rest).1) : r.1 = some e ∨ e ∈ rest.1 :=
  (List.mem_append.mp h).imp_left fun h => Option.mem_toList.mp h

theorem sorted_push {r : Option (Entry Directory) × Bool} {rest : Entries × Bool}
    (hrest : Sorted rest.1) (h : ∀ e, r.1 = some e → ∀ a ∈ rest.1, e.name < a.name) :
    Sorted (push r rest).1 := by
  rw [push]
  cases hr : r.1 with
  | none => exact hrest
  | some e => exact List.pairwise_cons.mpr ⟨h e hr, hrest⟩

theorem changed_push {r : Option (Entry Directory) × Bool} {rest : Entries × Bool} :
    (push r rest).2 = true ↔ r.2 = true ∨ rest.2 = true := by
  rw [push, Bool.or_eq_true]

/-! ## What stands under a name after the merge -/

/-- The entry under a name, from what is found there and the entry before. -/
def after (m : Mode) (now : Int) (n : String) :
    Option Item → Option (Entry Directory) → Option (Entry Directory)
  | some (.file t), some e => some (foundFile m now t e).1
  | some (.file t), none => some (newFile m now n t).1
  | some (.directory _ content), some e => some (foundDirectory m (read m now content) e).1
  | some (.directory t content), none => some (newDirectory m (read m now content) n t).1
  | none, some e => (missing m now e).1
  | none, none => none

/-- Whether this counts as a change. -/
def changedAt (m : Mode) (now : Int) (n : String) :
    Option Item → Option (Entry Directory) → Bool
  | some (.file t), some e => (foundFile m now t e).2
  | some (.file t), none => (newFile m now n t).2
  | some (.directory _ content), some e => (foundDirectory m (read m now content) e).2
  | some (.directory t content), none => (newDirectory m (read m now content) n t).2
  | none, some e => (missing m now e).2
  | none, none => false

/-- What the loop does below a name, if it does the rest right. -/
structure Merges (m : Mode) (now : Int) (n : String) (i : Option Item)
    (loop : Entries → Entries × Bool) : Prop where
  entry : ∀ es, Sorted es → entryOf n (loop es).1 = after m now n i (entryOf n es)
  changed : ∀ es, Sorted es → changedAt m now n i (entryOf n es) = true → (loop es).2 = true

theorem missingAll_merges : Merges m now n none (missingAll m now) where
  entry := by
    intro es hes
    induction es with
    | nil => rfl
    | cons e es ih =>
        obtain ⟨he, hes⟩ := List.pairwise_cons.mp hes
        rw [missingAll]
        by_cases hn : e.name = n
        · subst hn
          rw [entryOf_cons_self, after]
          cases hm : (missing m now e).1 with
          | some e' => exact entryOf_push_some hm (name_missing hm)
          | none =>
              rw [entryOf_push_of_ne (by rw [hm]; rintro _ ⟨⟩), ih hes, entryOf_of_lt he]
              rfl
        · rw [entryOf_cons_of_ne hn, ← ih hes]
          exact entryOf_push_of_ne fun e' he' => by rwa [name_missing he']
  changed := by
    intro es hes hc
    induction es with
    | nil => cases hc
    | cons e es ih =>
        rw [missingAll, changed_push]
        by_cases hn : e.name = n
        · subst hn
          rw [entryOf_cons_self] at hc
          exact Or.inl hc
        · rw [entryOf_cons_of_ne hn] at hc
          exact Or.inr (ih (List.pairwise_cons.mp hes).2 hc)

section MergeItem

variable {name : String} {found : Entry Directory → Entry Directory × Bool}
  {new : Entry Directory × Bool} {rest : Entries → Entries × Bool} {i : Option Item}

/-- Under the name of the item. -/
theorem mergeItem_self (hfound : ∀ e, (found e).1.name = e.name) (hnew : new.1.name = name)
    (hes : Sorted es) :
    entryOf name (mergeItem m now name found new rest es).1 =
        some (((entryOf name es).map fun e => (found e).1).getD new.1) ∧
      (((entryOf name es).map fun e => (found e).2).getD new.2 = true →
        (mergeItem m now name found new rest es).2 = true) := by
  induction es with
  | nil =>
      rw [mergeItem]
      exact ⟨entryOf_push_some rfl hnew, fun h => changed_push.mpr (Or.inl h)⟩
  | cons e es ih =>
      obtain ⟨he, hes⟩ := List.pairwise_cons.mp hes
      rw [mergeItem]
      by_cases hn : e.name = name
      · rw [if_pos hn, ← hn, entryOf_cons_self]
        exact ⟨entryOf_push_some rfl (hfound e), fun h => changed_push.mpr (Or.inl h)⟩
      · rw [if_neg hn]
        by_cases hlt : name < e.name
        · have hnone : entryOf name (e :: es) = none := by
            refine entryOf_of_lt fun a ha => ?_
            rcases List.mem_cons.mp ha with rfl | ha
            · exact hlt
            · exact lt_trans hlt (he a ha)
          rw [if_pos hlt, hnone]
          exact ⟨entryOf_push_some rfl hnew, fun h => changed_push.mpr (Or.inl h)⟩
        · rw [if_neg hlt, entryOf_cons_of_ne hn]
          obtain ⟨h1, h2⟩ := ih hes
          refine ⟨?_, fun h => changed_push.mpr (Or.inr (h2 h))⟩
          rw [← h1]
          exact entryOf_push_of_ne fun e' he' => by rwa [name_missing he']

/-- Under any other name. -/
theorem mergeItem_other (hfound : ∀ e, (found e).1.name = e.name) (hnew : new.1.name = name)
    (hrest : Merges m now n i rest) (hne : n ≠ name) (hi : n < name → i = none) :
    Merges m now n i (mergeItem m now name found new rest) where
  entry := by
    intro es hes
    induction es with
    | nil =>
        rw [mergeItem, ← hrest.entry [] hes]
        exact entryOf_push_of_ne fun e' he' => by
          rw [← Option.some.inj he', hnew]
          exact hne.symm
    | cons e es ih =>
        have hall := hes
        obtain ⟨he, hes⟩ := List.pairwise_cons.mp hes
        rw [mergeItem]
        by_cases hn : e.name = name
        · rw [if_pos hn, entryOf_cons_of_ne (hn ▸ hne.symm), ← hrest.entry es hes]
          exact entryOf_push_of_ne fun e' he' => by
            rw [← Option.some.inj he', hfound, hn]
            exact hne.symm
        · rw [if_neg hn]
          by_cases hlt : name < e.name
          · rw [if_pos hlt, ← hrest.entry _ hall]
            exact entryOf_push_of_ne fun e' he' => by
              rw [← Option.some.inj he', hnew]
              exact hne.symm
          · rw [if_neg hlt]
            by_cases hen : e.name = n
            · -- the entry is missing, and it was the only one of the name
              have hlt' : n < name := hen ▸ lt_of_le_of_ne (le_of_not_gt hlt) hn
              subst hen
              rw [entryOf_cons_self, hi hlt', after]
              cases hm : (missing m now e).1 with
              | some e' => exact entryOf_push_some hm (name_missing hm)
              | none =>
                  rw [entryOf_push_of_ne (by rw [hm]; rintro _ ⟨⟩), ih hes, entryOf_of_lt he,
                    hi hlt']
                  rfl
            · rw [entryOf_cons_of_ne hen, ← ih hes]
              exact entryOf_push_of_ne fun e' he' => by rwa [name_missing he']
  changed := by
    intro es hes hc
    induction es with
    | nil =>
        rw [mergeItem]
        exact changed_push.mpr (Or.inr (hrest.changed [] hes hc))
    | cons e es ih =>
        have hall := hes
        obtain ⟨he, hes⟩ := List.pairwise_cons.mp hes
        rw [mergeItem]
        by_cases hn : e.name = name
        · rw [entryOf_cons_of_ne (hn ▸ hne.symm)] at hc
          rw [if_pos hn]
          exact changed_push.mpr (Or.inr (hrest.changed es hes hc))
        · rw [if_neg hn]
          by_cases hlt : name < e.name
          · rw [if_pos hlt]
            exact changed_push.mpr (Or.inr (hrest.changed _ hall hc))
          · rw [if_neg hlt]
            by_cases hen : e.name = n
            · have hlt' : n < name := hen ▸ lt_of_le_of_ne (le_of_not_gt hlt) hn
              subst hen
              rw [entryOf_cons_self, hi hlt'] at hc
              exact changed_push.mpr (Or.inl hc)
            · rw [entryOf_cons_of_ne hen] at hc
              exact changed_push.mpr (Or.inr (ih hes hc))

end MergeItem

/-- The loop does under each name what is to be done there. -/
theorem merge_merges (hl : l.Ordered) (n : String) :
    Merges m now n (l.lookup n) (merge m now l) := by
  induction l with
  | nil => exact missingAll_merges
  | file name t rest ih =>
      obtain ⟨hlt, hl⟩ := hl
      rw [lookup]
      by_cases hn : name = n
      · subst hn
        rw [if_pos rfl]
        constructor
        · intro es hes
          rw [merge, (mergeItem_self (fun _ => name_foundFile t) (name_newFile t) hes).1]
          cases entryOf name es <;> rfl
        · intro es hes hc
          rw [merge]
          refine (mergeItem_self (fun _ => name_foundFile t) (name_newFile t) hes).2 ?_
          revert hc
          cases entryOf name es <;> exact id
      · rw [if_neg hn]
        have hother : Merges m now n (rest.lookup n) (mergeItem m now name (foundFile m now t)
            (newFile m now name t) (merge m now rest)) :=
          mergeItem_other (fun _ => name_foundFile t) (name_newFile t) (ih hl) (Ne.symm hn)
            fun h => lookup_none fun hmem => lt_asymm h (hlt n hmem)
        exact ⟨hother.entry, hother.changed⟩
  | directory name t content rest _ ih =>
      obtain ⟨hlt, _, hl⟩ := hl
      rw [lookup]
      by_cases hn : name = n
      · subst hn
        rw [if_pos rfl]
        constructor
        · intro es hes
          rw [merge, (mergeItem_self (fun _ => name_foundDirectory _) (name_newDirectory _ t) hes).1]
          cases entryOf name es <;> rfl
        · intro es hes hc
          rw [merge]
          refine (mergeItem_self (fun _ => name_foundDirectory _) (name_newDirectory _ t) hes).2 ?_
          revert hc
          cases entryOf name es <;> exact id
      · rw [if_neg hn]
        have hother : Merges m now n (rest.lookup n)
            (mergeItem m now name (foundDirectory m (read m now content))
              (newDirectory m (read m now content) name t) (merge m now rest)) :=
          mergeItem_other (fun _ => name_foundDirectory _) (name_newDirectory _ t) (ih hl)
            (Ne.symm hn) fun h => lookup_none fun hmem => lt_asymm h (hlt n hmem)
        exact ⟨hother.entry, hother.changed⟩

/-! ## The list stays ordered -/

/-- Every name is after `n`. -/
def Above (n : String) (es : Entries) : Prop := ∀ e ∈ es, n < e.name

theorem above_missingAll (h : Above n es) : Above n (missingAll m now es).1 := by
  induction es with
  | nil => exact h
  | cons e es ih =>
      intro a ha
      rw [missingAll] at ha
      rcases mem_push ha with ha | ha
      · rw [name_missing ha]
        exact h e List.mem_cons_self
      · exact ih (fun b hb => h b (List.mem_cons_of_mem _ hb)) a ha

theorem sorted_missingAll (h : Sorted es) : Sorted (missingAll m now es).1 := by
  induction es with
  | nil => exact h
  | cons e es ih =>
      obtain ⟨he, hes⟩ := List.pairwise_cons.mp h
      rw [missingAll]
      refine sorted_push (ih hes) fun e' he' => ?_
      rw [name_missing he']
      exact above_missingAll he

section MergeItem

variable {name : String} {found : Entry Directory → Entry Directory × Bool}
  {new : Entry Directory × Bool} {rest : Entries → Entries × Bool}

theorem above_mergeItem (hfound : ∀ e, (found e).1.name = e.name) (hnew : new.1.name = name)
    (hrest : ∀ es, Above n es → Above n (rest es).1) (hn : n < name) (h : Above n es) :
    Above n (mergeItem m now name found new rest es).1 := by
  have hnew' : ∀ a, some new.1 = some a → n < a.name := by
    intro a ha
    rw [← Option.some.inj ha, hnew]
    exact hn
  induction es with
  | nil =>
      intro a ha
      rcases mem_push ha with ha | ha
      · exact hnew' a ha
      · exact hrest [] h a ha
  | cons e es ih =>
      have hes : Above n es := fun b hb => h b (List.mem_cons_of_mem _ hb)
      intro a ha
      rw [mergeItem] at ha
      by_cases hname : e.name = name
      · rw [if_pos hname] at ha
        rcases mem_push ha with ha | ha
        · rw [← Option.some.inj ha, hfound]
          exact h e List.mem_cons_self
        · exact hrest es hes a ha
      · rw [if_neg hname] at ha
        by_cases hlt : name < e.name
        · rw [if_pos hlt] at ha
          rcases mem_push ha with ha | ha
          · exact hnew' a ha
          · exact hrest _ h a ha
        · rw [if_neg hlt] at ha
          rcases mem_push ha with ha | ha
          · rw [name_missing ha]
            exact h e List.mem_cons_self
          · exact ih hes a ha

theorem sorted_mergeItem (hfound : ∀ e, (found e).1.name = e.name) (hnew : new.1.name = name)
    (habove : ∀ n es, n ≤ name → Above n es → Above n (rest es).1)
    (hrest : ∀ es, Sorted es → Sorted (rest es).1) (h : Sorted es) :
    Sorted (mergeItem m now name found new rest es).1 := by
  have hnew' : ∀ es, Above name es →
      ∀ a, some new.1 = some a → ∀ b ∈ (rest es).1, a.name < b.name := by
    intro es hes a ha b hb
    rw [← Option.some.inj ha, hnew]
    exact habove name es le_rfl hes b hb
  induction es with
  | nil => exact sorted_push (hrest [] h) (hnew' [] fun _ hb => absurd hb List.not_mem_nil)
  | cons e es ih =>
      obtain ⟨he, hes⟩ := List.pairwise_cons.mp h
      rw [mergeItem]
      by_cases hname : e.name = name
      · rw [if_pos hname]
        refine sorted_push (hrest es hes) fun a ha b hb => ?_
        rw [← Option.some.inj ha, hfound]
        exact habove e.name es (le_of_eq hname) he b hb
      · rw [if_neg hname]
        by_cases hlt : name < e.name
        · rw [if_pos hlt]
          refine sorted_push (hrest _ h) (hnew' _ fun b hb => ?_)
          rcases List.mem_cons.mp hb with rfl | hb
          · exact hlt
          · exact lt_trans hlt (he b hb)
        · have hen : e.name < name := lt_of_le_of_ne (le_of_not_gt hlt) hname
          rw [if_neg hlt]
          refine sorted_push (ih hes) fun a ha => ?_
          rw [name_missing ha]
          exact above_mergeItem hfound hnew (fun es => habove e.name es (le_of_lt hen)) hen he

end MergeItem

theorem above_merge (hl : ∀ k ∈ l.names, n < k) (h : Above n es) :
    Above n (merge m now l es).1 := by
  induction l generalizing es with
  | nil => exact above_missingAll h
  | file name t rest ih =>
      exact above_mergeItem (fun _ => name_foundFile t) (name_newFile t)
        (fun _ hes => ih (fun k hk => hl k (List.mem_cons_of_mem _ hk)) hes)
        (hl name List.mem_cons_self) h
  | directory name t content rest _ ih =>
      exact above_mergeItem (fun _ => name_foundDirectory _) (name_newDirectory _ t)
        (fun _ hes => ih (fun k hk => hl k (List.mem_cons_of_mem _ hk)) hes)
        (hl name List.mem_cons_self) h

theorem sorted_merge (hl : l.Ordered) (h : Sorted es) : Sorted (merge m now l es).1 := by
  induction l generalizing es with
  | nil => exact sorted_missingAll h
  | file name t rest ih =>
      obtain ⟨hlt, hl⟩ := hl
      exact sorted_mergeItem (fun _ => name_foundFile t) (name_newFile t)
        (fun n es hn hes => above_merge (fun k hk => lt_of_le_of_lt hn (hlt k hk)) hes)
        (fun _ hes => ih hl hes) h
  | directory name t content rest _ ih =>
      obtain ⟨hlt, _, hl⟩ := hl
      exact sorted_mergeItem (fun _ => name_foundDirectory _) (name_newDirectory _ t)
        (fun n es hn hes => above_merge (fun k hk => lt_of_le_of_lt hn (hlt k hk)) hes)
        (fun _ hes => ih hl hes) h

end DirectoryObserver
