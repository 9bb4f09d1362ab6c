import Mathlib.Data.Set.Lattice
import Mathlib.Order.CompletePartialOrder
import Mathlib.Data.String.Basic
import SchedulerEngine.ExecutionProofs
import SchedulerEngine.NamedForestProofs

/-! # Cloning and merging directories

    Directories stand in a memory, and an entry refers to its subdirectory.  A tree is
    cloned, and another one is then merged into the clone in place.  What the program
    makes in the memory is the merged forest of both trees; the directories that were
    there before stay as they were. -/

namespace DirectoryMerge

open Execution NamedForest

/-! ## The data -/

abbrev Ref := Nat

inductive ConfigurationOrigin where
  | confdirNone
  | confdirLocal
  | confdirCache
deriving DecidableEq

/-- What `_file_info` refers to is shared and does not change. -/
structure FileInfo where
  name : String
  lastWriteTime : Int
deriving DecidableEq

/-- `Directory_entry` without its subdirectory. -/
structure Data where
  fileInfo : FileInfo
  isAgingUntil : Int
  isRemoved : Bool
  configurationOrigin : ConfigurationOrigin
  version : Int
  duplicateVersion : Int
  normalizedName : String
deriving DecidableEq

def Data.name (d : Data) : String := d.fileInfo.name

def Data.isAging (d : Data) : Bool := 0 < d.isAgingUntil

/-- `Directory_entry` -/
structure Entry extends Data where
  subdirectory : Option Ref

structure Directory where
  name : String
  version : Int
  lastReadAt : Int
  parent : Option Ref
  directoryTree : Option Nat
  orderedList : List Entry

/-- The directories, and where the next one is made. -/
structure Memory where
  dir : Ref → Directory
  next : Ref

/-- Directories are nested deeper than the program goes. -/
inductive TooDeep where
  | tooDeep

abbrev Program := Exec Memory TooDeep

namespace Memory

def put (m : Memory) (r : Ref) (d : Directory) : Memory :=
  { m with dir := fun q => if q = r then d else m.dir q }

/-- `Z_NEW( Directory( .. ) )` -/
def alloc (m : Memory) (d : Directory) : Memory :=
  { m.put m.next d with next := m.next + 1 }

@[simp] theorem put_same (m : Memory) (r : Ref) (d : Directory) : (m.put r d).dir r = d :=
  if_pos rfl

theorem put_other {m : Memory} {r q : Ref} {d : Directory} (h : q ≠ r) :
    (m.put r d).dir q = m.dir q :=
  if_neg h

end Memory

/-! ## The program -/

/-- `Directory_entry::clone` -/
def cloneEntry (clone2 : Ref → Option Ref → Program Ref) (newParent : Option Ref) (e : Entry) :
    Program Entry :=
  match e.subdirectory with
  | none => pure e
  | some s => do
      let s' ← clone2 s newParent
      pure { e with subdirectory := some s' }

def cloneEntries (clone2 : Ref → Option Ref → Program Ref) (newParent : Option Ref) :
    List Entry → Program (List Entry)
  | [] => pure []
  | e :: es => do
      let e' ← cloneEntry clone2 newParent e
      let es' ← cloneEntries clone2 newParent es
      pure (e' :: es')

/-- `Directory::clone2`.  The clones of the entries get the parent of this clone. -/
def clone2 : Nat → Ref → Option Ref → Program Ref
  | 0, _, _ => throw .tooDeep
  | n + 1, self, newParent => do
      let d := (← get).dir self
      let m ← get
      let result := m.next
      set (m.alloc ⟨d.name, 0, 0, newParent, none, []⟩)
      let entries ← cloneEntries (clone2 n) newParent d.orderedList
      modify fun m => m.put result { m.dir result with orderedList := entries }
      pure result

/-- `Directory::clone` -/
def clone (n : Nat) (self : Ref) : Program Ref := clone2 n self none

section Merging

variable (clone2 : Ref → Option Ref → Program Ref) (mergeNewEntries : Ref → Ref → Program Unit)
  (this : Ref)

/-- Both have an entry of the name: `my` is what is in the list then. -/
def meet (o my : Entry) : Program Entry :=
  match o.subdirectory with
  | some other =>
      match my.subdirectory with
      | some mine => do
          mergeNewEntries mine other
          pure my
      | none => cloneEntry clone2 (some this) o
  | none =>
      if o.isAging then pure my
      else pure { my with duplicateVersion := o.version }

/-- One entry of the other directory, with the entries of this one from the iterator on.
    `next` goes on with the other entries and the iterator then. -/
def mergeEntry (o : Entry) (next : List Entry → Program (List Entry)) :
    List Entry → Program (List Entry)
  | [] => do
      let c ← cloneEntry clone2 (some this) o
      let rest ← next []
      pure (c :: rest)
  | my :: mys =>
      if my.name < o.name then do
        let rest ← mergeEntry o next mys
        pure (my :: rest)
      else if my.name = o.name then do
        let my ← meet clone2 mergeNewEntries this o my
        next (my :: mys)
      else do
        let c ← cloneEntry clone2 (some this) o
        let rest ← next (my :: mys)
        pure (c :: rest)

def mergeEntries : List Entry → List Entry → Program (List Entry)
  | [], mys => pure mys
  | o :: os, mys => mergeEntry clone2 mergeNewEntries this o (mergeEntries os) mys

end Merging

/-- `Directory::merge_new_entries` -/
def mergeNewEntries : Nat → Ref → Ref → Program Unit
  | 0, _, _ => throw .tooDeep
  | n + 1, this, other => do
      let m ← get
      let entries ← mergeEntries (clone2 n) (mergeNewEntries n) this (m.dir other).orderedList
        (m.dir this).orderedList
      modify fun m => m.put this { m.dir this with orderedList := entries }

/-- `Folder_subsystem::merged_cache_and_local_directories` -/
def mergedCacheAndLocalDirectories (n : Nat) (cache live : Ref) : Program Ref := do
  let result ← clone n cache
  mergeNewEntries n result live
  pure result

/-! ## Paths -/

inductive PathError where
  /-- SCHEDULER-461 -/
  | dotDotAboveRoot
  | emptyBase
  | tooDeep
deriving DecidableEq

abbrev Text := List Char

def isAbsolutePath (path : Text) : Bool := path.head? = some '/'

/-- The parts without `.` and, as far as it goes, without `..`; `done` are the parts
    before, the last one first. -/
def simplifiedParts (isAbsolute : Bool) : Text → List Text → List Text → Except PathError (List Text)
  | _, done, [] => .ok done.reverse
  | path, done, part :: parts =>
      if part = ['.'] then simplifiedParts isAbsolute path done parts
      else if part = ['.', '.'] then
        match done with
        | [] =>
            if isAbsolute then .error .dotDotAboveRoot
            else simplifiedParts isAbsolute path [part] parts
        | last :: before =>
            if last = ['.', '.'] then simplifiedParts isAbsolute path (part :: done) parts
            else simplifiedParts isAbsolute path before parts
      else simplifiedParts isAbsolute path (part :: done) parts

def simplifiedDotDotPath (path : Text) : Except PathError Text :=
  if '.' ∉ path ∧ '/' ∉ path then .ok path
  else do
    let isAbsolute := isAbsolutePath path
    let parts ← simplifiedParts isAbsolute path [] ((path.splitOn '/').filter (· ≠ []))
    let result := (if isAbsolute then ['/'] else []) ++ ['/'].intercalate parts
    if result = [] then pure ['.']
    else if parts ≠ [] ∧ path.getLast? = some '/' then pure (result ++ ['/'])
    else pure result

/-- `Path::Path( folder_path, tail_path )` -/
def joinedPath (folderPath tailPath : Text) : Except PathError Text :=
  if folderPath.length + tailPath.length = 0 then .ok []
  else
    let path := if folderPath ≠ [] ∧ folderPath.getLast? ≠ some '/' then folderPath ++ ['/']
      else folderPath
    let tail := if folderPath ≠ [] ∧ tailPath.head? = some '/' then tailPath.drop 1 else tailPath
    simplifiedDotDotPath (path ++ tail)

/-- `Absolute_path( absolute_base, relative )` -/
def absolutePath (absoluteBase : Text) (path : Text) : Except PathError Text := do
  let relative ← simplifiedDotDotPath path
  if absoluteBase = [] ∧ relative = [] then .ok []
  else if absoluteBase = [] then .error .emptyBase
  else if relative = [] then .ok []
  else if isAbsolutePath relative then simplifiedDotDotPath relative
  else do
    let joined ← joinedPath absoluteBase relative
    simplifiedDotDotPath joined

def rootPath : Text := ['/']

/-- `Directory::path` -/
def path (m : Memory) : Nat → Ref → Except PathError Text
  | 0, _ => .error .tooDeep
  | n + 1, r =>
      match (m.dir r).parent with
      | none => absolutePath rootPath (m.dir r).name.toList
      | some parent => do
          let base ← path m n parent
          absolutePath base (m.dir r).name.toList

/-! ## Trees in the memory -/

/-- The entries are the forest, with the directories of `fp` below them, each of them
    reached once. -/
inductive Holds (m : Memory) : Forest Data → List Entry → Set Ref → Prop
  | nil : Holds m .nil [] ∅
  | leaf (d : Data) {rest : Forest Data} {es : List Entry} {g : Set Ref} : Holds m rest es g →
      Holds m (.leaf d rest) (⟨d, none⟩ :: es) g
  | node (d : Data) {sub rest : Forest Data} {r : Ref} {es : List Entry} {f g : Set Ref} :
      (m.dir r).name = d.name → Holds m sub (m.dir r).orderedList f → Holds m rest es g →
      r ∉ f → r ∉ g → Disjoint f g →
      Holds m (.node d sub rest) (⟨d, some r⟩ :: es) (insert r (f ∪ g))

/-- The parents of the directories of these entries. -/
def ParentsIn (m : Memory) (S : Set (Option Ref)) (es : List Entry) : Prop :=
  ∀ e ∈ es, ∀ r, e.subdirectory = some r → (m.dir r).parent ∈ S

/-- Of the directories that are there, only those of `fp` may have changed, and these
    keep name and parent. -/
structure Extends (fp : Set Ref) (m m' : Memory) : Prop where
  next : m.next ≤ m'.next
  same : ∀ r < m.next, r ∉ fp → m'.dir r = m.dir r
  name : ∀ r < m.next, (m'.dir r).name = (m.dir r).name
  parent : ∀ r < m.next, (m'.dir r).parent = (m.dir r).parent

theorem Extends.refl (fp : Set Ref) (m : Memory) : Extends fp m m :=
  ⟨le_refl _, fun _ _ _ => rfl, fun _ _ => rfl, fun _ _ => rfl⟩

theorem Extends.trans {fp fp' : Set Ref} {m m' m'' : Memory} (h : Extends fp m m')
    (h' : Extends fp' m' m'') (hsub : ∀ r < m.next, r ∈ fp' → r ∈ fp) : Extends fp m m'' := by
  have later : ∀ r, r < m.next → r < m'.next := fun r hr => lt_of_lt_of_le hr h.next
  refine ⟨le_trans h.next h'.next, fun r hr hn => ?_, fun r hr => ?_, fun r hr => ?_⟩
  · rw [h'.same r (later r hr) fun hm => hn (hsub r hr hm), h.same r hr hn]
  · rw [h'.name r (later r hr), h.name r hr]
  · rw [h'.parent r (later r hr), h.parent r hr]

theorem Extends.mono {fp fp' : Set Ref} {m m' : Memory} (h : Extends fp m m') (hsub : fp ⊆ fp') :
    Extends fp' m m' :=
  ⟨h.next, fun r hr hn => h.same r hr fun hm => hn (hsub hm), h.name, h.parent⟩

/-- A tree is the same in a memory that has its directories. -/
theorem Holds.frame {m m' : Memory} {f : Forest Data} {es : List Entry} {fp : Set Ref}
    (h : Holds m f es fp) (hsame : ∀ r ∈ fp, m'.dir r = m.dir r) : Holds m' f es fp := by
  induction h with
  | nil => exact .nil
  | leaf d _ ih => exact .leaf d (ih hsame)
  | @node d sub rest r es f g hname _ _ hf hg hfg ih1 ih2 =>
      have hr : m'.dir r = m.dir r := hsame r (Set.mem_insert ..)
      have h1 := ih1 fun q hq => hsame q (Set.mem_insert_of_mem _ (Set.mem_union_left _ hq))
      have h2 := ih2 fun q hq => hsame q (Set.mem_insert_of_mem _ (Set.mem_union_right _ hq))
      rw [← hr] at h1 hname
      exact .node d hname h1 h2 hf hg hfg

theorem Holds.append {m : Memory} {f g : Forest Data} {es es' : List Entry} {a b : Set Ref}
    (h : Holds m f es a) (h' : Holds m g es' b) (hab : Disjoint a b) :
    Holds m (f.append g) (es ++ es') (a ∪ b) := by
  induction h with
  | nil =>
      rw [Set.empty_union]
      exact h'
  | leaf d _ ih => exact .leaf d (ih hab)
  | @node d sub rest r es f g hname h1 _ hf hg hfg _ ih2 =>
      rw [Set.insert_union, Set.union_assoc]
      rw [Set.disjoint_insert_left, Set.disjoint_union_left] at hab
      obtain ⟨hr, h3, h4⟩ := hab
      refine .node d hname h1 (ih2 h4) hf ?_ (Set.disjoint_union_right.mpr ⟨hfg, h3⟩)
      exact fun hm => hm.elim hg hr

/-! ## Clones -/

/-- The clone of a directory: new throughout, and nothing else has changed. -/
structure ClonedDir (m : Memory) (name : String) (p : Option Ref) (f : Forest Data) (r : Ref)
    (m' : Memory) (fp : Set Ref) : Prop where
  ext : Extends ∅ m m'
  name : (m'.dir r).name = name
  parent : (m'.dir r).parent = p
  holds : Holds m' f (m'.dir r).orderedList fp
  root : m.next ≤ r ∧ r < m'.next
  fresh : ∀ q ∈ fp, m.next ≤ q ∧ q < m'.next
  apart : r ∉ fp
  parents : ParentsIn m' {p} (m'.dir r).orderedList

/-- The clones of some entries. -/
structure Cloned (m : Memory) (p : Option Ref) (f : Forest Data) (es : List Entry)
    (m' : Memory) (fp : Set Ref) : Prop where
  ext : Extends ∅ m m'
  holds : Holds m' f es fp
  fresh : ∀ q ∈ fp, m.next ≤ q ∧ q < m'.next
  parents : ParentsIn m' {p} es

theorem extends_alloc (m : Memory) (d : Directory) : Extends ∅ m (m.alloc d) := by
  have h : ∀ r < m.next, (m.alloc d).dir r = m.dir r :=
    fun r hr => Memory.put_other (ne_of_lt hr)
  refine ⟨Nat.le_succ _, fun r hr _ => h r hr, fun r hr => ?_, fun r hr => ?_⟩
  · rw [h r hr]
  · rw [h r hr]

/-- New entries for a directory. -/
theorem extends_put {fp : Set Ref} {m : Memory} {r : Ref} (es : List Entry) (hr : r ∈ fp) :
    Extends fp m (m.put r { m.dir r with orderedList := es }) := by
  have h : ∀ q, q ≠ r → (m.put r { m.dir r with orderedList := es }).dir q = m.dir q :=
    fun q hq => Memory.put_other hq
  refine ⟨le_refl _, fun q _ hn => h q fun he => hn (he ▸ hr), fun q _ => ?_, fun q _ => ?_⟩
  · by_cases hq : q = r
    · rw [hq, Memory.put_same]
    · rw [h q hq]
  · by_cases hq : q = r
    · rw [hq, Memory.put_same]
    · rw [h q hq]

/-- Parents are kept where nothing but entries changes. -/
theorem ParentsIn.ext {fp : Set Ref} {m m' : Memory} {S : Set (Option Ref)} {es : List Entry}
    (h : ParentsIn m S es) (he : Extends fp m m')
    (hin : ∀ e ∈ es, ∀ r, e.subdirectory = some r → r < m.next) : ParentsIn m' S es := by
  intro e hm r hr
  rw [he.parent r (hin e hm r hr)]
  exact h e hm r hr

/-- The directories of the entries belong to the footprint. -/
theorem Holds.subdirectory_mem {m : Memory} {f : Forest Data} {es : List Entry} {fp : Set Ref}
    (h : Holds m f es fp) : ∀ e ∈ es, ∀ r, e.subdirectory = some r → r ∈ fp := by
  induction h with
  | nil =>
      intro e he
      cases he
  | leaf d _ ih =>
      intro e he r hr
      rcases List.mem_cons.mp he with rfl | he
      · cases hr
      · exact ih e he r hr
  | node d _ _ _ _ _ _ _ ih =>
      intro e he r hr
      rcases List.mem_cons.mp he with rfl | he
      · cases hr
        exact Set.mem_insert ..
      · exact Set.mem_insert_of_mem _ (Set.mem_union_right _ (ih e he r hr))

/-- The entries of this forest are cloned, wherever they are. -/
def ClonesAt (n : Nat) (f : Forest Data) : Prop :=
  ∀ m es fp p, Holds m f es fp → (∀ q ∈ fp, q < m.next) →
    ∃ es' m' fp', cloneEntries (clone2 n) p es m = (.ok es', m') ∧ Cloned m p f es' m' fp'

theorem clone2_of {n : Nat} {f : Forest Data} (hclones : ClonesAt n f) {m : Memory} {r : Ref}
    (p : Option Ref) {fp : Set Ref} (hf : Holds m f (m.dir r).orderedList fp)
    (hin : ∀ q ∈ fp, q < m.next) :
    ∃ r' m' fp', clone2 (n + 1) r p m = (.ok r', m') ∧
      ClonedDir m (m.dir r).name p f r' m' fp' := by
  have h1 := extends_alloc m ⟨(m.dir r).name, 0, 0, p, none, []⟩
  obtain ⟨es, m2, fp', hrun, h2⟩ := hclones (m.alloc ⟨(m.dir r).name, 0, 0, p, none, []⟩) _ fp p
    (hf.frame fun q hq => h1.same q (hin q hq) (Set.notMem_empty q))
    fun q hq => Nat.lt_succ_of_lt (hin q hq)
  have hr : m.next < (m.alloc ⟨(m.dir r).name, 0, 0, p, none, []⟩).next := Nat.lt_succ_self _
  have hapart : m.next ∉ fp' := fun hm => absurd (h2.fresh _ hm).1 (Nat.not_succ_le_self _)
  have hput := extends_put (m := m2) es (Set.mem_singleton m.next)
  have hkept : ∀ q ∈ fp', (m2.put m.next { m2.dir m.next with orderedList := es }).dir q
      = m2.dir q := fun q hq => Memory.put_other fun he => hapart (he ▸ hq)
  refine ⟨m.next, m2.put m.next { m2.dir m.next with orderedList := es }, fp', ?_, ?_⟩
  · simp only [clone2, bind_run, get_run, set_run]
    rw [hrun]
    rfl
  · refine ⟨?_, ?_, ?_, ?_, ⟨le_refl _, ?_⟩, ?_, hapart, ?_⟩
    · refine (h1.trans h2.ext fun q _ hq => hq).trans hput fun q hq hm => ?_
      rw [Set.mem_singleton_iff.mp hm] at hq
      exact absurd hq (lt_irrefl _)
    · rw [Memory.put_same]
      show (m2.dir m.next).name = _
      rw [h2.ext.name m.next hr]
      show ((m.put m.next _).dir m.next).name = _
      rw [Memory.put_same]
    · rw [Memory.put_same]
      show (m2.dir m.next).parent = _
      rw [h2.ext.parent m.next hr]
      show ((m.put m.next _).dir m.next).parent = _
      rw [Memory.put_same]
    · rw [Memory.put_same]
      exact h2.holds.frame hkept
    · exact lt_of_lt_of_le hr h2.ext.next
    · intro q hq
      obtain ⟨h3, h4⟩ := h2.fresh q hq
      exact ⟨le_of_lt h3, h4⟩
    · rw [Memory.put_same]
      refine h2.parents.ext hput fun e he q hq => ?_
      exact (h2.fresh q (h2.holds.subdirectory_mem e he q hq)).2

/-- One entry is cloned, and then the rest. -/
theorem Cloned.cons {m m' m'' : Memory} {p : Option Ref} {d : Data} {f g : Forest Data} {r : Ref}
    {es : List Entry} {fp gp : Set Ref} (h : ClonedDir m d.name p f r m' fp)
    (h' : Cloned m' p g es m'' gp) :
    Cloned m p (.node d f g) (⟨d, some r⟩ :: es) m'' (insert r (fp ∪ gp)) := by
  have same : ∀ q < m'.next, m''.dir q = m'.dir q :=
    fun q hq => h'.ext.same q hq (Set.notMem_empty q)
  have hr := same r h.root.2
  have hnew : ∀ q ∈ gp, m'.next ≤ q := fun q hq => (h'.fresh q hq).1
  have hf := h.holds.frame fun q hq => same q (h.fresh q hq).2
  refine ⟨h.ext.trans h'.ext fun q _ hq => hq, ?_, ?_, ?_⟩
  · rw [← hr] at hf
    refine .node d ?_ hf h'.holds h.apart ?_ ?_
    · rw [hr, h.name]
    · exact fun hm => absurd h.root.2 (not_lt.mpr (hnew r hm))
    · exact Set.disjoint_left.mpr fun q hq hm => absurd (h.fresh q hq).2 (not_lt.mpr (hnew q hm))
  · intro q hq
    rcases Set.mem_insert_iff.mp hq with rfl | hq
    · exact ⟨h.root.1, lt_of_lt_of_le h.root.2 h'.ext.next⟩
    · rcases hq with hq | hq
      · exact ⟨(h.fresh q hq).1, lt_of_lt_of_le (h.fresh q hq).2 h'.ext.next⟩
      · exact ⟨le_trans h.ext.next (h'.fresh q hq).1, (h'.fresh q hq).2⟩
  · intro e he q hq
    rcases List.mem_cons.mp he with rfl | he
    · cases hq
      rw [hr, h.parent]
      exact Set.mem_singleton p
    · exact h'.parents e he q hq

/-- By induction on the forest; every subdirectory takes one level. -/
theorem clonesAt (f : Forest Data) : ∀ n, f.depth ≤ n → ClonesAt n f := by
  induction f with
  | nil =>
      intro n _ m es fp p h _
      cases h
      exact ⟨[], m, ∅, rfl, Extends.refl _ _, .nil, fun q hq => absurd hq (Set.notMem_empty q),
        fun e he => by cases he⟩
  | leaf d rest ih =>
      intro n hn m es fp p h hin
      cases h with
      | leaf _ h =>
          obtain ⟨es', m', fp', hrun, hc⟩ := ih n hn m _ fp p h hin
          refine ⟨⟨d, none⟩ :: es', m', fp', ?_, hc.ext, .leaf d hc.holds, hc.fresh, ?_⟩
          · rw [cloneEntries, cloneEntry]
            simp only [bind_run, pure_run]
            rw [hrun]
          · intro e he q hq
            rcases List.mem_cons.mp he with rfl | he
            · cases hq
            · exact hc.parents e he q hq
  | node d sub rest ih1 ih2 =>
      intro n hn m es fp p h hin
      cases h with
      | @node _ _ _ r es f g hname hf hg _ _ _ =>
          obtain ⟨hd, hrest⟩ := max_le_iff.mp hn
          obtain ⟨k, rfl⟩ : ∃ k, n = k + 1 := ⟨n - 1, by omega⟩
          obtain ⟨r', m', fp', hrun, hc⟩ := clone2_of (ih1 k (by omega)) p hf
            fun q hq => hin q (Set.mem_insert_of_mem _ (Set.mem_union_left _ hq))
          have hg' := hg.frame fun q hq => hc.ext.same q
            (hin q (Set.mem_insert_of_mem _ (Set.mem_union_right _ hq))) (Set.notMem_empty q)
          obtain ⟨es', m'', gp', hrun', hc'⟩ := ih2 (k + 1) hrest m' es g p hg' fun q hq =>
            lt_of_lt_of_le (hin q (Set.mem_insert_of_mem _ (Set.mem_union_right _ hq))) hc.ext.next
          rw [hname] at hc
          refine ⟨⟨d, some r'⟩ :: es', m'', insert r' (fp' ∪ gp'), ?_, .cons hc hc'⟩
          rw [cloneEntries, cloneEntry]
          simp only [bind_run, pure_run]
          rw [hrun]
          simp only
          rw [hrun']

end DirectoryMerge
