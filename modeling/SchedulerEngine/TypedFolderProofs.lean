import SchedulerEngine.FileBasedProofs
import SchedulerEngine.OrderedMapProofs
import Mathlib.Data.List.Sort
import Mathlib.Data.String.Basic

/-! # Typed folders

    A `Typed_folder` holds the objects of one type, each made from a file of the
    configuration directory.  `adjust_with_directory` merges them with the entries of
    the directory; an object that cannot be removed or replaced at once waits, with its
    replacement, until it is handled as a candidate.

    The typed folder of subfolders has directories for entries and an
    `on_base_file_changed` of its own. -/

namespace TypedFolder

open FileBased (State)
open OrderedMap (find update updates Sorted)

/-! ## The data -/

/-- The typed folders of a folder that hold files. -/
inductive Kind where
  | lock
  | monitor
  | schedule
  | processClass
  | job
  | jobChain
  | standingOrder
  deriving DecidableEq

/-- What a `File_based` has from its file.  `_state` is followed until the object is in
    the folder: what `activate` makes of it there is not asked for here. -/
structure Version where
  name : String
  /-- `_base_file_info._filename != ""` -/
  hasBaseFile : Bool
  lastWriteTime : Int
  /-- `_configuration_origin == confdir_cache` -/
  isCentral : Bool
  state : State
  baseFileXc : Option String
  sourceXmlBytes : String
  forceFileReread : Bool
  deriving DecidableEq

/-- A `File_based` in the folder.  Its `_replacement` is not yet in the folder, and all
    that is known of it comes from its file. -/
structure Object where
  file : Version
  fileIsRemoved : Bool
  isToBeRemoved : Bool
  replacement : Option Version
  deriving DecidableEq

/-- `current_file_based`: what was read last. -/
def Object.current (o : Object) : Version := o.replacement.getD o.file

/-- What `string_from_file` throws. -/
inductive ReadError where
  /-- `ERRNO-2` -/
  | enoent
  | other (text : String)
  deriving DecidableEq

/-- A `Directory_entry` with what reading its file leads to. -/
structure Entry where
  name : String
  lastWriteTime : Int
  isAging : Bool
  isCentral : Bool
  reading : Except ReadError String

/-- The file has gone since the directory was read. -/
def Entry.isGone (e : Entry) : Bool :=
  match e.reading with
  | .error .enoent => true
  | _ => false

/-- How `initialize()` of a new object ends. -/
inductive Initializing where
  | throws (xc : String)
  | fails
  | succeeds
  deriving DecidableEq

/-- What the object, its subsystem and the file system answer in a call. -/
structure Answers where
  /-- `changed_included_file_info()` is not `NULL`. -/
  includeChanged : Bool
  /-- `_base_file_info._path.exists()` -/
  pathExists : Bool
  /-- What `changeObjectXmlBytes` or `set_xml_bytes` throws. -/
  setXmlBytes : Option String
  initializing : Initializing
  /-- The class's own part of `can_be_removed_now()`. -/
  removable : Bool
  /-- The class's own part of `can_be_replaced_now()`. -/
  replaceable : Bool
  /-- `try_delete_distributed()`, if the order is distributed. -/
  deletes : Bool

/-- `on_replace_now()` returns `this`: the object takes over the new configuration. -/
def Kind.takesOver : Kind → Bool
  | .lock | .schedule | .processClass => true
  | _ => false

/-- `prepare_to_replace()` is that of `File_based`. -/
def Kind.preparesRemoval : Kind → Bool
  | .monitor | .job | .standingOrder => true
  | _ => false

/-- A subsystem: the type of its objects and what it does with names and contents.
    Only job chains and standing orders normalize a name. -/
structure Subsystem where
  kind : Kind
  normalizedName : String → String
  /-- What `set_name` throws. -/
  nameError : String → Option String
  changeObjectXmlBytes : String → String → String
  normalizedName_eq : kind.takesOver = true → ∀ n, normalizedName n = n

/-- `_file_based_map` and `_replace_or_remove_candidates_set` -/
structure Folder where
  fileBasedMap : List (String × Object)
  candidates : List String
  deriving DecidableEq

/-! ## Removing and replacing -/

section Object

variable (k : Kind) (a : Answers)

/-- `can_be_removed_now` -/
def canBeRemovedNow (o : Object) : Bool :=
  match k with
  | .lock | .job | .jobChain => o.isToBeRemoved && a.removable
  | .monitor => true
  | .schedule | .processClass | .standingOrder => a.removable

def Object.replacementIsInitialized (o : Object) : Bool :=
  match o.replacement with
  | some v => v.state = .initialized
  | none => false

/-- `can_be_replaced_now` -/
def canBeReplacedNow (o : Object) : Bool :=
  match k with
  | .processClass => true
  | .schedule => o.replacementIsInitialized
  | .lock | .jobChain => o.replacementIsInitialized && a.replaceable
  | .monitor | .job | .standingOrder => o.replacementIsInitialized && canBeRemovedNow k a o

/-- `on_remove_now` -/
def onRemoveNow : Bool :=
  match k with
  | .standingOrder => a.deletes
  | _ => true

/-- `remove_now`.  The candidates are names, the path it erases there is none of them. -/
def removeNow (o : Object) : Option Object :=
  if onRemoveNow k a then none else some o

/-- `remove` -/
def remove (o : Object) : Option Object :=
  let o := { o with isToBeRemoved := true, replacement := none }
  if canBeRemovedNow k a o then removeNow k a o else some o

/-- `prepare_to_replace` -/
def prepareToReplace (o : Object) : Object :=
  if k.preparesRemoval then { o with isToBeRemoved := true } else o

/-- An object that has just been put into the folder. -/
def Object.new (v : Version) : Object := ⟨v, false, false, none⟩

/-- `on_replace_now` and the rest of `replace_now`, when `this` is returned. -/
def takeOver (v : Version) (o : Object) : Object :=
  { o with
    file := { o.file with
      hasBaseFile := v.hasBaseFile
      lastWriteTime := v.lastWriteTime
      sourceXmlBytes := v.sourceXmlBytes
      baseFileXc := none
      state := if o.file.state = .undefined then .notInitialized else o.file.state }
    replacement := none }

/-- `replace_now` with the replacement `v`; nothing when it returns `NULL`. -/
def replaceNow (v : Version) (o : Object) : Option Object :=
  match k with
  | .lock | .schedule | .processClass => some (takeOver v o)
  | .standingOrder => if a.deletes then some (Object.new v) else none
  | .monitor | .job | .jobChain => some (Object.new v)

/-- `set_replacement` -/
def setReplacement (v : Version) (o : Object) : Object :=
  { o with replacement := some v, isToBeRemoved := false }

/-- `initialize` of a replacement. -/
def Version.initializeAgain (v : Version) : Version :=
  if v.state = .notInitialized ∧ a.initializing = .succeeds then { v with state := .initialized }
  else v

/-- The one branch of `check_for_replacing_or_removing`, after the replacement is
    initialized; true makes the object a candidate. -/
def checkForReplacing (actNow : Bool) (v : Version) (o : Object) : Option Object × Bool :=
  if canBeReplacedNow k a o then
    if actNow then
      match replaceNow k a v o with
      | some o' => (some o', false)
      | none => (some o, true)
    else (some o, true)
  else (some o, false)

/-- The other branch. -/
def checkForRemoving (actNow : Bool) (o : Object) : Option Object × Bool :=
  if o.isToBeRemoved && canBeRemovedNow k a o then
    if actNow then
      match removeNow k a o with
      | none => (none, false)
      | some o' => (some o', true)
    else (some o, true)
  else (some o, false)

/-- `check_for_replacing_or_removing` -/
def checkForReplacingOrRemoving (actNow : Bool) (o : Object) : Option Object × Bool :=
  match o.replacement with
  | some v =>
      if v.state = .initialized then checkForReplacing k a actNow v o
      else
        let v := v.initializeAgain a
        let o := { o with replacement := some v }
        if v.state = .initialized then
          checkForReplacing k a actNow v (prepareToReplace k o)
        else (some o, false)
  | none => checkForRemoving k a actNow o

/-- What `handle_replace_or_remove_candidates` does with the object of a candidate. -/
def handleCandidate (o : Object) : Option Object :=
  match o.replacement with
  | some v =>
      if canBeReplacedNow k a o then some ((replaceNow k a v o).getD o)
      else if o.isToBeRemoved && canBeRemovedNow k a o then removeNow k a o
      else some o
  | none => if o.isToBeRemoved && canBeRemovedNow k a o then removeNow k a o else some o

end Object

/-! ## A changed file -/

section File

variable (S : Subsystem) (a : Answers) (e : Entry)

/-- The new object before anything of the file is in it. -/
def Entry.blank : Version :=
  ⟨e.name, true, e.lastWriteTime, e.isCentral, .undefined, none, "", false⟩

/-- The new object after the attempt to load it. -/
def load : Version :=
  match e.reading with
  | .error .enoent => e.blank
  | .error (.other xc) => { e.blank with baseFileXc := some xc }
  | .ok bytes =>
      match a.setXmlBytes with
      | some xc => { e.blank with baseFileXc := some xc }
      | none =>
          let v := { e.blank with
            state := .notInitialized
            sourceXmlBytes := S.changeObjectXmlBytes e.name bytes }
          match a.initializing with
          | .throws xc => { v with baseFileXc := some xc }
          | .fails => v
          | .succeeds => { v with state := .initialized }

/-- The new object `v` becomes the replacement, or replaces the object at once. -/
def replaceOrWait (v : Version) (o : Object) : Object :=
  let o := setReplacement v o
  if v.state = .initialized then
    let o := prepareToReplace S.kind o
    if canBeReplacedNow S.kind a o then (replaceNow S.kind a v o).getD o else o
  else o

/-- The file of an object is read again. -/
def reread (o : Object) : Option Object :=
  if e.isGone then remove S.kind a { o with fileIsRemoved := true }
  -- the new object, which has the error, is dropped
  else if (S.nameError e.name).isSome then some o
  -- SCHEDULER-460
  else if o.file.isCentral && !e.isCentral && a.pathExists then some o
  else some (replaceOrWait S a (load S a e) o)

/-- `file_is_different`, asked of what was read last. -/
def fileIsDifferent (v : Version) : Bool :=
  v.forceFileReread || v.lastWriteTime ≠ e.lastWriteTime || v.name ≠ e.name
    || a.includeChanged

/-- `get_and_clear_force_file_reread` -/
def Object.clearForceFileReread (o : Object) : Object :=
  match o.replacement with
  | some v => { o with replacement := some { v with forceFileReread := false } }
  | none => { o with file := { o.file with forceFileReread := false } }

/-- The file of an object is there. -/
def onFilePresent (o : Object) : Option Object :=
  let isNew := o.fileIsRemoved
  let o := { o with fileIsRemoved := false }
  if e.isAging then some o
  else if isNew then reread S a e o
  else if fileIsDifferent a e o.current then reread S a e o.clearForceFileReread
  else some o

/-- A file without an object. -/
def onFileAdded : Option Object :=
  if e.isAging || e.isGone || (S.nameError e.name).isSome then none
  else some (Object.new (load S a e))

/-- The file of an object is missing. -/
def onFileMissing (o : Object) : Option Object :=
  let o := { o with fileIsRemoved := true }
  if o.file.hasBaseFile && !o.isToBeRemoved then remove S.kind a o else some o

/-- `on_base_file_changed` -/
def onBaseFileChanged (e : Option Entry) (o : Option Object) : Option Object :=
  match e, o with
  | some e, some o => onFilePresent S a e o
  | some e, none => onFileAdded S a e
  | none, some o => onFileMissing S a o
  | none, none => none

end File

/-! ## The folder -/

section Folder

variable (S : Subsystem) (answers : String → Answers)

/-- `_normalized_name` -/
def Subsystem.key (e : Entry) : String := S.normalizedName e.name

/-- The merge of `adjust_with_directory`: entries and the names of objects, both in order. -/
def merge : List Entry → List String → List (String × Option Entry)
  | [], ns => ns.map fun n => (n, none)
  | e :: es, ns =>
      (ns.takeWhile fun n => n < S.key e).map (fun n => (n, none))
        ++ (S.key e, some e) :: merge es (ns.dropWhile fun n => n ≤ S.key e)

/-- `adjust_with_directory` -/
def adjustWithDirectory (es : List Entry) (f : Folder) : Folder :=
  let es := es.insertionSort fun d e => S.key d ≤ S.key e
  { f with
    fileBasedMap := (merge S es (f.fileBasedMap.map Prod.fst)).foldl
      (fun m c => update c.1 (onBaseFileChanged S (answers c.1) c.2) m) f.fileBasedMap }

/-- `check_for_replacing_or_removing` of the object under `n`. -/
def check (n : String) (actNow : Bool) (a : Answers) (f : Folder) : Folder :=
  match find n f.fileBasedMap with
  | none => f
  | some o =>
      let r := checkForReplacingOrRemoving S.kind a actNow o
      { fileBasedMap := update n (fun _ => r.1) f.fileBasedMap
        candidates := if r.2 then f.candidates.insert o.file.name else f.candidates }

/-- `handle_replace_or_remove_candidates` -/
def handleCandidates (f : Folder) : Folder :=
  { fileBasedMap := updates (fun n o => o.bind (handleCandidate S.kind (answers n)))
      (f.candidates.map S.normalizedName) f.fileBasedMap
    candidates := [] }

/-- `set_force_file_reread` of the object under `n`. -/
def setForceFileReread (n : String) (f : Folder) : Folder :=
  { f with
    fileBasedMap := update n
      (Option.map fun o => { o with file := { o.file with forceFileReread := true } })
      f.fileBasedMap }

end Folder

/-! ## What a call does under one name -/

section Named

variable {S : Subsystem} {answers : String → Answers} {es : List Entry} {ns : List String}
  {n : String} {x : Option Entry} {f : Folder}

/-- The keys differ, as `remove_duplicates_from_list` leaves them. -/
def Distinct (S : Subsystem) (es : List Entry) : Prop := (es.map S.key).Nodup

instance : Decidable (Distinct S es) := inferInstanceAs (Decidable (es.map S.key).Nodup)

/-- The entry of a name. -/
def entryOf (S : Subsystem) (n : String) (es : List Entry) : Option Entry :=
  es.find? fun e => S.key e = n

/-- The merge has the entry of each name, or none for an object without one. -/
theorem mem_merge (hes : es.Pairwise fun d e => S.key d < S.key e)
    (hns : ns.Pairwise (· < ·)) :
    (n, x) ∈ merge S es ns
      ↔ (∃ e ∈ es, S.key e = n ∧ x = some e)
        ∨ n ∈ ns ∧ (∀ e ∈ es, S.key e ≠ n) ∧ x = none := by
  induction es generalizing ns with
  | nil =>
      rw [merge, List.mem_map]
      constructor
      · rintro ⟨m, hm, heq⟩
        obtain ⟨rfl, rfl⟩ := Prod.mk.inj heq
        exact Or.inr ⟨hm, fun e he => absurd he List.not_mem_nil, rfl⟩
      · rintro (⟨e, he, _⟩ | ⟨hm, _, rfl⟩)
        · exact absurd he List.not_mem_nil
        · exact ⟨n, hm, rfl⟩
  | cons e es ih =>
      obtain ⟨he, hes⟩ := List.pairwise_cons.mp hes
      have hrest := hns.sublist (List.dropWhile_sublist fun m => decide (m ≤ S.key e))
      rw [merge, List.mem_append, List.mem_map, List.mem_cons, ih hes hrest]
      constructor
      · rintro (⟨m, hm, heq⟩ | heq | ⟨d, hd, hn, hx⟩ | ⟨hm, hne, hx⟩)
        · obtain ⟨rfl, rfl⟩ := Prod.mk.inj heq
          obtain ⟨hm, hlt⟩ := (OrderedMap.mem_takeWhile_lt hns).mp hm
          refine Or.inr ⟨hm, ?_, rfl⟩
          intro d hd
          rcases List.mem_cons.mp hd with rfl | hd
          · exact ne_of_gt hlt
          · exact ne_of_gt (lt_trans hlt (he d hd))
        · obtain ⟨hn, hx⟩ := Prod.mk.inj heq
          exact Or.inl ⟨e, List.mem_cons_self, hn.symm, hx⟩
        · exact Or.inl ⟨d, List.mem_cons_of_mem e hd, hn, hx⟩
        · obtain ⟨hm, hlt⟩ := (OrderedMap.mem_dropWhile_le hns).mp hm
          refine Or.inr ⟨hm, ?_, hx⟩
          intro d hd
          rcases List.mem_cons.mp hd with rfl | hd
          · exact ne_of_lt hlt
          · exact hne d hd
      · rintro (⟨d, hd, hn, hx⟩ | ⟨hm, hne, hx⟩)
        · rcases List.mem_cons.mp hd with rfl | hd
          · exact Or.inr (Or.inl (by rw [hn, hx]))
          · exact Or.inr (Or.inr (Or.inl ⟨d, hd, hn, hx⟩))
        · rcases lt_trichotomy n (S.key e) with hlt | heq | hlt
          · exact Or.inl ⟨n, (OrderedMap.mem_takeWhile_lt hns).mpr ⟨hm, hlt⟩, by rw [hx]⟩
          · exact absurd heq.symm (hne e List.mem_cons_self)
          · exact Or.inr (Or.inr (Or.inr
              ⟨(OrderedMap.mem_dropWhile_le hns).mpr ⟨hm, hlt⟩,
                fun d hd => hne d (List.mem_cons_of_mem e hd), hx⟩))

/-- The merge goes through the names in order. -/
theorem pairwise_merge (hes : es.Pairwise fun d e => S.key d < S.key e)
    (hns : ns.Pairwise (· < ·)) :
    ((merge S es ns).map Prod.fst).Pairwise (· < ·) := by
  induction es generalizing ns with
  | nil =>
      rw [merge, List.map_map]
      show (ns.map id).Pairwise (· < ·)
      rw [List.map_id]
      exact hns
  | cons e es ih =>
      obtain ⟨he, hes⟩ := List.pairwise_cons.mp hes
      have hrest := hns.sublist (List.dropWhile_sublist fun m => decide (m ≤ S.key e))
      have hfirst : ∀ m ∈ (ns.takeWhile fun m => m < S.key e), m < S.key e :=
        fun m hm => ((OrderedMap.mem_takeWhile_lt hns).mp hm).2
      have hlast : ∀ m ∈ (merge S es (ns.dropWhile fun m => m ≤ S.key e)).map Prod.fst,
          S.key e < m := by
        intro m hm
        obtain ⟨c, hc, rfl⟩ := List.mem_map.mp hm
        rcases (mem_merge hes hrest).mp hc with ⟨d, hd, hn, _⟩ | ⟨hm, _⟩
        · exact hn ▸ he d hd
        · exact ((OrderedMap.mem_dropWhile_le hns).mp hm).2
      rw [merge, List.map_append, List.map_map, List.map_cons]
      show ((ns.takeWhile fun m => m < S.key e).map id ++ _).Pairwise (· < ·)
      rw [List.map_id, List.pairwise_append]
      refine ⟨hns.sublist (List.takeWhile_sublist _), List.pairwise_cons.mpr ⟨hlast, ih hes hrest⟩,
        ?_⟩
      intro m hm d hd
      rcases List.mem_cons.mp hd with rfl | hd
      · exact hfirst m hm
      · exact lt_trans (hfirst m hm) (hlast d hd)

/-- The entries in the order of their keys. -/
theorem pairwise_insertionSort_key (h : Distinct S es) :
    (es.insertionSort fun d e => S.key d ≤ S.key e).Pairwise fun d e => S.key d < S.key e := by
  have htotal : Std.Total fun d e : Entry => S.key d ≤ S.key e :=
    ⟨fun d e => le_total (S.key d) (S.key e)⟩
  have htrans : IsTrans Entry fun d e => S.key d ≤ S.key e :=
    ⟨fun _ _ _ => le_trans⟩
  have hle := List.pairwise_insertionSort (fun d e : Entry => S.key d ≤ S.key e) es
  have hne : (es.insertionSort fun d e => S.key d ≤ S.key e).Pairwise
      fun d e => S.key d ≠ S.key e := by
    have hperm := (List.perm_insertionSort (fun d e : Entry => S.key d ≤ S.key e) es).map S.key
    exact List.pairwise_map.mp (hperm.nodup_iff.mpr h)
  exact (List.pairwise_and_iff.mpr ⟨hle, hne⟩).imp fun hde => lt_of_le_of_ne hde.1 hde.2

theorem entryOf_of_mem {e : Entry} (h : Distinct S es) (he : e ∈ es) :
    entryOf S (S.key e) es = some e := by
  cases hd : entryOf S (S.key e) es with
  | none =>
      exact absurd (decide_eq_true (rfl : S.key e = S.key e)) (List.find?_eq_none.mp hd e he)
  | some d =>
      have hkey : S.key d = S.key e :=
        of_decide_eq_true (List.find?_some (p := fun d => decide (S.key d = S.key e)) hd)
      rw [List.inj_on_of_nodup_map h (List.mem_of_find?_eq_some hd) he hkey]

theorem mem_of_entryOf {e : Entry} (h : entryOf S n es = some e) : e ∈ es ∧ S.key e = n :=
  ⟨List.mem_of_find?_eq_some h,
    of_decide_eq_true (List.find?_some (p := fun e => decide (S.key e = n)) h)⟩

theorem entryOf_eq_none (h : ∀ e ∈ es, S.key e ≠ n) : entryOf S n es = none :=
  List.find?_eq_none.mpr fun e he hd => h e he (of_decide_eq_true hd)

/-- Each object is adjusted once, with the entry of its name. -/
theorem find_adjust (hf : Sorted f.fileBasedMap) (hes : Distinct S es) (n : String) :
    find n (adjustWithDirectory S answers es f).fileBasedMap
      = onBaseFileChanged S (answers n) (entryOf S n es) (find n f.fileBasedMap) := by
  have hsorted := pairwise_insertionSort_key hes
  have hns : (f.fileBasedMap.map Prod.fst).Pairwise (· < ·) := List.pairwise_map.mpr hf
  generalize hds : (es.insertionSort fun d e => S.key d ≤ S.key e) = ds at hsorted
  have hmem : ∀ e, e ∈ ds ↔ e ∈ es := by
    intro e
    rw [← hds, List.mem_insertionSort]
  have hentry : ∀ c ∈ merge S ds (f.fileBasedMap.map Prod.fst), c.2 = entryOf S c.1 es := by
    intro c hc
    rcases (mem_merge hsorted hns).mp hc with ⟨e, he, hn, hx⟩ | ⟨_, hne, hx⟩
    · rw [hx, ← hn, entryOf_of_mem hes ((hmem e).mp he)]
    · rw [hx, entryOf_eq_none fun e he => hne e ((hmem e).mpr he)]
  have hupdates : (adjustWithDirectory S answers es f).fileBasedMap
      = updates (fun n => onBaseFileChanged S (answers n) (entryOf S n es))
          ((merge S ds (f.fileBasedMap.map Prod.fst)).map Prod.fst) f.fileBasedMap := by
    rw [updates, List.foldl_map, adjustWithDirectory, hds]
    refine List.foldl_ext _ _ _ ?_
    intro m c hc
    rw [hentry c hc]
  have hkeys := pairwise_merge hsorted hns
  rw [hupdates, OrderedMap.find_updates hf]
  by_cases hn : n ∈ (merge S ds (f.fileBasedMap.map Prod.fst)).map Prod.fst
  · rw [List.count_eq_one_of_mem (hkeys.imp ne_of_lt) hn]
    rfl
  · -- neither an object nor a file has the name
    have hnone : entryOf S n es = none := by
      refine entryOf_eq_none fun e he hkey => hn ?_
      exact List.mem_map.mpr ⟨(n, some e),
        (mem_merge hsorted hns).mpr (Or.inl ⟨e, (hmem e).mpr he, hkey, rfl⟩), rfl⟩
    have hobject : find n f.fileBasedMap = none := by
      cases ho : find n f.fileBasedMap with
      | none => rfl
      | some o =>
          refine absurd (List.mem_map.mpr ⟨(n, none), (mem_merge hsorted hns).mpr
            (Or.inr ⟨?_, ?_, rfl⟩), rfl⟩) hn
          · exact List.mem_map.mpr ⟨(n, o), OrderedMap.mem_of_find ho, rfl⟩
          · intro e he hkey
            have h := entryOf_of_mem hes ((hmem e).mp he)
            rw [hkey, hnone] at h
            cases h
    rw [List.count_eq_zero_of_not_mem hn, hnone, hobject]
    rfl

theorem sorted_adjust (hf : Sorted f.fileBasedMap) :
    Sorted (adjustWithDirectory S answers es f).fileBasedMap := by
  rw [adjustWithDirectory]
  generalize merge S _ _ = l
  show Sorted (l.foldl _ f.fileBasedMap)
  generalize f.fileBasedMap = m at hf
  induction l generalizing m with
  | nil => exact hf
  | cons c l ih => exact ih _ (hf.update _)

theorem find_check {a : Answers} {actNow : Bool} {m : String} (hf : Sorted f.fileBasedMap) :
    find n (check S m actNow a f).fileBasedMap
      = if n = m then
          (find m f.fileBasedMap).bind fun o => (checkForReplacingOrRemoving S.kind a actNow o).1
        else find n f.fileBasedMap := by
  rw [check]
  cases ho : find m f.fileBasedMap with
  | none =>
      by_cases hn : n = m
      · rw [if_pos hn, hn, ho]
        rfl
      · rw [if_neg hn]
  | some o =>
      show find n (update m (fun _ => (checkForReplacingOrRemoving S.kind a actNow o).1)
        f.fileBasedMap) = _
      rw [OrderedMap.find_update hf]
      rfl

theorem sorted_check {a : Answers} {actNow : Bool} {m : String} (hf : Sorted f.fileBasedMap) :
    Sorted (check S m actNow a f).fileBasedMap := by
  rw [check]
  cases find m f.fileBasedMap with
  | none => exact hf
  | some o => exact hf.update fun _ => (checkForReplacingOrRemoving S.kind a actNow o).1

/-- The object of a candidate is handled once for every name it was noted under. -/
theorem find_handle (hf : Sorted f.fileBasedMap) :
    find n (handleCandidates S answers f).fileBasedMap
      = (fun o : Option Object => o.bind (handleCandidate S.kind (answers n)))^[
          (f.candidates.map S.normalizedName).count n] (find n f.fileBasedMap) :=
  OrderedMap.find_updates hf n

theorem find_setForceFileReread {m : String} (hf : Sorted f.fileBasedMap) :
    find n (setForceFileReread m f).fileBasedMap
      = if n = m then
          (find m f.fileBasedMap).map fun o =>
            { o with file := { o.file with forceFileReread := true } }
        else find n f.fileBasedMap :=
  OrderedMap.find_update hf _ n

end Named

end TypedFolder
