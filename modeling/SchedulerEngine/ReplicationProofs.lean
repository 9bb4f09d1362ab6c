import Mathlib.Data.String.Basic
import SchedulerEngine.Base64Proofs
import SchedulerEngine.ExecutionProofs
import SchedulerEngine.NamedTreeProofs

/-! # The replication of configuration files

    A scheduler describes its copy of the configuration to its supervisor.  The
    supervisor walks through its directory and the description at once, and answers
    with what has to be removed and written; the scheduler does so, file by file, under
    a temporary name each. -/

namespace Replication

open Base64 (Bytes base64Encoded base64Decoded)
open Execution Execution.Exec NamedTree

/-- A path from the configuration directory on. -/
abbrev Path := List String

/-! ## The directories -/

/-- A file of the scheduler's copy. -/
structure File where
  lastWriteTime : Int
  content : Bytes
  deriving DecidableEq

/-- The copy. -/
abbrev Disk := Level String File Unit

/-- `Directory_entry` of the supervisor, a file or a directory as its `_file_info` says. -/
structure Entry where
  lastWriteTime : Int
  isAging : Bool
  deriving DecidableEq

abbrev Directory := Level String Entry Entry

/-! ## The description -/

/-- `position_of_extension_point` looks for the last point up to some place. -/
def lastPoint : List Char → Option Nat
  | [] => none
  | c :: text =>
      match lastPoint text with
      | some e => some (e + 1)
      | none => if c = '.' then some 0 else none

/-- `Folder::position_of_extension_point`: the last point but one. -/
def positionOfExtensionPoint (filename : List Char) : Nat :=
  match lastPoint filename with
  | none => filename.length
  | some e =>
      match lastPoint (filename.take e) with
      | none => filename.length
      | some e => e

/-- `Folder::object_name_of_filename` -/
def objectNameOfFilename (filename : String) : List Char :=
  filename.toList.take (positionOfExtensionPoint filename.toList)

section Server

variable {Digest : Type} [DecidableEq Digest]

/-- A `configuration.file` element of the description. -/
structure FileInfo (Digest : Type) where
  lastWriteTime : Int
  md5 : Digest

abbrev Description (Digest : Type) := Level String (FileInfo Digest) Unit

/-- `write_directory_structure` -/
def writeDirectoryStructure (md5 : Bytes → Digest) : Disk → Description Digest
  | .nil => .nil
  | .leaf name f rest =>
      if objectNameOfFilename name = [] then writeDirectoryStructure md5 rest
      else .leaf name ⟨f.lastWriteTime, md5 f.content⟩ (writeDirectoryStructure md5 rest)
  | .node name _ below rest =>
      .node name () (writeDirectoryStructure md5 below) (writeDirectoryStructure md5 rest)

/-! ## The answer -/

/-- A `configuration.file` element of the answer. -/
inductive FileElement where
  | removed
  | content (lastWriteTime : Int) (encoding : String) (text : Bytes)
  deriving DecidableEq

/-- A `configuration.directory` element is removed or not. -/
abbrev Answer := Level String FileElement Bool

/-- `Xml_file_info`: its time and its sum.  A directory is described without a time, which
    is read as 0, and without a sum, whose bytes are 0. -/
def infoTime : Item String (FileInfo Digest) Unit → Int
  | .leaf info => info.lastWriteTime
  | .node _ _ => 0

def infoMd5 (noMd5 : Digest) : Item String (FileInfo Digest) Unit → Digest
  | .leaf info => info.md5
  | .node _ _ => noMd5

/-- The elements in the element of a `Xml_file_info`. -/
def infoChildren : Item String (FileInfo Digest) Unit → Description Digest
  | .leaf _ => .nil
  | .node _ below => below

/-- The element that says that a file or directory is removed. -/
def removedElement : Item String (FileInfo Digest) Unit → Item String FileElement Bool
  | .leaf _ => .leaf .removed
  | .node _ _ => .node true .nil

/-- What stands under the same name in the description. -/
abbrev Reference (Digest : Type) := Option (Item String (FileInfo Digest) Unit)

/-- Whether `write_file_to_xml` is called. -/
def isWritten (e : Entry) (reference : Reference Digest) : Bool :=
  !e.isAging && reference.all fun x => e.lastWriteTime ≠ infoTime x

/-- `write_file_to_xml` of a file; what cannot be read is only logged. -/
def fileToXml (md5 : Bytes → Digest) (noMd5 : Digest) (read : Path → Except String Bytes)
    (path : Path) (e : Entry) (reference : Reference Digest) : Option (Item String FileElement Bool) :=
  match read path with
  | .error _ => none
  | .ok content =>
      if reference.all fun x => infoMd5 noMd5 x ≠ md5 content then
        some (.leaf (.content e.lastWriteTime "base64" (base64Encoded content)))
      else none

/-- The element for a name, if there is one, before the others. -/
def emit (name : String) : Option (Item String FileElement Bool) → Answer → Answer
  | none, answer => answer
  | some x, answer => .cons name x answer

/-- The loop of `write_updated_files_to_xml` until the entry at the iterator has been
    compared. -/
def compareEntry (name : String)
    (write : Reference Digest → Option (Item String FileElement Bool))
    (next : List (String × Item String (FileInfo Digest) Unit) → Answer) :
    List (String × Item String (FileInfo Digest) Unit) → Answer
  | [] => emit name (write none) (next [])
  | (k, x) :: infos =>
      if k = name then emit name (write (some x)) (next infos)
      else if name < k then emit name (write none) (next ((k, x) :: infos))
      else .cons k (removedElement x) (compareEntry name write next infos)

/-- What is only described is removed. -/
def removeRest : List (String × Item String (FileInfo Digest) Unit) → Answer
  | [] => .nil
  | (k, x) :: infos => .cons k (removedElement x) (removeRest infos)

/-- `write_updated_files_to_xml`, with the description in the order of the names, and
    `write_file_to_xml` of a directory. -/
def writeUpdatedFilesToXml (md5 : Bytes → Digest) (noMd5 : Digest)
    (read : Path → Except String Bytes) :
    Path → Directory → List (String × Item String (FileInfo Digest) Unit) → Answer
  | _, .nil, infos => removeRest infos
  | path, .leaf name e rest, infos =>
      compareEntry name
        (fun reference =>
          if isWritten e reference then fileToXml md5 noMd5 read (path ++ [name]) e reference
          else none)
        (fun infos => writeUpdatedFilesToXml md5 noMd5 read path rest infos) infos
  | path, .node name e below rest, infos =>
      compareEntry name
        (fun reference =>
          if isWritten e reference then
            some (.node false (writeUpdatedFilesToXml md5 noMd5 read (path ++ [name]) below
              (reference.elim .nil infoChildren).ordered))
          else none)
        (fun infos => writeUpdatedFilesToXml md5 noMd5 read path rest infos) infos

/-- `Directory::withdraw_aging_deep` -/
def withdrawAgingDeep : Directory → Directory
  | .nil => .nil
  | .leaf name e rest => .leaf name { e with isAging := false } (withdrawAgingDeep rest)
  | .node name e below rest =>
      .node name { e with isAging := false } (withdrawAgingDeep below) (withdrawAgingDeep rest)

/-- `Remote_scheduler`, when its directories have been read: the directory for the scheduler,
    merged with the one for all, and what reading a file gives. -/
structure RemoteScheduler where
  directory : Directory
  repeatedReading : Bool
  read : Path → Except String Bytes

/-- At the first time no entry counts as aging. -/
def RemoteScheduler.offered (R : RemoteScheduler) : Directory :=
  if R.repeatedReading then R.directory else withdrawAgingDeep R.directory

/-- `fetch_updated_files`, from the directory on. -/
def fetchUpdatedFiles (md5 : Bytes → Digest) (noMd5 : Digest) (R : RemoteScheduler)
    (description : Description Digest) : Answer :=
  writeUpdatedFilesToXml md5 noMd5 R.read [] R.offered description.ordered

end Server

/-! ## The update -/

inductive Call where
  | openDirectory | unlink | rmdir | mkdir | openFile | write | utime | rename
  deriving DecidableEq

inductive Failure where
  | errno (call : Call) (path : Path) (code : String)
  | invalidBase64 (position : Nat)
  | invalidEncoding
  | noName
  deriving DecidableEq

/-- The operating system: a call may be refused, with an error code, and then a part of the
    content may have been written. -/
structure System where
  refuses : Call → Path → Option String
  written : Path → Bytes
  now : Int

abbrev Method := Exec Disk Failure

section Client

variable (S : System)

def call (c : Call) (path : Path) : Method Unit :=
  match S.refuses c path with
  | none => pure ()
  | some code => throw (.errno c path code)

/-- `File_path::unlink` -/
def unlink (path : Path) (name : String) : Method Unit := do
  call S .unlink (path ++ [name])
  let disk ← get
  match disk.find name with
  | some (.leaf _) => modify fun disk => disk.erase name
  | some (.node _ _) => throw (.errno .unlink (path ++ [name]) "EISDIR")
  | none => throw (.errno .unlink (path ++ [name]) "ENOENT")

/-- The loop of `remove_complete_directory`, from the last entry to the first one; and what
    is left. -/
def removeEntries : Path → Disk → Except Failure Unit × Disk
  | _, .nil => (.ok (), .nil)
  | path, .leaf name f rest =>
      match removeEntries path rest with
      | (.error x, rest) => (.error x, .leaf name f rest)
      | (.ok _, rest) =>
          match S.refuses .unlink (path ++ [name]) with
          | some code => (.error (.errno .unlink (path ++ [name]) code), .leaf name f rest)
          | none => (.ok (), rest)
  | path, .node name _ below rest =>
      match removeEntries path rest with
      | (.error x, rest) => (.error x, .node name () below rest)
      | (.ok _, rest) =>
          match S.refuses .openDirectory (path ++ [name]) with
          | some code => (.error (.errno .openDirectory (path ++ [name]) code), .node name () below rest)
          | none =>
              match removeEntries (path ++ [name]) below with
              | (.error x, below) => (.error x, .node name () below rest)
              | (.ok _, below) =>
                  match S.refuses .rmdir (path ++ [name]) with
                  | some code => (.error (.errno .rmdir (path ++ [name]) code), .node name () below rest)
                  | none => (.ok (), rest)

/-- Run a method on what is below a directory. -/
def inside (name : String) (below : Disk) (m : Method Unit) : Method Unit := fun disk =>
  let r := m below
  (r.1, disk.put name (.node () r.2))

/-- `File_path::remove_complete_directory` -/
def removeCompleteDirectory (path : Path) (name : String) : Method Unit := do
  call S .openDirectory (path ++ [name])
  let disk ← get
  match disk.find name with
  | some (.node _ below) =>
      inside name below (removeEntries S (path ++ [name]))
      call S .rmdir (path ++ [name])
      modify fun disk => disk.erase name
  | some (.leaf _) => throw (.errno .openDirectory (path ++ [name]) "ENOTDIR")
  | none => throw (.errno .openDirectory (path ++ [name]) "ENOENT")

/-- `mkdir`, where a name that is taken is no error. -/
def makeDirectory (path : Path) (name : String) : Method Unit := do
  let disk ← get
  if disk.find name = none then
    call S .mkdir (path ++ [name])
    modify fun disk => disk.put name (.node () .nil)

/-- The temporary name. -/
def temporary (name : String) : String := name ++ "~"

/-- A new file of the name is opened. -/
def openFile (path : Path) (name : String) : Method Unit := do
  call S .openFile (path ++ [name])
  let disk ← get
  match disk.find name with
  | some (.node _ _) => throw (.errno .openFile (path ++ [name]) "EISDIR")
  | _ => modify fun disk => disk.put name (.leaf ⟨S.now, []⟩)

/-- The open file gets its content. -/
def print (path : Path) (name : String) (content : Bytes) : Method Unit := do
  match S.refuses .write (path ++ [name]) with
  | none => modify fun disk => disk.put name (.leaf ⟨S.now, content⟩)
  | some code =>
      modify fun disk => disk.put name (.leaf ⟨S.now, S.written (path ++ [name])⟩)
      throw (.errno .write (path ++ [name]) code)

/-- `utime` -/
def setTime (path : Path) (name : String) (lastWriteTime : Int) (content : Bytes) :
    Method Unit := do
  call S .utime (path ++ [name])
  modify fun disk => disk.put name (.leaf ⟨lastWriteTime, content⟩)

/-- `File_path::move_to` of a file. -/
def moveTo (path : Path) (source destination : String) (f : File) : Method Unit := do
  call S .rename (path ++ [source])
  let disk ← get
  match disk.find destination with
  | some (.node _ _) => throw (.errno .rename (path ++ [source]) "EISDIR")
  | _ => modify fun disk => (disk.erase source).put destination (.leaf f)

/-- A `configuration.file` element with a content. -/
def receiveFile (path : Path) (name : String) (lastWriteTime : Int) (encoding : String)
    (text : Bytes) : Method Unit := do
  require (encoding = "base64") .invalidEncoding
  let content ← Exec.ofExcept ((base64Decoded text).mapError fun x => .invalidBase64 x.position)
  openFile S path (temporary name)
  print S path (temporary name) content
  setTime S path (temporary name) lastWriteTime content
  moveTo S path (temporary name) name ⟨lastWriteTime, content⟩

/-- Where the name of a directory is that of a file, nothing can be done below. -/
def enter (path : Path) (name : String) (elements : Answer) (m : Method Unit) : Method Unit := do
  let disk ← get
  match disk.find name with
  | some (.node _ below) => inside name below m
  | _ =>
      match elements with
      | .nil => pure ()
      | _ => throw (.errno .openFile (path ++ [name]) "ENOTDIR")

/-- `update_directory_structure` -/
def updateDirectoryStructure : Path → Answer → Method Unit
  | _, .nil => pure ()
  | path, .leaf name .removed rest => do
      unlink S path name
      updateDirectoryStructure path rest
  | path, .leaf name (.content lastWriteTime encoding text) rest => do
      receiveFile S path name lastWriteTime encoding text
      updateDirectoryStructure path rest
  | path, .node name true _ rest => do
      require (name ≠ "") .noName
      removeCompleteDirectory S path name
      updateDirectoryStructure path rest
  | path, .node name false below rest => do
      makeDirectory S path name
      enter path name below (updateDirectoryStructure (path ++ [name]) below)
      updateDirectoryStructure path rest

end Client

/-! ## An exchange -/

/-- A request, and its answer. -/
def answerTo {Digest : Type} [DecidableEq Digest] (md5 : Bytes → Digest) (noMd5 : Digest)
    (R : RemoteScheduler) (disk : Disk) : Answer :=
  fetchUpdatedFiles md5 noMd5 R (writeDirectoryStructure md5 disk)

/-- A request, its answer and the update. -/
def exchange {Digest : Type} [DecidableEq Digest] (md5 : Bytes → Digest) (noMd5 : Digest)
    (S : System) (R : RemoteScheduler) : Method Unit := fun disk =>
  updateDirectoryStructure S [] (answerTo md5 noMd5 R disk) disk

/-! ## What is found in an answer -/

section Answer

variable {Digest : Type}

/-- The description of a level, in the order of its names. -/
abbrev Infos (Digest : Type) := List (String × Item String (FileInfo Digest) Unit)

def Increasing (infos : Infos Digest) : Prop := infos.Pairwise fun x y => x.1 < y.1

variable {name : String} {infos : Infos Digest}
  {write : Reference Digest → Option (Item String FileElement Bool)}
  {next : Infos Digest → Answer}
  {F : String → Reference Digest → Option (Item String FileElement Bool)}

theorem find_emit {n : String} {x : Option (Item String FileElement Bool)} {answer : Answer} :
    (emit name x answer).find n = if name = n then x.or (answer.find n) else answer.find n := by
  cases x with
  | none => simp [emit]
  | some x => rw [emit, find_cons]; rfl

theorem lookup_of_le {k n : String} {x : Item String (FileInfo Digest) Unit}
    (h : Increasing ((k, x) :: infos)) (hn : n ≤ k) : infos.lookup n = none :=
  List.lookup_eq_none_iff.mpr fun z hz => by
    have hlt := lt_of_le_of_lt hn ((List.pairwise_cons.mp h).1 z hz)
    simpa using hlt.ne

/-- The loop up to one entry.  `F` says what the rest of the loop finds under other names. -/
theorem find_compareEntry (hinfos : Increasing infos)
    (hnext : ∀ infos, Increasing infos → ∀ n, (next infos).find n = F n (infos.lookup n))
    (hname : F name none = none)
    (hlow : ∀ k reference, k < name → F k reference = reference.map removedElement) (n : String) :
    (compareEntry name write next infos).find n
      = if n = name then write (infos.lookup n) else F n (infos.lookup n) := by
  induction infos with
  | nil =>
      rw [compareEntry, find_emit, hnext [] hinfos, List.lookup_nil]
      by_cases h : n = name
      · rw [if_pos h, if_pos h.symm, h, hname, Option.or_none]
      · rw [if_neg h, if_neg (Ne.symm h)]
  | cons y infos ih =>
      obtain ⟨k, x⟩ := y
      have hrest : Increasing infos := (List.pairwise_cons.mp hinfos).2
      rw [compareEntry]
      by_cases hkn : k = name
      · subst hkn
        rw [if_pos rfl, find_emit, hnext infos hrest]
        by_cases h : n = k
        · rw [if_pos h, if_pos h.symm, h, lookup_of_le hinfos le_rfl, hname, Option.or_none,
            List.lookup_cons_self]
        · rw [if_neg h, if_neg (Ne.symm h), List.lookup_cons, beq_eq_false_iff_ne.mpr h]
      · rw [if_neg hkn]
        by_cases hlt : name < k
        · rw [if_pos hlt, find_emit, hnext _ hinfos]
          have hno : List.lookup name ((k, x) :: infos) = none := by
            rw [List.lookup_cons, beq_eq_false_iff_ne.mpr hlt.ne, lookup_of_le hinfos hlt.le]
          by_cases h : n = name
          · rw [if_pos h, if_pos h.symm, h, hno, hname, Option.or_none]
          · rw [if_neg h, if_neg (Ne.symm h)]
        · have hlow' : k < name := lt_of_le_of_ne (not_lt.mp hlt) hkn
          rw [if_neg hlt, find_cons, ih hrest]
          by_cases h : k = n
          · subst h
            rw [if_pos rfl, if_neg hkn, List.lookup_cons_self, hlow k _ hlow', Option.map_some]
          · rw [if_neg h, List.lookup_cons, beq_eq_false_iff_ne.mpr (Ne.symm h)]

theorem find_removeRest (n : String) :
    (removeRest infos).find n = (infos.lookup n).map removedElement := by
  induction infos with
  | nil => rfl
  | cons y infos ih =>
      obtain ⟨k, x⟩ := y
      rw [removeRest, find_cons, ih]
      by_cases h : k = n
      · rw [if_pos h, h, List.lookup_cons_self, Option.map_some]
      · rw [if_neg h, List.lookup_cons, beq_eq_false_iff_ne.mpr (Ne.symm h)]

/-- An element that removes. -/
def IsRemoval : Item String FileElement Bool → Prop
  | .leaf .removed => True
  | .node true _ => True
  | _ => False

theorem isRemoval_removedElement (x : Item String (FileInfo Digest) Unit) :
    IsRemoval (removedElement x) := by
  cases x <;> trivial

theorem below_removedElement (x : Item String (FileInfo Digest) Unit) {F : Answer → Prop}
    (h : F .nil) : (removedElement x).Below F := by
  cases x with
  | leaf info => trivial
  | node b below => exact h

/-- What holds of the elements that are written and of removals holds of all elements. -/
theorem all_compareEntry {P : String → Item String FileElement Bool → Prop}
    (hremoved : ∀ n x, IsRemoval x → P n x)
    (hwrite : ∀ reference x, write reference = some x → P name x ∧ x.Below (Level.All P))
    (hnext : ∀ infos, (next infos).All P) : (compareEntry name write next infos).All P := by
  have hemit : ∀ reference infos, (emit name (write reference) (next infos)).All P := by
    intro reference infos
    cases hw : write reference with
    | none => exact hnext infos
    | some x =>
        obtain ⟨h1, h2⟩ := hwrite reference x hw
        exact all_cons.mpr ⟨h1, h2, hnext infos⟩
  induction infos with
  | nil => exact hemit none []
  | cons y infos ih =>
      obtain ⟨k, x⟩ := y
      rw [compareEntry]
      split
      · exact hemit _ _
      · split
        · exact hemit _ _
        · exact all_cons.mpr ⟨hremoved k _ (isRemoval_removedElement x),
            below_removedElement x trivial, ih⟩

theorem all_removeRest {P : String → Item String FileElement Bool → Prop}
    (hremoved : ∀ n x, IsRemoval x → P n x) : (removeRest infos).All P := by
  induction infos with
  | nil => trivial
  | cons y infos ih =>
      exact all_cons.mpr ⟨hremoved _ _ (isRemoval_removedElement y.2),
        below_removedElement y.2 trivial, ih⟩

/-- The description of a level whose levels below are without double names. -/
structure Described (infos : Infos Digest) : Prop where
  increasing : Increasing infos
  below : ∀ y ∈ infos, y.2.Below Level.Distinct

theorem Described.tail {y : String × Item String (FileInfo Digest) Unit}
    (h : Described (y :: infos)) : Described infos :=
  ⟨(List.pairwise_cons.mp h.increasing).2, fun z hz => h.below z (List.mem_cons_of_mem _ hz)⟩

theorem described_ordered {description : Description Digest} (h : description.Distinct) :
    Described description.ordered := by
  refine ⟨pairwise_ordered h, fun y hy => ?_⟩
  exact h.find (n := y.1) (by
    rw [← lookup_ordered h]
    exact lookup_of_mem (pairwise_ordered h) hy)

theorem distinct_compareEntry (hinfos : Described infos)
    (hnext : ∀ infos, Increasing infos → ∀ n, (next infos).find n = F n (infos.lookup n))
    (hname : F name none = none)
    (hlow : ∀ k reference, k < name → F k reference = reference.map removedElement)
    (hwrite : ∀ reference : Reference Digest, (∀ y, reference = some y → y.Below Level.Distinct) →
      ∀ x, write reference = some x → x.Below Level.Distinct)
    (hdistinct : ∀ infos, Described infos → (next infos).Distinct) :
    (compareEntry name write next infos).Distinct := by
  have hemit : ∀ (reference : Reference Digest) infos,
      (∀ y, reference = some y → y.Below Level.Distinct) → Described infos →
      infos.lookup name = none → (emit name (write reference) (next infos)).Distinct := by
    intro reference infos hr h hno
    cases hw : write reference with
    | none => exact hdistinct infos h
    | some x =>
        refine distinct_cons.mpr
          ⟨find_eq_none_iff.mp ?_, hwrite reference hr x hw, hdistinct infos h⟩
        rw [hnext infos h.increasing, hno, hname]
  induction infos with
  | nil => exact hemit none [] (fun y hy => by cases hy) hinfos rfl
  | cons y infos ih =>
      obtain ⟨k, x⟩ := y
      rw [compareEntry]
      by_cases hkn : k = name
      · -- the entry and its description meet
        rw [if_pos hkn]
        refine hemit _ _ (fun y hy => ?_) hinfos.tail (lookup_of_le hinfos.increasing hkn.ge)
        cases hy
        exact hinfos.below _ List.mem_cons_self
      · rw [if_neg hkn]
        by_cases hlt : name < k
        · rw [if_pos hlt]
          refine hemit _ _ (fun y hy => by cases hy) hinfos ?_
          rw [List.lookup_cons, beq_eq_false_iff_ne.mpr hlt.ne,
            lookup_of_le hinfos.increasing hlt.le]
        · -- a description without an entry, which no later entry can be
          have hlow' : k < name := lt_of_le_of_ne (not_lt.mp hlt) hkn
          rw [if_neg hlt]
          refine distinct_cons.mpr
            ⟨find_eq_none_iff.mp ?_, below_removedElement x trivial, ih hinfos.tail⟩
          rw [find_compareEntry hinfos.tail.increasing hnext hname hlow, if_neg hkn,
            lookup_of_le hinfos.increasing le_rfl, hlow k _ hlow']
          rfl

theorem distinct_removeRest (h : Increasing infos) : (removeRest infos).Distinct := by
  induction infos with
  | nil => trivial
  | cons y infos ih =>
      obtain ⟨k, x⟩ := y
      refine distinct_cons.mpr ⟨find_eq_none_iff.mp ?_, below_removedElement x trivial,
        ih (List.pairwise_cons.mp h).2⟩
      rw [find_removeRest, lookup_of_le h le_rfl]
      rfl

/-! ## The description of a copy -/

variable {md5 : Bytes → Digest}

/-- The description of what stands under a name. -/
def describedItem (md5 : Bytes → Digest) (n : String) : Item String File Unit → Reference Digest
  | .leaf f => if objectNameOfFilename n = [] then none else some (.leaf ⟨f.lastWriteTime, md5 f.content⟩)
  | .node _ below => some (.node () (writeDirectoryStructure md5 below))

theorem names_writeDirectoryStructure {disk : Disk} {n : String}
    (h : n ∈ (writeDirectoryStructure md5 disk).names) : n ∈ disk.names := by
  induction disk with
  | nil => exact h
  | leaf name f rest ih =>
      rw [writeDirectoryStructure] at h
      split at h
      · exact List.mem_cons_of_mem _ (ih h)
      · rcases List.mem_cons.mp h with rfl | h
        · exact List.mem_cons_self
        · exact List.mem_cons_of_mem _ (ih h)
  | node name b below rest _ ih =>
      rcases List.mem_cons.mp h with rfl | h
      · exact List.mem_cons_self
      · exact List.mem_cons_of_mem _ (ih h)

theorem distinct_writeDirectoryStructure {disk : Disk} (h : disk.Distinct) :
    (writeDirectoryStructure md5 disk).Distinct := by
  induction disk with
  | nil => trivial
  | leaf name f rest ih =>
      rw [writeDirectoryStructure]
      split
      · exact ih h.2
      · exact ⟨fun hn => h.1 (names_writeDirectoryStructure hn), ih h.2⟩
  | node name b below rest ihb ih =>
      exact ⟨fun hn => h.1 (names_writeDirectoryStructure hn), ihb h.2.1, ih h.2.2⟩

theorem find_writeDirectoryStructure {disk : Disk} (h : disk.Distinct) (n : String) :
    (writeDirectoryStructure md5 disk).find n = (disk.find n).bind (describedItem md5 n) := by
  induction disk with
  | nil => rfl
  | leaf name f rest ih =>
      rw [writeDirectoryStructure, Level.find]
      by_cases hn : name = n
      · subst hn
        rw [if_pos rfl, Option.bind_some, describedItem]
        split
        · exact find_eq_none_iff.mpr fun hm => h.1 (names_writeDirectoryStructure hm)
        · rw [Level.find, if_pos rfl]
      · rw [if_neg hn, ← ih h.2]
        split
        · rfl
        · rw [Level.find, if_neg hn]
  | node name b below rest _ ih =>
      rw [writeDirectoryStructure, Level.find, Level.find]
      by_cases hn : name = n
      · rw [if_pos hn, if_pos hn]
        rfl
      · rw [if_neg hn, if_neg hn, ih h.2.2]

/-! ## The whole answer -/

variable [DecidableEq Digest] {noMd5 : Digest} {read : Path → Except String Bytes}
  {path : Path} {d : Directory}

/-- What the answer has for a name: from the entry and the description. -/
def element (md5 : Bytes → Digest) (noMd5 : Digest) (read : Path → Except String Bytes)
    (path : Path) (name : String) :
    Option (Item String Entry Entry) → Reference Digest → Option (Item String FileElement Bool)
  | none, reference => reference.map removedElement
  | some (.leaf e), reference =>
      if isWritten e reference then fileToXml md5 noMd5 read (path ++ [name]) e reference else none
  | some (.node e below), reference =>
      if isWritten e reference then
        some (.node false (writeUpdatedFilesToXml md5 noMd5 read (path ++ [name]) below
          (reference.elim .nil infoChildren).ordered))
      else none

/-- A name without an entry. -/
theorem element_of_notMem {n : String} (h : n ∉ d.names) (reference : Reference Digest) :
    element md5 noMd5 read path n (d.find n) reference = reference.map removedElement := by
  rw [find_eq_none_iff.mpr h]
  rfl

/-- The walk through both lists finds for each name what its entry and its description call
    for. -/
theorem find_writeUpdatedFilesToXml (hd : d.Sorted) (hinfos : Increasing infos) (n : String) :
    (writeUpdatedFilesToXml md5 noMd5 read path d infos).find n
      = element md5 noMd5 read path n (d.find n) (infos.lookup n) := by
  induction d generalizing infos n with
  | nil =>
      rw [writeUpdatedFilesToXml, find_removeRest]
      rfl
  | leaf name e rest ih =>
      rw [writeUpdatedFilesToXml,
        find_compareEntry hinfos (fun infos h m => ih hd.2 h m)
          (element_of_notMem (fun hm => lt_irrefl _ (hd.1 name hm)) none)
          (fun k x hk => element_of_notMem (fun hm => lt_asymm hk (hd.1 k hm)) x), Level.find]
      by_cases h : n = name
      · rw [if_pos h, if_pos h.symm, h]
        rfl
      · rw [if_neg h, if_neg (Ne.symm h)]
  | node name e below rest _ ih =>
      rw [writeUpdatedFilesToXml,
        find_compareEntry hinfos (fun infos h m => ih hd.2.2 h m)
          (element_of_notMem (fun hm => lt_irrefl _ (hd.1 name hm)) none)
          (fun k x hk => element_of_notMem (fun hm => lt_asymm hk (hd.1 k hm)) x), Level.find]
      by_cases h : n = name
      · rw [if_pos h, if_pos h.symm, h]
        rfl
      · rw [if_neg h, if_neg (Ne.symm h)]

theorem below_fileToXml {e : Entry} {reference : Reference Digest}
    {x : Item String FileElement Bool} (F : Answer → Prop)
    (h : fileToXml md5 noMd5 read path e reference = some x) : x.Below F := by
  rw [fileToXml] at h
  split at h
  · cases h
  · split at h
    · cases h
      trivial
    · cases h

/-- The names that are written are names of entries. -/
theorem all_writeUpdatedFilesToXml {Q : String → Prop} (hd : d.All fun n _ => Q n) :
    (writeUpdatedFilesToXml md5 noMd5 read path d infos).All fun n x => IsRemoval x ∨ Q n := by
  induction d generalizing path infos with
  | nil => exact all_removeRest fun _ _ h => Or.inl h
  | leaf name e rest ih =>
      refine all_compareEntry (fun _ _ h => Or.inl h) (fun reference x h => ?_) fun infos => ih hd.2
      split at h
      · exact ⟨Or.inr hd.1, below_fileToXml _ h⟩
      · cases h
  | node name e below rest ihb ih =>
      refine all_compareEntry (fun _ _ h => Or.inl h) (fun reference x h => ?_) fun infos => ih hd.2.2
      split at h
      · cases h
        exact ⟨Or.inr hd.1, ihb hd.2.1⟩
      · cases h

/-- No name stands twice in a level of the answer. -/
theorem distinct_writeUpdatedFilesToXml (hd : d.Sorted) (hinfos : Described infos) :
    (writeUpdatedFilesToXml md5 noMd5 read path d infos).Distinct := by
  induction d generalizing path infos with
  | nil => exact distinct_removeRest hinfos.increasing
  | leaf name e rest ih =>
      refine distinct_compareEntry hinfos
        (fun infos h m => find_writeUpdatedFilesToXml hd.2 h m)
        (element_of_notMem (fun hm => lt_irrefl _ (hd.1 name hm)) none)
        (fun k x hk => element_of_notMem (fun hm => lt_asymm hk (hd.1 k hm)) x)
        (fun reference _ x h => ?_) fun infos h => ih hd.2 h
      split at h
      · exact below_fileToXml _ h
      · cases h
  | node name e below rest ihb ih =>
      refine distinct_compareEntry hinfos
        (fun infos h m => find_writeUpdatedFilesToXml hd.2.2 h m)
        (element_of_notMem (fun hm => lt_irrefl _ (hd.1 name hm)) none)
        (fun k x hk => element_of_notMem (fun hm => lt_asymm hk (hd.1 k hm)) x)
        (fun reference hr x h => ?_) fun infos h => ih hd.2.2 h
      split at h
      · cases h
        refine ihb hd.2.1 (described_ordered ?_)
        cases hreference : reference with
        | none => trivial
        | some y =>
            have hy := hr y hreference
            cases y with
            | leaf info => trivial
            | node b children => exact hy
      · cases h

/-- What the answer has for a name, from the directory and the copy. -/
theorem find_answer {disk : Disk} (hd : d.Sorted) (h : disk.Distinct) (n : String) :
    (writeUpdatedFilesToXml md5 noMd5 read path d (writeDirectoryStructure md5 disk).ordered).find n
      = element md5 noMd5 read path n (d.find n) ((disk.find n).bind (describedItem md5 n)) := by
  have hdesc : (writeDirectoryStructure md5 disk).Distinct := distinct_writeDirectoryStructure h
  rw [find_writeUpdatedFilesToXml hd (pairwise_ordered hdesc), lookup_ordered hdesc,
    find_writeDirectoryStructure h]

end Answer

end Replication
