import SchedulerEngine.ReplicationUpdateProofs

/-! # What an exchange does to the copy

    The answer to a description, carried out on the copy that was described.  An exchange
    that is interrupted leaves each file as it was, or as the supervisor has it; an exchange
    that ends normally leaves the copy in step with the directory. -/

namespace Replication

open Base64 (Bytes base64Encoded base64Decoded base64Decoded_encoded)
open Execution Execution.Exec NamedTree

variable {Digest : Type} [DecidableEq Digest] {md5 : Bytes → Digest} {noMd5 : Digest}
  {read : Path → Except String Bytes} {S : System} {path : Path} {n : String}

/-! ## What an element says -/

section Element

variable {entry : Option (Item String Entry Entry)} {reference : Reference Digest}
  {x : Item String FileElement Bool}

theorem fileToXml_eq_some {e : Entry} (h : fileToXml md5 noMd5 read path e reference = some x) :
    ∃ content, read path = .ok content ∧
      x = .leaf (.content e.lastWriteTime "base64" (base64Encoded content)) := by
  rw [fileToXml] at h
  split at h
  · cases h
  · rename_i content hread
    split at h
    · cases h
      exact ⟨content, hread, rfl⟩
    · cases h

/-- A file that can be read is left out if its sum is known. -/
theorem fileToXml_eq_none {e : Entry} {content : Bytes} (hread : read path = .ok content)
    (h : fileToXml md5 noMd5 read path e reference = none) :
    ∃ x, reference = some x ∧ infoMd5 noMd5 x = md5 content := by
  rw [fileToXml, hread] at h
  cases reference with
  | none => cases h
  | some x =>
      refine ⟨x, rfl, ?_⟩
      by_contra hne
      simp [hne] at h

/-- Only what has no entry is removed. -/
theorem entry_of_removal (h : element md5 noMd5 read path n entry reference = some x)
    (hx : IsRemoval x) : entry = none := by
  cases entry with
  | none => rfl
  | some y =>
      cases y with
      | leaf e =>
          rw [element] at h
          split at h
          · obtain ⟨content, -, rfl⟩ := fileToXml_eq_some h
            exact hx.elim
          · cases h
      | node e below =>
          rw [element] at h
          split at h
          · cases h
            exact hx.elim
          · cases h

/-- What is removed was described. -/
theorem removal_described {old : Option (Item String File Unit)}
    (h : element md5 noMd5 read path n none (old.bind (describedItem md5 n)) = some x) :
    (x = .leaf .removed ∧ ∃ f, old = some (.leaf f)) ∨
      x = .node true .nil ∧ ∃ b below, old = some (.node b below) := by
  cases old with
  | none => cases h
  | some y =>
      cases y with
      | leaf f =>
          rw [Option.bind_some, describedItem] at h
          split at h
          · cases h
          · cases h
            exact Or.inl ⟨rfl, f, rfl⟩
      | node b below =>
          cases h
          exact Or.inr ⟨rfl, b, below, rfl⟩

/-- A content is that of the file, read when the answer was written. -/
theorem entry_of_content {lastWriteTime : Int} {encoding : String} {text : Bytes}
    (h : element md5 noMd5 read path n entry reference
      = some (.leaf (.content lastWriteTime encoding text))) :
    ∃ e content, entry = some (.leaf e) ∧ e.isAging = false ∧ read (path ++ [n]) = .ok content ∧
      lastWriteTime = e.lastWriteTime ∧ encoding = "base64" ∧ text = base64Encoded content := by
  cases entry with
  | none =>
      cases reference with
      | none => cases h
      | some y => cases y <;> cases h
  | some y =>
      cases y with
      | leaf e =>
          rw [element] at h
          split at h
          · rename_i hwritten
            obtain ⟨content, hread, hx⟩ := fileToXml_eq_some h
            cases hx
            refine ⟨e, content, rfl, ?_, hread, rfl, rfl, rfl⟩
            rw [isWritten, Bool.and_eq_true, Bool.not_eq_true'] at hwritten
            exact hwritten.1
          · cases h
      | node e below =>
          rw [element] at h
          split at h
          · cases h
          · cases h

/-- The elements of a directory. -/
theorem entry_of_directory {elements : Answer}
    (h : element md5 noMd5 read path n entry reference = some (.node false elements)) :
    ∃ e below, entry = some (.node e below) ∧
      elements = writeUpdatedFilesToXml md5 noMd5 read (path ++ [n]) below
        (reference.elim .nil infoChildren).ordered := by
  cases entry with
  | none =>
      cases reference with
      | none => cases h
      | some y => cases y <;> cases h
  | some y =>
      cases y with
      | leaf e =>
          rw [element] at h
          split at h
          · obtain ⟨content, -, hx⟩ := fileToXml_eq_some h
            cases hx
          · cases h
      | node e below =>
          rw [element] at h
          split at h
          · cases h
            exact ⟨e, below, rfl, rfl⟩
          · cases h

end Element

omit [DecidableEq Digest] in
/-- What is described below a name that is not that of a file. -/
theorem children_described {old : Option (Item String File Unit)}
    (hold : ∀ f, old ≠ some (.leaf f)) :
    (old.bind (describedItem md5 n)).elim .nil infoChildren
      = writeDirectoryStructure md5 (under old) := by
  cases old with
  | none => rfl
  | some x =>
      cases x with
      | leaf f => exact absurd rfl (hold f)
      | node b below => rfl

/-! ## A level -/

/-- The answer for a level. -/
def answerAt (md5 : Bytes → Digest) (noMd5 : Digest) (read : Path → Except String Bytes)
    (path : Path) (d : Directory) (disk : Disk) : Answer :=
  writeUpdatedFilesToXml md5 noMd5 read path d (writeDirectoryStructure md5 disk).ordered

section Proper

variable {d : Directory} {disk : Disk}

/-- What the supervisor is promised of its directory, and the scheduler of its copy. -/
structure Proper (d : Directory) (disk : Disk) : Prop where
  sorted : d.Sorted
  names : d.All fun n _ => ¬IsTemporary n
  distinct : disk.Distinct

theorem distinct_under (h : disk.Distinct) : (under (disk.find n)).Distinct := by
  cases hf : disk.find n with
  | none => exact True.intro
  | some x =>
      cases x with
      | leaf f => exact True.intro
      | node b below => exact h.find hf

theorem Proper.below {e : Entry} {below : Directory} (h : Proper d disk)
    (hf : d.find n = some (.node e below)) : Proper below (under (disk.find n)) :=
  ⟨h.sorted.find hf, h.names.find hf, distinct_under h.distinct⟩

theorem Proper.distinct_answer (h : Proper d disk) :
    (answerAt md5 noMd5 read path d disk).Distinct :=
  distinct_writeUpdatedFilesToXml h.sorted
    (described_ordered (distinct_writeDirectoryStructure h.distinct))

theorem Proper.all_answer (h : Proper d disk) :
    (answerAt md5 noMd5 read path d disk).All fun n x => IsRemoval x ∨ ¬IsTemporary n :=
  all_writeUpdatedFilesToXml h.names

theorem Proper.levelled (h : Proper d disk) (S : System) (md5 : Bytes → Digest) (noMd5 : Digest)
    (read : Path → Except String Bytes) (path : Path) :
    Levelled S path (answerAt md5 noMd5 read path d disk) disk
      (updateDirectoryStructure S path (answerAt md5 noMd5 read path d disk) disk) :=
  levelled_update h.distinct h.distinct_answer h.all_answer

theorem find_answerAt (h : Proper d disk) (n : String) :
    (answerAt md5 noMd5 read path d disk).find n
      = element md5 noMd5 read path n (d.find n) ((disk.find n).bind (describedItem md5 n)) :=
  find_answer h.sorted h.distinct n

end Proper

/-! ## Where everything comes from -/

/-- What stands at a path after an exchange is explained by what stood there and by the
    entry: the same file, or the file as read for the entry; a directory, if there was one or
    the entry is one; nothing, if nothing was there or there is no entry. -/
def Explained (read : Path → Except String Bytes) (path : Path)
    (old : Option (Item String File Unit)) (entry : Option (Item String Entry Entry)) :
    Option (Item String File Unit) → Prop
  | none => old = none ∨ entry = none
  | some (.leaf f) => old = some (.leaf f) ∨ ∃ e, entry = some (.leaf e) ∧ e.isAging = false ∧
      f.lastWriteTime = e.lastWriteTime ∧ read path = .ok f.content
  | some (.node _ _) => (∃ b below, old = some (.node b below)) ∨
      ∃ e below, entry = some (.node e below)

theorem explained_refl (old : Option (Item String File Unit))
    (entry : Option (Item String Entry Entry)) : Explained read path old entry old := by
  cases old with
  | none => exact Or.inl rfl
  | some x =>
      cases x with
      | leaf f => exact Or.inl rfl
      | node b below => exact Or.inl ⟨b, below, rfl⟩

/-- What is left of what had no entry. -/
theorem Pruned.explained {disk disk' : Disk} (h : Pruned disk disk') (p : Path) :
    Explained read path (disk.itemAt p) none (disk'.itemAt p) := by
  cases hx' : disk'.itemAt p with
  | none => exact Or.inr rfl
  | some x' =>
      obtain ⟨x, hx, hkin⟩ := h p x' hx'
      cases x' with
      | leaf f' =>
          cases x with
          | leaf f => exact Or.inl (hx.trans (congrArg (fun f => some (Item.leaf f)) hkin.symm))
          | node b below => exact hkin.elim
      | node b' below' =>
          cases x with
          | leaf f => exact hkin.elim
          | node b below => exact Or.inl ⟨b, below, hx⟩

theorem Outcome.explained {ok : Prop} {old new : Option (Item String File Unit)}
    {entry : Option (Item String Entry Entry)} {reference : Reference Digest}
    (h : Outcome S path n ok old (element md5 noMd5 read path n entry reference) new) :
    Explained read (path ++ [n]) old entry new := by
  generalize hel : element md5 noMd5 read path n entry reference = el at h
  cases h with
  | kept => exact explained_refl old entry
  | unlinked => exact Or.inr (entry_of_removal hel trivial)
  | removed => exact Or.inr (entry_of_removal hel trivial)
  | pruned hok hp => exact Or.inl ⟨_, _, rfl⟩
  | written hdec hold =>
      obtain ⟨e, content, rfl, haging, hread, rfl, -, rfl⟩ := entry_of_content hel
      rw [base64Decoded_encoded] at hdec
      cases hdec
      exact Or.inr ⟨e, rfl, haging, rfl, hread⟩
  | entered hold hrun =>
      obtain ⟨e, below, rfl, -⟩ := entry_of_directory hel
      exact Or.inr ⟨e, below, rfl⟩
  | blocked => exact Or.inl rfl

theorem itemAt_under {disk : Disk} (hold : ∀ f, disk.find n ≠ some (.leaf f)) (m : String)
    (p : Path) : disk.itemAt (n :: m :: p) = (under (disk.find n)).itemAt (m :: p) := by
  rw [itemAt_cons]
  cases hf : disk.find n with
  | none => cases p <;> rfl
  | some x =>
      cases x with
      | leaf f => exact absurd hf (hold f)
      | node b below => rfl

/-- Name by name along the path. -/
theorem explained_update {d : Directory} {disk : Disk} (h : Proper d disk) (p : Path)
    (hp : ∀ n ∈ p, ¬IsTemporary n) :
    Explained read (path ++ p) (disk.itemAt p) (d.itemAt p)
      ((updateDirectoryStructure S path (answerAt md5 noMd5 read path d disk) disk).2.itemAt p) := by
  induction p generalizing path d disk with
  | nil => exact Or.inl rfl
  | cons n p ih =>
      have hn : ¬IsTemporary n := hp n List.mem_cons_self
      have hout := (h.levelled S md5 noMd5 read path).outcome n hn
      rw [find_answerAt h] at hout
      cases p with
      | nil => exact hout.explained
      | cons m p =>
          generalize hdisk' : (updateDirectoryStructure S path
            (answerAt md5 noMd5 read path d disk) disk).2 = disk' at hout ⊢
          rw [itemAt_cons m p (t := disk'), itemAt_cons m p (t := d)]
          generalize hel : element md5 noMd5 read path n (d.find n)
            ((disk.find n).bind (describedItem md5 n)) = el at hout
          generalize hf : disk.find n = old at hout
          generalize disk'.find n = new at hout ⊢
          cases hout with
          | kept =>
              rw [← hf, ← itemAt_cons]
              exact explained_refl _ _
          | unlinked => exact Or.inr (by rw [entry_of_removal hel trivial])
          | removed => exact Or.inr (by rw [entry_of_removal hel trivial])
          | pruned hok hpruned =>
              -- what is left below of a directory that was to be removed
              rw [entry_of_removal hel trivial, itemAt_cons m p (t := disk), hf]
              exact hpruned.explained (m :: p)
          | written hdec hold =>
              -- nothing stands below a file, and no directory has made way for it
              refine Or.inl ?_
              rw [itemAt_cons, hf]
              cases old with
              | none => rfl
              | some x =>
                  cases x with
                  | leaf f => rfl
                  | node b below => exact absurd rfl (hold b below)
          | entered hold hrun =>
              obtain ⟨e, below, hentry, rfl⟩ := entry_of_directory hel
              subst hf
              rw [hentry, itemAt_under hold, children_described hold, List.append_cons]
              exact ih (h.below hentry) fun k hk => hp k (List.mem_cons_of_mem _ hk)
          | blocked =>
              refine Or.inl ?_
              rw [itemAt_cons, hf]

/-! ## An exchange that ends normally -/

/-- An entry that is not passed over: it has aged, and a directory has a time. -/
def IsSettled : Item String Entry Entry → Prop
  | .leaf e => e.isAging = false
  | .node e _ => e.isAging = false ∧ e.lastWriteTime ≠ 0

/-- A directory and a copy: the files of the copy are described, temporary names are those of
    files, and no name has changed from a file to a directory or back. -/
structure Alike (d : Directory) (disk : Disk) : Prop extends Proper d disk where
  described : disk.All fun n _ => objectNameOfFilename n ≠ []
  files : disk.All fun n x => IsTemporary n → isDirectory x = false
  agree : ∀ p x y, d.itemAt p = some x → disk.itemAt p = some y → isDirectory x = isDirectory y

/-- A directory that can be transferred as a whole: its entries have aged, and its files can
    be read. -/
structure Ready (read : Path → Except String Bytes) (path : Path) (d : Directory) : Prop where
  settled : d.All fun _ x => IsSettled x
  readable : ∀ p e, d.itemAt p = some (.leaf e) → ∃ content, read (path ++ p) = .ok content

/-- What stands at a path of the copy fits the entry. -/
def Same (md5 : Bytes → Digest) (read : Path → Except String Bytes) (path : Path) :
    Option (Item String Entry Entry) → Option (Item String File Unit) → Prop
  | none, none => True
  | some (.leaf e), some (.leaf f) => f.lastWriteTime = e.lastWriteTime ∨
      ∃ content, read path = .ok content ∧ md5 f.content = md5 content
  | some (.node _ _), some (.node _ _) => True
  | _, _ => False

section Same

omit [DecidableEq Digest]

theorem Same.leaf {e : Entry} {y : Option (Item String File Unit)}
    (h : Same md5 read path (some (.leaf e)) y) : ∃ f, y = some (.leaf f) := by
  cases y with
  | none => exact h.elim
  | some y =>
      cases y with
      | leaf f => exact ⟨f, rfl⟩
      | node b below => exact h.elim

theorem Same.node {e : Entry} {under : Directory} {y : Option (Item String File Unit)}
    (h : Same md5 read path (some (.node e under)) y) : ∃ b below, y = some (.node b below) := by
  cases y with
  | none => exact h.elim
  | some y =>
      cases y with
      | leaf f => exact h.elim
      | node b below => exact ⟨b, below, rfl⟩

theorem Same.nothing {y : Option (Item String File Unit)} (h : Same md5 read path none y) :
    y = none := by
  cases y with
  | none => rfl
  | some y => exact h.elim

end Same

/-- The copy is in step with the directory. -/
def InStep (md5 : Bytes → Digest) (read : Path → Except String Bytes) (path : Path)
    (d : Directory) (disk : Disk) : Prop :=
  ∀ p, Same md5 read (path ++ p) (d.itemAt p) (disk.itemAt p)

section Alike

variable {d children : Directory} {disk : Disk} {e : Entry}

omit [DecidableEq Digest] in
theorem described_ne_none (h : Alike d disk) {y : Item String File Unit}
    (hf : disk.find n = some y) : describedItem md5 n y ≠ none := by
  have hn : objectNameOfFilename n ≠ [] := h.described.entry hf
  cases y with
  | leaf f => simp [describedItem, hn]
  | node b below => simp [describedItem]

theorem Alike.directory_of_directory (h : Alike d disk) (hf : d.find n = some (.node e children))
    (f : File) : disk.find n ≠ some (.leaf f) := by
  intro hfile
  cases h.agree [n] _ _ hf hfile

theorem Alike.file_of_file (h : Alike d disk) (hf : d.find n = some (.leaf e)) (b : Unit)
    (below : Disk) : disk.find n ≠ some (.node b below) := by
  intro hdirectory
  cases h.agree [n] _ _ hf hdirectory

theorem Alike.below (h : Alike d disk) (hf : d.find n = some (.node e children)) :
    Alike children (under (disk.find n)) := by
  have hall {P : String → Item String File Unit → Prop} (hP : disk.All P) :
      (under (disk.find n)).All P := by
    cases hdisk : disk.find n with
    | none => exact True.intro
    | some y =>
        cases y with
        | leaf f => exact True.intro
        | node b below => exact hP.find hdisk
  refine ⟨h.toProper.below hf, hall h.described, hall h.files, fun p x y hx hy => ?_⟩
  cases p with
  | nil => cases hx
  | cons m p =>
      refine h.agree (n :: m :: p) x y ?_ ?_
      · rw [itemAt_of_find_node hf, hx]
      · rw [itemAt_under (h.directory_of_directory hf), hy]

theorem Ready.below (h : Ready read path d) (hf : d.find n = some (.node e children)) :
    Ready read (path ++ [n]) children := by
  refine ⟨h.settled.find hf, fun p e he => ?_⟩
  cases p with
  | nil => cases he
  | cons m p =>
      rw [← List.append_cons]
      refine h.readable (n :: m :: p) e ?_
      rw [itemAt_of_find_node hf, he]

end Alike

section Outcome

variable {ok : Prop} {old new : Option (Item String File Unit)} {e : Entry}

/-- What has no entry is gone. -/
theorem new_of_none (hold : ∀ y, old = some y → describedItem md5 n y ≠ none) (hok : ok)
    (hout : Outcome S path n ok old
      (element md5 noMd5 read path n none (old.bind (describedItem md5 n))) new) :
    new = none := by
  generalize hel : element md5 noMd5 read path n none _ = el at hout
  cases hout with
  | kept hnone =>
      rw [hnone hok] at hel
      cases old with
      | none => rfl
      | some y =>
          cases hy : describedItem md5 n y with
          | none => exact absurd hy (hold y rfl)
          | some x =>
              rw [Option.bind_some, hy] at hel
              cases hel
  | unlinked => rfl
  | removed => rfl
  | pruned hnot hp => exact absurd hok hnot
  | written hdec hold =>
      obtain ⟨e, -, he, -⟩ := entry_of_content hel
      cases he
  | entered hold hrun =>
      obtain ⟨e, below, he, -⟩ := entry_of_directory hel
      cases he
  | blocked =>
      obtain ⟨e, below, he, -⟩ := entry_of_directory hel
      cases he

/-- A file has the time of its entry, or its sum. -/
theorem new_of_leaf (haging : e.isAging = false) {content : Bytes}
    (hread : read (path ++ [n]) = .ok content) (hold : ∀ b below, old ≠ some (.node b below))
    (hok : ok) (hout : Outcome S path n ok old
      (element md5 noMd5 read path n (some (.leaf e)) (old.bind (describedItem md5 n))) new) :
    Same md5 read (path ++ [n]) (some (.leaf e)) new := by
  generalize hel : element md5 noMd5 read path n (some (.leaf e)) _ = el at hout
  cases hout with
  | kept hnone =>
      -- the answer has no such file: it has the time of its entry, or its sum
      rw [hnone hok, element] at hel
      cases hreference : old.bind (describedItem md5 n) with
      | none =>
          rw [hreference, if_pos (by simp [isWritten, haging])] at hel
          obtain ⟨x, hx, -⟩ := fileToXml_eq_none hread hel
          cases hx
      | some x =>
          obtain ⟨y, rfl, hy⟩ := Option.bind_eq_some_iff.mp hreference
          cases y with
          | node b below => exact absurd rfl (hold b below)
          | leaf f =>
              rw [describedItem] at hy
              split at hy
              · cases hy
              · cases hy
                rw [hreference] at hel
                by_cases htime : e.lastWriteTime = f.lastWriteTime
                · exact Or.inl htime.symm
                · rw [if_pos (by simp [isWritten, haging, infoTime, htime])] at hel
                  obtain ⟨x, hx, hmd5⟩ := fileToXml_eq_none hread hel
                  cases hx
                  exact Or.inr ⟨content, hread, hmd5⟩
  | unlinked => cases entry_of_removal hel trivial
  | removed => cases entry_of_removal hel trivial
  | pruned hnot hp => exact absurd hok hnot
  | written hdec hold =>
      obtain ⟨e, content, he, -, -, rfl, -⟩ := entry_of_content hel
      cases he
      exact Or.inl rfl
  | entered hold hrun =>
      obtain ⟨e, below, he, -⟩ := entry_of_directory hel
      cases he
  | blocked =>
      obtain ⟨e, below, he, -⟩ := entry_of_directory hel
      cases he

/-- A directory has been entered. -/
theorem new_of_node {below : Directory} (hsettled : IsSettled (.node e below))
    (hold : ∀ f, old ≠ some (.leaf f)) (hok : ok)
    (hout : Outcome S path n ok old
      (element md5 noMd5 read path n (some (.node e below)) (old.bind (describedItem md5 n))) new) :
    ∃ disk', updateDirectoryStructure S (path ++ [n])
        (answerAt md5 noMd5 read (path ++ [n]) below (under old)) (under old) = (.ok (), disk') ∧
      new = some (.node () disk') := by
  generalize hel : element md5 noMd5 read path n (some (.node e below)) _ = el at hout
  cases hout with
  | kept hnone =>
      -- a settled directory is always in the answer
      rw [hnone hok, element] at hel
      cases old with
      | none => simp [isWritten, hsettled.1] at hel
      | some y =>
          cases y with
          | leaf f => exact absurd rfl (hold f)
          | node b children =>
              simp [isWritten, hsettled.1, hsettled.2, describedItem, infoTime] at hel
  | unlinked => cases entry_of_removal hel trivial
  | removed => cases entry_of_removal hel trivial
  | pruned hnot hp => exact absurd hok hnot
  | written hdec hold =>
      obtain ⟨e, -, he, -⟩ := entry_of_content hel
      cases he
  | entered hold hrun =>
      obtain ⟨e, below, he, rfl⟩ := entry_of_directory hel
      cases he
      rw [children_described hold] at hrun ⊢
      exact ⟨_, Prod.ext (hrun hok) rfl, rfl⟩
  | blocked => exact absurd rfl (hold _)

end Outcome

/-- Temporary names are gone. -/
theorem Alike.gone {d : Directory} {disk disk' : Disk} (h : Alike d disk)
    (hrun : updateDirectoryStructure S path (answerAt md5 noMd5 read path d disk) disk
      = (.ok (), disk')) (hn : IsTemporary n) : d.find n = none ∧ disk'.find n = none := by
  have hlevel := h.levelled S md5 noMd5 read path
  rw [hrun] at hlevel
  have hnone : d.find n = none := by
    cases hf : d.find n with
    | none => rfl
    | some x => exact absurd hn (h.names.entry hf)
  refine ⟨hnone, hlevel.gone rfl n hn ?_⟩
  cases hdisk : disk.find n with
  | none => exact Or.inr rfl
  | some y =>
      refine Or.inl (mem_names_iff.mpr ?_)
      rw [find_answerAt h.toProper, hnone, hdisk, Option.bind_some]
      intro he
      exact described_ne_none h hdisk (Option.map_eq_none_iff.mp he)

/-- After an update that ends normally the copy is in step. -/
theorem Ready.inStep {d : Directory} {disk disk' : Disk} (h : Ready read path d)
    (halike : Alike d disk)
    (hrun : updateDirectoryStructure S path (answerAt md5 noMd5 read path d disk) disk
      = (.ok (), disk')) : InStep md5 read path d disk' := by
  intro p
  induction p generalizing path d disk disk' with
  | nil => trivial
  | cons n p ih =>
      by_cases hn : IsTemporary n
      · -- no entry has such a name
        obtain ⟨hd, hdisk'⟩ := halike.gone hrun hn
        rw [itemAt_of_find_none hd, itemAt_of_find_none hdisk']
        trivial
      · have hout := (halike.levelled S md5 noMd5 read path).outcome n hn
        rw [hrun, find_answerAt halike.toProper] at hout
        cases hf : d.find n with
        | none =>
            rw [hf] at hout
            rw [itemAt_of_find_none hf, itemAt_of_find_none
              (new_of_none (fun y hy => described_ne_none halike hy) rfl hout)]
            trivial
        | some x =>
            rw [hf] at hout
            cases x with
            | leaf e =>
                obtain ⟨content, hread⟩ := h.readable [n] e hf
                have hsame := new_of_leaf (h.settled.entry hf) hread (halike.file_of_file hf) rfl hout
                cases p with
                | nil =>
                    show Same md5 read (path ++ [n]) (d.find n) (disk'.find n)
                    rw [hf]
                    exact hsame
                | cons m p =>
                    obtain ⟨f, hf'⟩ := hsame.leaf
                    rw [itemAt_of_find_leaf hf, itemAt_of_find_leaf hf']
                    trivial
            | node e below =>
                obtain ⟨below', hbelow, hnew⟩ := new_of_node (h.settled.entry hf)
                  (halike.directory_of_directory hf) rfl hout
                cases p with
                | nil =>
                    show Same md5 read (path ++ [n]) (d.find n) (disk'.find n)
                    rw [hf, hnew]
                    trivial
                | cons m p =>
                    rw [itemAt_of_find_node hf, itemAt_of_find_node hnew, List.append_cons]
                    exact ih (h.below hf) (halike.below hf) hbelow

/-! ## The exchange after it -/

omit [DecidableEq Digest] in
theorem InStep.below {d : Directory} {disk : Disk} {e : Entry} {below : Directory} {b : Unit}
    {below' : Disk} (h : InStep md5 read path d disk) (hd : d.find n = some (.node e below))
    (hdisk : disk.find n = some (.node b below')) :
    InStep md5 read (path ++ [n]) below below' := by
  intro p
  cases p with
  | nil => trivial
  | cons m p =>
      have hsame := h (n :: m :: p)
      rw [itemAt_of_find_node hd, itemAt_of_find_node hdisk, List.append_cons] at hsame
      exact hsame

/-- A file that is in step is not in the answer. -/
theorem element_of_file {e : Entry} {f : File} (hn : objectNameOfFilename n ≠ [])
    (h : Same md5 read (path ++ [n]) (some (.leaf e)) (some (.leaf f))) :
    element md5 noMd5 read path n (some (.leaf e)) (describedItem md5 n (.leaf f)) = none := by
  rw [describedItem, if_neg hn, element]
  rcases h with htime | ⟨content, hread, hmd5⟩
  · rw [if_neg]
    simp [isWritten, infoTime, htime]
  · rw [fileToXml, hread]
    simp [infoMd5, hmd5]

/-- The answer to a copy in step has no file and removes nothing, and to carry it out
    changes nothing, whatever is refused. -/
theorem InStep.again {d : Directory} {disk : Disk} (h : Proper d disk)
    (hdescribed : disk.All fun n _ => objectNameOfFilename n ≠ [])
    (hin : InStep md5 read path d disk) :
    (answerAt md5 noMd5 read path d disk).All (fun _ x => ∃ elements, x = .node false elements) ∧
      updateDirectoryStructure S path (answerAt md5 noMd5 read path d disk) disk
        = (.ok (), disk) := by
  induction d using level_induction generalizing path disk with
  | h d ih =>
      have hfound : ∀ n x, (answerAt md5 noMd5 read path d disk).find n = some x →
          ∃ e below below', d.find n = some (.node e below) ∧ disk.find n = some (.node () below') ∧
            x = .node false (answerAt md5 noMd5 read (path ++ [n]) below below') := by
        intro n x hx
        have hsame : Same md5 read (path ++ [n]) (d.find n) (disk.find n) := hin [n]
        rw [find_answerAt h] at hx
        cases hd : d.find n with
        | none =>
            rw [hd] at hsame hx
            rw [hsame.nothing] at hx
            cases hx
        | some y =>
            rw [hd] at hsame hx
            cases y with
            | leaf e =>
                obtain ⟨f, hf⟩ := hsame.leaf
                rw [hf] at hsame hx
                rw [Option.bind_some, element_of_file (hdescribed.entry hf) hsame] at hx
                cases hx
            | node e below =>
                obtain ⟨b, below', hf⟩ := hsame.node
                rw [hf, Option.bind_some, describedItem, element] at hx
                split at hx
                · cases hx
                  exact ⟨e, below, below', rfl, hf, rfl⟩
                · cases hx
      have hbelow (n : String) (e : Entry) (below : Directory) (below' : Disk)
          (hd : d.find n = some (.node e below)) (hf : disk.find n = some (.node () below')) :
          (answerAt md5 noMd5 read (path ++ [n]) below below').All
              (fun _ x => ∃ elements, x = .node false elements) ∧
            updateDirectoryStructure S (path ++ [n])
              (answerAt md5 noMd5 read (path ++ [n]) below below') below' = (.ok (), below') :=
        ih n e below hd ⟨h.sorted.find hd, h.names.find hd, h.distinct.find hf⟩
          (hdescribed.find hf) (hin.below hd hf)
      constructor
      · refine all_of_find h.distinct_answer fun n x hx => ?_
        obtain ⟨e, below, below', hd, hf, rfl⟩ := hfound n x hx
        exact ⟨⟨_, rfl⟩, (hbelow n e below below' hd hf).1⟩
      · refine update_unchanged h.distinct_answer fun n x hx => ?_
        obtain ⟨e, below, below', hd, hf, rfl⟩ := hfound n x hx
        exact ⟨_, below', rfl, hf, (hbelow n e below below' hd hf).2⟩

end Replication
