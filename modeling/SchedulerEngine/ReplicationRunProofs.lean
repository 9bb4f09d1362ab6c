import SchedulerEngine.ReplicationExchangeProofs
import SchedulerEngine.ReplicationProgressProofs

/-! # A copy over many exchanges

    The copy starts empty and goes through exchanges, each with its own directory and its
    own refusals.  Whatever has happened before, an exchange that ends normally makes the copy
    the directory's; and if nothing is refused any more, one will end normally. -/

namespace Replication

open Base64 (Bytes base64Encoded base64Decoded base64Decoded_encoded)
open Execution Execution.Exec NamedTree

variable {Digest : Type} [DecidableEq Digest] {md5 : Bytes → Digest} {noMd5 : Digest}
  {read : Path → Except String Bytes} {S : System} {path : Path} {n : String}

/-! ## The directory that is offered -/

section Offered

variable {d : Directory}

/-- An entry whose age does not count. -/
def withdrawn : Item String Entry Entry → Item String Entry Entry
  | .leaf e => .leaf { e with isAging := false }
  | .node e below => .node { e with isAging := false } (withdrawAgingDeep below)

theorem withdrawAgingDeep_cons (x : Item String Entry Entry) :
    withdrawAgingDeep (.cons n x d) = .cons n (withdrawn x) (withdrawAgingDeep d) := by
  cases x <;> rfl

theorem find_withdrawAgingDeep :
    (withdrawAgingDeep d).find n = (d.find n).map withdrawn := by
  induction d using cons_induction with
  | nil => rfl
  | cons k x d ih =>
      rw [withdrawAgingDeep_cons, find_cons, find_cons, ih]
      split <;> rfl

theorem names_withdrawAgingDeep : (withdrawAgingDeep d).names = d.names := by
  induction d using cons_induction with
  | nil => rfl
  | cons k x d ih => rw [withdrawAgingDeep_cons, names_cons, names_cons, ih]

theorem sorted_withdrawAgingDeep (h : d.Sorted) : (withdrawAgingDeep d).Sorted := by
  induction d with
  | nil => trivial
  | leaf k e rest ih => exact ⟨by rw [names_withdrawAgingDeep]; exact h.1, ih h.2⟩
  | node k e below rest ihb ih =>
      exact ⟨by rw [names_withdrawAgingDeep]; exact h.1, ihb h.2.1, ih h.2.2⟩

theorem all_withdrawAgingDeep {Q : String → Prop} (h : d.All fun k _ => Q k) :
    (withdrawAgingDeep d).All fun k _ => Q k := by
  induction d with
  | nil => trivial
  | leaf k e rest ih => exact ⟨h.1, ih h.2⟩
  | node k e below rest ihb ih => exact ⟨h.1, ihb h.2.1, ih h.2.2⟩

theorem itemAt_withdrawAgingDeep (p : Path) :
    (withdrawAgingDeep d).itemAt p = (d.itemAt p).map withdrawn := by
  induction p generalizing d with
  | nil => rfl
  | cons n p ih =>
      cases p with
      | nil => exact find_withdrawAgingDeep
      | cons m p =>
          rw [itemAt_cons, itemAt_cons, find_withdrawAgingDeep]
          cases d.find n with
          | none => rfl
          | some x =>
              cases x with
              | leaf e => rfl
              | node e below => exact ih

end Offered

/-! ## Progress -/

/-- If nothing is refused, an exchange ends normally or leaves fewer files under temporary
    names. -/
theorem Alike.advanced {d : Directory} {disk : Disk} (hS : ∀ c path, S.refuses c path = none)
    (h : Alike d disk) :
    Advanced disk (updateDirectoryStructure S path (answerAt md5 noMd5 read path d disk) disk) := by
  induction d using level_induction generalizing path disk with
  | h d ih =>
      refine update_advances hS h.distinct h.distinct_answer h.all_answer
        ⟨le_rfl, fun n hn b below hf => ?_, fun n x hx => Or.inl ?_⟩
      · cases h.files.entry hf hn
      · rw [find_answerAt h.toProper] at hx
        cases x with
        | leaf a =>
            cases a with
            | removed =>
                rw [entry_of_removal hx trivial] at hx
                rcases removal_described hx with ⟨-, hf⟩ | ⟨hx', -⟩
                · exact hf
                · cases hx'
            | content lastWriteTime encoding text =>
                obtain ⟨e, content, hentry, -, -, -, rfl, rfl⟩ := entry_of_content hx
                exact ⟨rfl, ⟨content, base64Decoded_encoded content⟩, h.file_of_file hentry⟩
        | node removed elements =>
            cases removed with
            | true =>
                rw [entry_of_removal hx trivial] at hx
                rcases removal_described hx with ⟨hx', -⟩ | ⟨-, b, below, hf⟩
                · cases hx'
                · refine ⟨?_, b, below, hf⟩
                  rintro rfl
                  exact h.described.entry hf rfl
            | false =>
                obtain ⟨e, below, hentry, rfl⟩ := entry_of_directory hx
                refine ⟨h.directory_of_directory hentry, ?_⟩
                rw [children_described (h.directory_of_directory hentry)]
                exact ih n e below hentry (h.below hentry)

/-! ## Names -/

/-- A name that the supervisor looks at (`is_directory_to_observe`). -/
def IsObserved (n : String) : Prop := ∃ c text, n.toList = c :: text ∧ c ≠ '.'

theorem IsObserved.temporary (h : IsObserved n) : IsObserved (temporary n) := by
  obtain ⟨c, text, hn, hc⟩ := h
  refine ⟨c, text ++ ['~'], ?_, hc⟩
  rw [Replication.temporary, String.toList_append, hn]
  rfl

theorem lastPoint_getElem {text : List Char} {e : Nat} (h : lastPoint text = some e) :
    text[e]? = some '.' := by
  induction text generalizing e with
  | nil => cases h
  | cons c text ih =>
      rw [lastPoint] at h
      split at h
      · rename_i e' he
        cases h
        exact ih he
      · split at h
        · rename_i hc
          cases h
          rw [hc]
          rfl
        · cases h

/-- What is observed has an object name, so that it is described. -/
theorem IsObserved.described (h : IsObserved n) : objectNameOfFilename n ≠ [] := by
  obtain ⟨c, text, hn, hc⟩ := h
  rw [objectNameOfFilename, hn]
  intro hnil
  have hpos : positionOfExtensionPoint (c :: text) = 0 := by
    cases hp : positionOfExtensionPoint (c :: text) with
    | zero => rfl
    | succ k =>
        rw [hp] at hnil
        cases hnil
  rw [positionOfExtensionPoint] at hpos
  split at hpos
  · cases hpos
  · split at hpos
    · cases hpos
    · rename_i e he e' he'
      rw [hpos] at he'
      have hpoint := lastPoint_getElem he'
      rw [List.getElem?_take] at hpoint
      split at hpoint
      · exact hc (Option.some.inj hpoint)
      · cases hpoint

/-! ## A run -/

/-- What the supervisor serves over time: observed names in their order, none a temporary
    one; at each path either a file or a directory; and the content of a file is a matter of
    its path and time. -/
structure Serves (version : Path → Int → Bytes) (kind : Path → Bool) (R : RemoteScheduler) :
    Prop where
  sorted : R.directory.Sorted
  names : R.directory.All fun n _ => IsObserved n ∧ ¬IsTemporary n
  kinds : ∀ p x, R.directory.itemAt p = some x → isDirectory x = kind p
  contents : ∀ p e content, R.directory.itemAt p = some (.leaf e) → R.read p = .ok content →
    content = version p e.lastWriteTime

/-- The copies that exchanges can lead to from the empty one; each of their calls may be
    refused. -/
inductive Reached (md5 : Bytes → Digest) (noMd5 : Digest) (version : Path → Int → Bytes)
    (kind : Path → Bool) : Disk → Prop where
  | empty : Reached md5 noMd5 version kind .nil
  | exchanged {disk} (S : System) (R : RemoteScheduler) (hR : Serves version kind R)
      (h : Reached md5 noMd5 version kind disk) :
      Reached md5 noMd5 version kind (exchange md5 noMd5 S R disk).2

/-- The names of the copy: observed ones, and temporary ones are those of files. -/
def IsCopied (n : String) (directory : Bool) : Prop :=
  IsObserved n ∧ (IsTemporary n → directory = false)

/-- What every exchange keeps. -/
structure Copied (version : Path → Int → Bytes) (kind : Path → Bool) (disk : Disk) : Prop where
  kept : Kept IsCopied disk
  kinds : ∀ p x, (∀ n ∈ p, ¬IsTemporary n) → disk.itemAt p = some x → isDirectory x = kind p
  contents : ∀ p f, (∀ n ∈ p, ¬IsTemporary n) → disk.itemAt p = some (.leaf f) →
    f.content = version p f.lastWriteTime

/-! ## An example -/

/-- A supervisor with two files. -/
def twoFiles : RemoteScheduler where
  directory := .leaf "a" ⟨1, false⟩ (.leaf "b" ⟨2, false⟩ .nil)
  repeatedReading := true
  read := fun _ => .ok [7]

def permissive : System := ⟨fun _ _ => none, fun _ => [], 0⟩

/-- A system that leaves the first file under its temporary name. -/
def utimeRefused : System :=
  ⟨fun c _ => if c = .utime then some "EPERM" else none, fun _ => [], 0⟩

theorem serves_twoFiles : Serves (fun _ _ => [7]) (fun _ => false) twoFiles := by
  have hfiles : twoFiles.directory.All fun _ x => isDirectory x = false := ⟨rfl, rfl, trivial⟩
  refine ⟨⟨?_, ?_, trivial⟩, ⟨⟨?_, ?_⟩, ⟨?_, ?_⟩, trivial⟩, fun p x hx => ?_, fun p e content _ hread => ?_⟩
  · decide
  · exact fun k hk => by cases hk
  · exact ⟨'a', [], rfl, by decide⟩
  · decide
  · exact ⟨'b', [], rfl, by decide⟩
  · decide
  · obtain ⟨n, hn⟩ := hfiles.itemAt hx
    exact hn
  · cases hread
    rfl

theorem ready_twoFiles : Ready twoFiles.read [] twoFiles.offered :=
  ⟨⟨rfl, rfl, trivial⟩, fun _ _ _ => ⟨[7], rfl⟩⟩

/-! ## What every exchange keeps -/

section Run

variable {version : Path → Int → Bytes} {kind : Path → Bool} {R : RemoteScheduler} {disk : Disk}

theorem copied_nil : Copied version kind .nil := by
  have hnone (p : Path) : (.nil : Disk).itemAt p = none := by
    cases p with
    | nil => rfl
    | cons n p => exact itemAt_of_find_none rfl p
  refine ⟨kept_nil, fun p x _ hx => ?_, fun p f _ hf => ?_⟩
  · rw [hnone] at hx
    cases hx
  · rw [hnone] at hf
    cases hf

theorem Serves.offered (h : Serves version kind R) :
    R.offered.Sorted ∧ R.offered.All (fun n _ => IsObserved n ∧ ¬IsTemporary n) := by
  rw [RemoteScheduler.offered]
  split
  · exact ⟨h.sorted, h.names⟩
  · exact ⟨sorted_withdrawAgingDeep h.sorted, all_withdrawAgingDeep h.names⟩

/-- The entries that are offered are those of the directory, but for their age. -/
theorem itemAt_offered (p : Path) : R.offered.itemAt p = R.directory.itemAt p ∨
    R.offered.itemAt p = (R.directory.itemAt p).map withdrawn := by
  rw [RemoteScheduler.offered]
  split
  · exact Or.inl rfl
  · exact Or.inr (itemAt_withdrawAgingDeep p)

theorem Serves.proper (h : Serves version kind R) (hdisk : disk.Distinct) :
    Proper R.offered disk :=
  ⟨h.offered.1, h.offered.2.imp fun _ _ h => h.2, hdisk⟩

theorem Serves.kinds_offered (h : Serves version kind R) {p : Path} {x : Item String Entry Entry}
    (hx : R.offered.itemAt p = some x) : isDirectory x = kind p := by
  rcases itemAt_offered (R := R) p with heq | heq
  · exact h.kinds p x (heq.symm.trans hx)
  · obtain ⟨y, hy, rfl⟩ := Option.map_eq_some_iff.mp (heq.symm.trans hx)
    rw [← h.kinds p y hy]
    cases y <;> rfl

theorem Serves.contents_offered (h : Serves version kind R) {p : Path} {e : Entry}
    {content : Bytes} (hx : R.offered.itemAt p = some (.leaf e)) (hread : R.read p = .ok content) :
    content = version p e.lastWriteTime := by
  rcases itemAt_offered (R := R) p with heq | heq
  · exact h.contents p e content (heq.symm.trans hx) hread
  · obtain ⟨y, hy, hye⟩ := Option.map_eq_some_iff.mp (heq.symm.trans hx)
    cases y with
    | leaf e' =>
        cases hye
        exact h.contents p e' content hy hread
    | node e' below => cases hye

/-- An exchange, however it ends. -/
theorem Copied.exchanged (h : Copied version kind disk) (hR : Serves version kind R) :
    Copied version kind (exchange md5 noMd5 S R disk).2 := by
  have hexplained (p : Path) (hp : ∀ n ∈ p, ¬IsTemporary n) :
      Explained R.read p (disk.itemAt p) (R.offered.itemAt p)
        ((exchange md5 noMd5 S R disk).2.itemAt p) :=
    explained_update (hR.proper h.kept.distinct) p hp
  refine ⟨?_, fun p x hp hx => ?_, fun p f hp hf => ?_⟩
  · refine keeps_updateDirectoryStructure (fun n hn => ⟨hn.1.temporary, fun _ => rfl⟩) ?_ disk h.kept
    exact (all_writeUpdatedFilesToXml hR.offered.2).imp fun n x hx =>
      hx.imp id fun hn => ⟨hn.1, fun ht => absurd ht hn.2⟩
  · have hx' := hexplained p hp
    rw [hx] at hx'
    cases x with
    | leaf f =>
        rcases hx' with hold | ⟨e, hentry, -⟩
        · exact h.kinds p (.leaf f) hp hold
        · exact hR.kinds_offered hentry
    | node b below =>
        rcases hx' with ⟨b', below', hold⟩ | ⟨e, below', hentry⟩
        · exact h.kinds p (.node b' below') hp hold
        · exact hR.kinds_offered hentry
  · have hx' := hexplained p hp
    rw [hf] at hx'
    rcases hx' with hold | ⟨e, hentry, -, htime, hread⟩
    · exact h.contents p f hp hold
    · rw [hR.contents_offered hentry hread, htime]

theorem Reached.copied (h : Reached md5 noMd5 version kind disk) : Copied version kind disk := by
  induction h with
  | empty => exact copied_nil
  | exchanged S R hR h ih => exact ih.exchanged hR

theorem Copied.alike (h : Copied version kind disk) (hR : Serves version kind R) :
    Alike R.offered disk := by
  refine ⟨hR.proper h.kept.distinct, h.kept.names.imp fun _ _ hn => hn.1.described,
    h.kept.names.imp fun _ _ hn => hn.2, fun p x y hx hy => ?_⟩
  have hp : ∀ n ∈ p, ¬IsTemporary n := fun n hn =>
    (names_of_itemAt (Q := fun n => IsObserved n ∧ ¬IsTemporary n) hR.offered.2 hx n hn).2
  rw [hR.kinds_offered hx, h.kinds p y hp hy]

/-- The copy is the directory's: nothing stands where there is no entry, and a file has the
    sum of the version that the entry's time stands for. -/
def IsReplica (md5 : Bytes → Digest) (version : Path → Int → Bytes) (d : Directory)
    (disk : Disk) : Prop :=
  ∀ p, match d.itemAt p with
    | none => disk.itemAt p = none
    | some (.leaf e) => ∃ f, disk.itemAt p = some (.leaf f) ∧
        md5 f.content = md5 (version p e.lastWriteTime)
    | some (.node _ _) => ∃ below, disk.itemAt p = some (.node () below)

omit [DecidableEq Digest] in
theorem InStep.replica (h : InStep md5 R.read [] R.offered disk) (hdisk : Copied version kind disk)
    (hR : Serves version kind R) : IsReplica md5 version R.offered disk := by
  intro p
  have hsame : Same md5 R.read p (R.offered.itemAt p) (disk.itemAt p) := h p
  cases hx : R.offered.itemAt p with
  | none =>
      rw [hx] at hsame
      exact hsame.nothing
  | some x =>
      rw [hx] at hsame
      cases x with
      | leaf e =>
          obtain ⟨f, hf⟩ := hsame.leaf
          rw [hf] at hsame
          refine ⟨f, hf, ?_⟩
          have hp : ∀ n ∈ p, ¬IsTemporary n := fun n hn =>
            (names_of_itemAt (Q := fun n => IsObserved n ∧ ¬IsTemporary n) hR.offered.2 hx n hn).2
          rcases hsame with htime | ⟨content, hread, hmd5⟩
          · rw [hdisk.contents p f hp hf, htime]
          · rw [hmd5, hR.contents_offered hx hread]
      | node e below =>
          obtain ⟨b, below', hf⟩ := hsame.node
          exact ⟨below', hf⟩

theorem answerTo_eq {d : Directory} (hoffered : R.offered = d) (hread : R.read = read) :
    answerTo md5 noMd5 R disk = answerAt md5 noMd5 read [] d disk := by
  rw [answerTo, fetchUpdatedFiles, hoffered, hread]
  rfl

/-- An exchange, however it ends, leaves at every path, temporary names aside, what was there
    or what the supervisor has there. -/
theorem exchange_explained (h : Proper R.offered disk) {p : Path} (hp : ∀ n ∈ p, ¬IsTemporary n) :
    Explained R.read p (disk.itemAt p) (R.offered.itemAt p)
      ((exchange md5 noMd5 S R disk).2.itemAt p) :=
  explained_update h p hp

theorem exchange_explained_twoFiles :
    Explained twoFiles.read ["a"] (some (.leaf ⟨0, [1]⟩)) (some (.leaf ⟨1, false⟩))
      ((exchange (id : Bytes → Bytes) [] utimeRefused twoFiles
        (.leaf "a" ⟨0, [1]⟩ (.leaf "c" ⟨0, [2]⟩ .nil))).2.itemAt ["a"]) :=
  have hdisk : Level.Distinct (.leaf "a" ⟨0, [1]⟩ (.leaf "c" ⟨0, [2]⟩ .nil) : Disk) :=
    ⟨by decide, by decide, trivial⟩
  exchange_explained (serves_twoFiles.proper hdisk) (p := ["a"]) (by decide)

/-- The copy after some exchanges, one after the other. -/
def after (md5 : Bytes → Digest) (noMd5 : Digest) (S : Nat → System) (R : Nat → RemoteScheduler)
    (disk : Disk) : Nat → Disk
  | 0 => disk
  | k + 1 => (exchange md5 noMd5 (S k) (R k) (after md5 noMd5 S R disk k)).2

end Run

/-! ## A name that changes its kind -/

/-- Where a file has been replaced by a directory with a file, or a directory by a file. -/
def HasChanged (md5 : Bytes → Digest) (noMd5 : Digest) (read : Path → Except String Bytes)
    (n : String) : Item String Entry Entry → Item String File Unit → Prop
  | .node e below, .leaf f => e.isAging = false ∧ e.lastWriteTime ≠ f.lastWriteTime ∧
      ∃ k e' content, below.find k = some (.leaf e') ∧ e'.isAging = false ∧
        read [n, k] = .ok content
  | .leaf e, .node _ _ => e.isAging = false ∧ e.lastWriteTime ≠ 0 ∧
      ∃ content, read [n] = .ok content ∧ md5 content ≠ noMd5
  | _, _ => False

/-- Every exchange fails, and what stands under the name stays. -/
theorem stuck_exchange {R : RemoteScheduler} {disk : Disk} {x : Item String Entry Entry}
    {y : Item String File Unit} (h : Proper R.offered disk) (hn : ¬IsTemporary n)
    (hdescribed : objectNameOfFilename n ≠ []) (hx : R.offered.find n = some x)
    (hy : disk.find n = some y) (hchanged : HasChanged md5 noMd5 R.read n x y) :
    (exchange md5 noMd5 S R disk).1 ≠ .ok () ∧
      (exchange md5 noMd5 S R disk).2.find n = some y := by
  have hout := (h.levelled S md5 noMd5 R.read []).outcome n hn
  rw [find_answerAt h, hx, hy] at hout
  change Outcome S [] n ((exchange md5 noMd5 S R disk).1 = .ok ()) _ _
    ((exchange md5 noMd5 S R disk).2.find n) at hout
  generalize (exchange md5 noMd5 S R disk).2.find n = new at hout ⊢
  generalize hel : element md5 noMd5 R.read [] n (some x) _ = el at hout
  -- the answer has an element of this name, so an update that kept it has failed
  have hkept : el ≠ none := by
    rintro rfl
    cases x with
    | leaf e =>
        cases y with
        | leaf f => exact hchanged
        | node b below =>
            obtain ⟨haging, htime, content, hread, hmd5⟩ := hchanged
            simp [element, describedItem, isWritten, haging, infoTime, htime, fileToXml, hread,
              infoMd5, Ne.symm hmd5] at hel
    | node e below =>
        cases y with
        | leaf f =>
            simp [element, describedItem, hdescribed, isWritten, hchanged.1, infoTime,
              hchanged.2.1] at hel
        | node b below' => exact hchanged
  cases hout with
  | kept hnone => exact ⟨fun hok => hkept (hnone hok), rfl⟩
  | unlinked => cases entry_of_removal hel trivial
  | removed => cases entry_of_removal hel trivial
  | pruned hok hp => cases entry_of_removal hel trivial
  | written hdec hold =>
      obtain ⟨e, content, he, -⟩ := entry_of_content hel
      cases he
      cases y with
      | leaf f => exact hchanged.elim
      | node b below => exact absurd rfl (hold b below)
  | entered hold hrun =>
      obtain ⟨e, below, he, -⟩ := entry_of_directory hel
      cases he
      cases y with
      | leaf f => exact absurd rfl (hold f)
      | node b below => exact hchanged.elim
  | blocked =>
      obtain ⟨e, below, he, hnil⟩ := entry_of_directory hel
      cases he
      -- the file below is in the answer
      obtain ⟨-, -, k, e', content, hk, haging, hread⟩ := hchanged
      rw [Option.bind_some, describedItem, if_neg hdescribed] at hnil
      change Level.nil = writeUpdatedFilesToXml md5 noMd5 R.read [n] _ [] at hnil
      have hfind : Level.nil.find k = _ := hnil ▸
        find_writeUpdatedFilesToXml (h.sorted.find hx) List.Pairwise.nil k
      rw [hk] at hfind
      simp [element, isWritten, haging, fileToXml, hread] at hfind

/-- A supervisor with a directory. -/
def oneDirectory : RemoteScheduler where
  directory := .node "a" ⟨5, false⟩ (.leaf "b" ⟨2, false⟩ .nil) .nil
  repeatedReading := true
  read := fun _ => .ok [7]

end Replication
