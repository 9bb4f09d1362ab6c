import SchedulerEngine.ReplicationUpdateProofs

/-! # Files left under temporary names

    An update that was interrupted may leave a file under its temporary name.  The next
    answer has it removed, but the same answer may have the file itself written, which uses
    the temporary name up: then its removal fails.  If nothing is refused, that is the only
    failure, and it leaves fewer such files. -/

namespace Replication

open Base64 (Bytes base64Decoded)
open Execution Execution.Exec NamedTree

theorem isTemporary_iff {n : String} : IsTemporary n ↔ n.toList.getLast? = some '~' := by
  constructor
  · rintro ⟨k, rfl⟩
    simp [temporary]
  · intro h
    obtain ⟨l, hl⟩ := List.getLast?_eq_some_iff.mp h
    refine ⟨String.ofList l, ?_⟩
    rw [← String.toList_inj, hl]
    simp [temporary]

instance : DecidablePred IsTemporary := fun _ => decidable_of_iff _ isTemporary_iff.symm

/-- The number of files under temporary names. -/
def leftOver (disk : Disk) : Nat := disk.count IsTemporary

section System

variable {S : System} {path : Path} {name : String} {disk : Disk}
  (hS : ∀ c path, S.refuses c path = none)

/-- An update that leaves no more such files, and fewer if it fails. -/
def Advanced (disk : Disk) (r : Except Failure Unit × Disk) : Prop :=
  leftOver r.2 ≤ leftOver disk ∧ (r.1 = .ok () ∨ leftOver r.2 < leftOver disk)

/-- An element that fits what stands under its name. -/
def Fits (S : System) (path : Path) (n : String) (old : Option (Item String File Unit)) :
    Item String FileElement Bool → Prop
  | .leaf .removed => ∃ f, old = some (.leaf f)
  | .leaf (.content _ encoding text) => encoding = "base64" ∧
      (∃ content, base64Decoded text = .ok content) ∧ ∀ b below, old ≠ some (.node b below)
  | .node true _ => n ≠ "" ∧ ∃ b below, old = some (.node b below)
  | .node false elements => (∀ f, old ≠ some (.leaf f)) ∧
      Advanced (under old) (updateDirectoryStructure S (path ++ [n]) elements (under old))

/-- What one element does to its level if nothing is refused: what stands under another name
    stays, or it stood under a temporary name and is gone. -/
structure Advances (k : String) (disk : Disk) (r : Except Failure Unit × Disk) : Prop where
  advanced : Advanced disk r
  others : ∀ n, n ≠ k → r.2.find n = disk.find n ∨
    r.2.find n = none ∧ IsTemporary n ∧ leftOver r.2 < leftOver disk

include hS

theorem advances_unlink {f : File} (hf : disk.find name = some (.leaf f)) :
    Advances name disk (unlink S path name disk) := by
  have hrun : unlink S path name disk = (.ok (), disk.erase name) := by
    simp [unlink, call, hS, hf]
  rw [hrun]
  have hcount := count_erase (p := IsTemporary) (t := disk) (n := name)
  refine ⟨⟨?_, Or.inl rfl⟩, fun n hn => Or.inl (find_erase_of_ne (Ne.symm hn))⟩
  show (disk.erase name).count IsTemporary ≤ disk.count IsTemporary
  omega

theorem removeEntries_ok : removeEntries S path disk = (.ok (), .nil) := by
  induction disk generalizing path with
  | nil => rfl
  | leaf name f rest ih => rw [removeEntries, ih]; simp only [hS]
  | node name b below rest ihb ih => rw [removeEntries, ih]; simp only [hS, ihb]

theorem advances_remove {b : Unit} {below : Disk} (hname : name ≠ "")
    (hf : disk.find name = some (.node b below)) :
    Advances name disk ((do
      require (name ≠ "") Failure.noName
      removeCompleteDirectory S path name : Method Unit) disk) := by
  have hrun : (do
      require (name ≠ "") Failure.noName
      removeCompleteDirectory S path name : Method Unit) disk
        = (.ok (), (disk.put name (.node () .nil)).erase name) := by
    simp [removeCompleteDirectory, call, hS, hf, inside, removeEntries_ok hS, hname]
  rw [hrun]
  have hput := count_put (p := IsTemporary) (t := disk) (n := name) (x := .node () .nil)
  have herase := count_erase (p := IsTemporary) (t := disk.put name (.node () .nil)) (n := name)
  refine ⟨⟨?_, Or.inl rfl⟩, fun n hn => Or.inl ?_⟩
  · show ((disk.put name (.node () .nil)).erase name).count IsTemporary ≤ disk.count IsTemporary
    simp only [Item.count, Level.count] at hput
    omega
  · rw [find_erase_of_ne (Ne.symm hn), find_put_of_ne (Ne.symm hn)]

/-- A temporary name that was in use is used up. -/
theorem advances_receiveFile {lastWriteTime : Int} {text content : Bytes} (h : disk.Distinct)
    (hname : ¬IsTemporary name)
    (htemporary : ∀ b below, disk.find (temporary name) ≠ some (.node b below))
    (hdec : base64Decoded text = .ok content)
    (hold : ∀ b below, disk.find name ≠ some (.node b below)) :
    Advances name disk (receiveFile S path name lastWriteTime "base64" text disk) := by
  have hrun : receiveFile S path name lastWriteTime "base64" text disk = (.ok (),
      ((disk.put (temporary name) (.leaf ⟨lastWriteTime, content⟩)).erase (temporary name)).put
        name (.leaf ⟨lastWriteTime, content⟩)) := by
    simp only [receiveFile, openFile, print, setTime, moveTo, call, hS, hdec, Except.mapError,
      bind_run, require_run, ofExcept_run, decide_true, if_true, pure_run, get_run,
      modify_run, find_put_of_ne (temporary_ne name), put_put]
  rw [hrun]
  have hput := count_put (p := IsTemporary) (t := disk) (n := temporary name)
    (x := .leaf ⟨lastWriteTime, content⟩)
  have herase := count_erase (p := IsTemporary)
    (t := disk.put (temporary name) (.leaf ⟨lastWriteTime, content⟩)) (n := temporary name)
  have hmoved := count_put (p := IsTemporary)
    (t := (disk.put (temporary name) (.leaf ⟨lastWriteTime, content⟩)).erase (temporary name))
    (n := name) (x := .leaf ⟨lastWriteTime, content⟩)
  rw [find_put_self, Option.elim_some] at herase
  simp only [Item.count, if_pos (show IsTemporary (temporary name) from ⟨name, rfl⟩)] at hput herase
  simp only [Item.count, if_neg hname] at hmoved
  generalize hdisk' : ((disk.put (temporary name) (.leaf ⟨lastWriteTime, content⟩)).erase
    (temporary name)).put name (.leaf ⟨lastWriteTime, content⟩) = disk' at hmoved ⊢
  -- the file under the temporary name counts until it has been renamed
  have hle : disk'.count IsTemporary
      + (disk.find (temporary name)).elim 0 (Item.count IsTemporary (temporary name))
        ≤ disk.count IsTemporary := by
    omega
  refine ⟨⟨(Nat.le_add_right _ _).trans hle, Or.inl rfl⟩, fun n hn => ?_⟩
  show disk'.find n = disk.find n ∨ disk'.find n = none ∧ IsTemporary n ∧
    disk'.count IsTemporary < disk.count IsTemporary
  by_cases hused : temporary name = n
  · have hgone : disk'.find n = none := by
      rw [← hdisk', find_put_of_ne (Ne.symm hn), ← hused]
      exact find_erase_self (h.put trivial)
    cases hf : disk.find n with
    | none => exact Or.inl hgone
    | some x =>
        cases x with
        | node b below => exact absurd (hused ▸ hf) (htemporary b below)
        | leaf f =>
            refine Or.inr ⟨hgone, ⟨name, hused.symm⟩, ?_⟩
            rw [hused, hf, Option.elim_some, Item.count, if_pos ⟨name, hused.symm⟩] at hle
            omega
  · refine Or.inl ?_
    rw [← hdisk', find_put_of_ne (Ne.symm hn), find_erase_of_ne hused, find_put_of_ne hused]

/-- What is done below a directory. -/
theorem advances_directory {elements : Answer} (hold : ∀ f, disk.find name ≠ some (.leaf f))
    (hbelow : Advanced (under (disk.find name))
      (updateDirectoryStructure S (path ++ [name]) elements (under (disk.find name)))) :
    Advances name disk ((do
      makeDirectory S path name
      enter path name elements (updateDirectoryStructure S (path ++ [name]) elements)) disk) := by
  rw [run_directory hold fun _ => hS _ _]
  generalize updateDirectoryStructure S (path ++ [name]) elements (under (disk.find name)) = r
    at hbelow
  have hunder : (disk.find name).elim 0 (Item.count IsTemporary name)
      = leftOver (under (disk.find name)) := by
    cases hf : disk.find name with
    | none => rfl
    | some x =>
        cases x with
        | leaf f => exact absurd hf (hold f)
        | node b below => rfl
  have hput := count_put (p := IsTemporary) (t := disk) (n := name) (x := .node () r.2)
  rw [hunder, Item.count] at hput
  obtain ⟨hle, hok⟩ := hbelow
  simp only [leftOver] at hle hok hput
  refine ⟨⟨?_, hok.imp id fun hless => ?_⟩, fun n hn => Or.inl (find_put_of_ne (Ne.symm hn))⟩
  · show (disk.put name (.node () r.2)).count IsTemporary ≤ disk.count IsTemporary
    omega
  · show (disk.put name (.node () r.2)).count IsTemporary < disk.count IsTemporary
    omega

omit hS in
/-- What has a temporary name is a file, so an element that fits it removes it. -/
theorem removed_of_temporary {n : String} {y : Item String FileElement Bool}
    (hfit : Fits S path n (disk.find n) y) (hremoval : IsRemoval y)
    (hfile : ∀ b below, disk.find n ≠ some (.node b below)) : y = .leaf .removed := by
  cases y with
  | leaf a =>
      cases a with
      | removed => rfl
      | content lastWriteTime encoding text => exact hremoval.elim
  | node removed elements =>
      cases removed with
      | true =>
          obtain ⟨-, b, below, hf⟩ := hfit
          exact absurd hf (hfile b below)
      | false => exact hremoval.elim

/-- The update began with `bound` files under temporary names. -/
def Within (bound : Nat) (r : Except Failure Unit × Disk) : Prop :=
  leftOver r.2 ≤ bound ∧ (r.1 = .ok () ∨ leftOver r.2 < bound)

/-- The elements that are still to come fit the level.  A temporary name that has been used
    up need not be there to be removed: there are fewer now. -/
structure Suits (S : System) (path : Path) (bound : Nat) (answer : Answer) (disk : Disk) :
    Prop where
  bounded : leftOver disk ≤ bound
  files : ∀ n, IsTemporary n → ∀ b below, disk.find n ≠ some (.node b below)
  fits : ∀ n x, answer.find n = some x → Fits S path n (disk.find n) x ∨
    x = .leaf .removed ∧ disk.find n = none ∧ leftOver disk < bound

section Elements

variable {k : String} {x : Item String FileElement Bool} {rest : Answer} {bound : Nat}
  (hk : k ∉ rest.names) (hanswer : rest.All fun n x => IsRemoval x ∨ ¬IsTemporary n)
  (h : Suits S path bound (.cons k x rest) disk)

omit hS
include hk hanswer h

/-- After one element the others still fit. -/
theorem Suits.step {r : Except Failure Unit × Disk} (hstep : Advances k disk r)
    (hgone : IsTemporary k → r.2.find k = none) : Suits S path bound rest r.2 := by
  have hle : leftOver r.2 ≤ leftOver disk := hstep.advanced.1
  refine ⟨hle.trans h.bounded, fun n htemporary b below hf => ?_, fun n y hy => ?_⟩
  · by_cases hn : n = k
    · rw [hn, hgone (hn ▸ htemporary)] at hf
      cases hf
    · rcases hstep.others n hn with hsame | ⟨hnone, -, -⟩
      · exact h.files n htemporary b below (hsame.symm.trans hf)
      · rw [hnone] at hf
        cases hf
  · have hn : n ≠ k := by
      rintro rfl
      exact hk (mem_names_of_find hy)
    have hfit := h.fits n y (by rw [find_cons, if_neg (Ne.symm hn)]; exact hy)
    rcases hstep.others n hn with hsame | ⟨hnone, htemporary, hless⟩
    · rw [hsame]
      exact hfit.imp id fun ⟨h1, h2, h3⟩ => ⟨h1, h2, lt_of_le_of_lt hle h3⟩
    · -- the element of this name comes too late, but it is a removal
      refine Or.inr ⟨?_, hnone, lt_of_lt_of_le hless h.bounded⟩
      rcases hfit with hfit | ⟨hy', -, -⟩
      · exact removed_of_temporary hfit
          ((hanswer.entry hy).resolve_right fun h => h htemporary) (h.files n htemporary)
      · exact hy'

/-- One element after the other. -/
theorem advance_cons {m : Method Unit} (hstep : Advances k disk (m disk))
    (hgone : (m disk).1 = .ok () → IsTemporary k → (m disk).2.find k = none)
    (hrest : Suits S path bound rest (m disk).2 →
      Within bound (updateDirectoryStructure S path rest (m disk).2)) :
    Within bound ((do m; updateDirectoryStructure S path rest) disk) := by
  rw [bind_run]
  have hsuits := Suits.step hk hanswer h hstep
  obtain ⟨hle, hok⟩ := hstep.advanced
  rcases hr : m disk with ⟨r, disk'⟩
  rw [hr] at hle hok hgone hrest hsuits
  cases r with
  | error e =>
      have hless : leftOver disk' < leftOver disk := hok.resolve_left fun h => by cases h
      exact ⟨hle.trans h.bounded, Or.inr (lt_of_lt_of_le hless h.bounded)⟩
  | ok u => exact hrest (hsuits (hgone rfl))

end Elements

/-- If nothing is refused, an update whose elements fit ends normally or leaves fewer files
    under temporary names. -/
theorem update_advances {answer : Answer} {bound : Nat} (h : disk.Distinct) (ha : answer.Distinct)
    (hanswer : answer.All fun n x => IsRemoval x ∨ ¬IsTemporary n)
    (hsuits : Suits S path bound answer disk) :
    Within bound (updateDirectoryStructure S path answer disk) := by
  induction answer generalizing disk with
  | nil => exact ⟨hsuits.bounded, Or.inl rfl⟩
  | leaf name a rest ih =>
      have hname : IsTemporary name → IsRemoval (.leaf a) := fun hn =>
        hanswer.1.resolve_right fun h => h hn
      have hfit := hsuits.fits name (.leaf a) (by rw [Level.find, if_pos rfl])
      cases a with
      | removed =>
          rw [updateDirectoryStructure]
          rcases hfit with ⟨f, hf⟩ | ⟨-, hnone, hless⟩
          · exact advance_cons (x := .leaf .removed) ha.1 hanswer.2 hsuits (advances_unlink hS hf)
              (fun hok hn => (stepped_unlink h).gone hok hname name hn (Or.inl rfl))
              (ih (distinct_of_keeps keeps_unlink h) ha.2 hanswer.2)
          · -- the temporary name has been used up
            have hrun : unlink S path name disk
                = (.error (.errno .unlink (path ++ [name]) "ENOENT"), disk) := by
              simp [unlink, call, hS, hnone]
            rw [bind_run, hrun]
            exact ⟨hsuits.bounded, Or.inr hless⟩
      | content lastWriteTime encoding text =>
          obtain ⟨rfl, ⟨content, hdec⟩, hold⟩ := hfit.resolve_right fun h => by cases h.1
          have htemporary : ¬IsTemporary name := hname
          rw [updateDirectoryStructure]
          exact advance_cons (x := .leaf _) ha.1 hanswer.2 hsuits
            (advances_receiveFile hS h htemporary (hsuits.files _ ⟨name, rfl⟩) hdec hold)
            (fun _ hn => absurd hn htemporary)
            (ih (distinct_of_keeps (keeps_receiveFile trivial trivial) h) ha.2 hanswer.2)
  | node name removed below rest _ ih =>
      have hname : IsTemporary name → IsRemoval (.node removed below) := fun hn =>
        hanswer.1.resolve_right fun h => h hn
      have hfit := (hsuits.fits name (.node removed below)
        (by rw [Level.find, if_pos rfl])).resolve_right fun h => by cases h.1
      cases removed with
      | true =>
          obtain ⟨hname', b, under, hf⟩ := hfit
          rw [updateDirectoryStructure, bind_bind]
          exact advance_cons (x := .node true below) ha.1 hanswer.2.2 hsuits
            (advances_remove hS hname' hf)
            (fun hok hn => (stepped_remove h).gone hok hname name hn (Or.inl rfl))
            (ih (distinct_of_keeps ((Keeps.require _ _).bind fun _ =>
              keeps_removeCompleteDirectory) h) ha.2.2 hanswer.2.2)
      | false =>
          obtain ⟨hold, hbelow⟩ := hfit
          rw [updateDirectoryStructure, bind_bind]
          exact advance_cons (x := .node false below) ha.1 hanswer.2.2 hsuits
            (advances_directory hS hold hbelow)
            (fun _ hn => absurd (hname hn) id)
            (ih (distinct_of_keeps keeps_directory h) ha.2.2 hanswer.2.2)

end System

end Replication
