import SchedulerEngine.ReplicationProofs

/-! # What an update does to the copy

    Every call may be refused, and then the rest of the answer is not carried out.
    `Updated` says what has become of the copy then, name by name: a file is as it was, as
    the answer has it, or gone; only under temporary names there may be anything. -/

namespace Replication

open Base64 (Bytes base64Decoded)
open Execution Execution.Exec NamedTree

/-! ## What is kept -/

def isDirectory {α β : Type} : Item String α β → Bool
  | .leaf _ => false
  | .node _ _ => true

/-- No name stands twice in a level, and `Q` holds of every name of a file or directory. -/
structure Kept (Q : String → Bool → Prop) (disk : Disk) : Prop where
  distinct : disk.Distinct
  names : disk.All fun n x => Q n (isDirectory x)

section Kept

variable {Q : String → Bool → Prop} {disk under : Disk} {n : String} {f : File}

theorem kept_nil : Kept Q .nil := ⟨trivial, trivial⟩

theorem Kept.putLeaf (h : Kept Q disk) (hn : Q n false) : Kept Q (disk.put n (.leaf f)) :=
  ⟨h.distinct.put trivial, h.names.put hn trivial⟩

theorem Kept.putNode (h : Kept Q disk) (hn : Q n true) (hb : Kept Q under) :
    Kept Q (disk.put n (.node () under)) :=
  ⟨h.distinct.put hb.distinct, h.names.put hn hb.names⟩

theorem Kept.erase (h : Kept Q disk) : Kept Q (disk.erase n) :=
  ⟨h.distinct.erase, h.names.erase⟩

theorem Kept.below {b : Unit} (h : Kept Q disk) (hf : disk.find n = some (.node b under)) :
    Kept Q under :=
  ⟨h.distinct.find hf, h.names.find hf⟩

theorem Kept.name {x : Item String File Unit} (h : Kept Q disk) (hf : disk.find n = some x) :
    Q n (isDirectory x) := h.names.entry hf

end Kept

/-! ## The removal of a directory -/

/-- The same file, or directories both. -/
def Kin : Item String File Unit → Item String File Unit → Prop
  | .leaf f, .leaf f' => f' = f
  | .node _ _, .node _ _ => True
  | _, _ => False

/-- Files and directories have gone, and no others have come. -/
def Pruned (disk disk' : Disk) : Prop :=
  ∀ path x', disk'.itemAt path = some x' → ∃ x, disk.itemAt path = some x ∧ Kin x x'

/-- What is left of an entry. -/
def Left : Item String File Unit → Item String File Unit → Prop
  | .leaf f, .leaf f' => f' = f
  | .node _ below, .node _ below' => Pruned below below'
  | _, _ => False

theorem kin_refl (x : Item String File Unit) : Kin x x := by
  cases x with
  | leaf f => exact rfl
  | node b below => trivial

theorem left_refl (x : Item String File Unit) : Left x x := by
  cases x with
  | leaf f => exact rfl
  | node b below => exact fun _ x' h => ⟨x', h, kin_refl x'⟩

theorem Left.kin {x x' : Item String File Unit} (h : Left x x') : Kin x x' := by
  cases x with
  | leaf f =>
      cases x' with
      | leaf f' => exact h
      | node b' below' => exact h.elim
  | node b below =>
      cases x' with
      | leaf f' => exact h.elim
      | node b' below' => trivial

theorem Kin.isDirectory {x x' : Item String File Unit} (h : Kin x x') :
    isDirectory x' = isDirectory x := by
  cases x with
  | leaf f =>
      cases x' with
      | leaf f' => rfl
      | node b' below' => exact h.elim
  | node b below =>
      cases x' with
      | leaf f' => exact h.elim
      | node b' below' => rfl

theorem pruned_of_find {disk disk' : Disk}
    (h : ∀ n x', disk'.find n = some x' → ∃ x, disk.find n = some x ∧ Left x x') :
    Pruned disk disk' := by
  intro path y' hy'
  match path with
  | [] => cases hy'
  | [n] =>
      obtain ⟨x, hx, hleft⟩ := h n y' hy'
      exact ⟨x, hx, hleft.kin⟩
  | n :: m :: path =>
      rw [itemAt_cons] at hy' ⊢
      cases hx' : disk'.find n with
      | none =>
          rw [hx'] at hy'
          cases hy'
      | some x' =>
          obtain ⟨x, hx, hleft⟩ := h n x' hx'
          rw [hx'] at hy'
          rw [hx]
          cases x' with
          | leaf f' => cases hy'
          | node b' below' =>
              cases x with
              | leaf g => exact hleft.elim
              | node b below => exact hleft (m :: path) y' hy'

/-- What is left of a level: an entry that is there is what is left of the one that was. -/
def Remains (disk disk' : Disk) : Prop :=
  ∀ n x', disk'.find n = some x' → ∃ x, disk.find n = some x ∧ Left x x'

theorem remains_nil (disk : Disk) : Remains disk .nil := fun _ _ h => by cases h

theorem Remains.cons {disk disk' : Disk} {name : String} {x x' : Item String File Unit}
    (h : Remains disk disk') (hx : Left x x') :
    Remains (Level.cons name x disk) (Level.cons name x' disk') := by
  intro n y' hy'
  rw [find_cons] at hy' ⊢
  by_cases hn : name = n
  · rw [if_pos hn] at hy' ⊢
    cases hy'
    exact ⟨x, rfl, hx⟩
  · rw [if_neg hn] at hy' ⊢
    exact h n y' hy'

section System

variable {S : System} {path : Path} {name : String} {Q : String → Bool → Prop} {disk : Disk}

/-- What `remove_complete_directory` leaves of the entries. -/
structure Emptied (Q : String → Bool → Prop) (disk : Disk) (r : Except Failure Unit × Disk) : Prop where
  ok : r.1 = .ok () → r.2 = .nil
  names : ∀ n ∈ r.2.names, n ∈ disk.names
  kept : Kept Q disk → Kept Q r.2
  remains : Remains disk r.2

theorem Emptied.nothing {r : Except Failure Unit} : Emptied Q disk (r, .nil) :=
  ⟨fun _ => rfl, fun _ h => (by cases h), fun _ => kept_nil, remains_nil disk⟩

/-- A failure leaves an entry, or a part of it, and a part of what follows. -/
theorem Emptied.stopped {rest rest' : Disk} {x x' : Item String File Unit} {e : Failure}
    {r : Except Failure Unit}
    (h : Emptied Q rest (r, rest')) (hx : Left x x')
    (hkept : x.Below (Kept Q) → x'.Below (Kept Q)) :
    Emptied Q (.cons name x rest) (.error e, .cons name x' rest') := by
  refine ⟨fun h => (by cases h), fun n hn => ?_, fun hk => ?_, h.remains.cons hx⟩
  · rw [names_cons] at hn ⊢
    rcases List.mem_cons.mp hn with rfl | hn
    · exact List.mem_cons_self
    · exact List.mem_cons_of_mem _ (h.names n hn)
  · obtain ⟨h1, h2, h3⟩ := distinct_cons.mp hk.distinct
    obtain ⟨h4, h5, h6⟩ := all_cons.mp hk.names
    rw [← hx.kin.isDirectory] at h4
    have hrest := h.kept ⟨h3, h6⟩
    have hx' : x'.Below (Kept Q) := hkept (by cases x with
      | leaf f => trivial
      | node b below => exact ⟨h2, h5⟩)
    refine ⟨distinct_cons.mpr ⟨fun hn => h1 (h.names _ hn), ?_, hrest.distinct⟩,
      all_cons.mpr ⟨h4, ?_, hrest.names⟩⟩
    · cases x' with
      | leaf f => trivial
      | node b below => exact hx'.distinct
    · cases x' with
      | leaf f => trivial
      | node b below => exact hx'.names

theorem removeEntries_emptied : Emptied Q disk (removeEntries S path disk) := by
  induction disk generalizing path with
  | nil => exact .nothing
  | leaf name f rest ih =>
      have hr : Emptied Q rest (removeEntries S path rest) := ih
      rw [removeEntries]
      rcases hrun : removeEntries S path rest with ⟨r, rest'⟩
      rw [hrun] at hr
      cases r with
      | error e => exact hr.stopped (x := .leaf f) (left_refl _) id
      | ok u =>
          cases hcall : S.refuses .unlink (path ++ [name]) with
          | some code => exact hr.stopped (x := .leaf f) (left_refl _) id
          | none =>
              rw [show rest' = .nil from hr.ok rfl]
              exact .nothing
  | node name b below rest ihb ih =>
      have hr : Emptied Q rest (removeEntries S path rest) := ih
      have hb : Emptied Q below (removeEntries S (path ++ [name]) below) := ihb
      rw [removeEntries]
      rcases hrun : removeEntries S path rest with ⟨r, rest'⟩
      rw [hrun] at hr
      cases r with
      | error e => exact hr.stopped (x := .node () below) (left_refl _) id
      | ok u =>
          cases hcall : S.refuses .openDirectory (path ++ [name]) with
          | some code => exact hr.stopped (x := .node () below) (left_refl _) id
          | none =>
              rcases hbelow : removeEntries S (path ++ [name]) below with ⟨r, below'⟩
              rw [hbelow] at hb
              have hleft : Left (.node () below) (.node () below') := pruned_of_find hb.remains
              cases r with
              | error e => exact hr.stopped (x := .node () below) hleft hb.kept
              | ok u =>
                  cases hrmdir : S.refuses .rmdir (path ++ [name]) with
                  | some code => exact hr.stopped (x := .node () below) hleft hb.kept
                  | none =>
                      rw [show rest' = .nil from hr.ok rfl]
                      exact .nothing

/-! ## What every method keeps -/

theorem keeps_call {I : Disk → Prop} {c : Call} {p : Path} : Keeps I (call S c p) := by
  rw [call]
  split
  · exact Keeps.pure ()
  · exact Keeps.throw _

theorem keeps_unlink : Keeps (Kept Q) (unlink S path name) := by
  refine keeps_call.bind fun _ => Keeps.get_bind fun disk h => ?_
  split
  · exact h.erase
  · exact h
  · exact h

theorem keeps_inside {m : Method Unit} {below : Disk} (hname : Q name true) (hbelow : Kept Q below)
    (hm : Keeps (Kept Q) m) : Keeps (Kept Q) (inside name below m) :=
  fun _ h => h.putNode hname (hm below hbelow)

theorem keeps_removeCompleteDirectory :
    Keeps (Kept Q) (removeCompleteDirectory S path name) := by
  refine keeps_call.bind fun _ => Keeps.get_bind fun disk h => ?_
  split
  · rename_i below hf
    have hm : Keeps (Kept Q) (removeEntries S (path ++ [name])) :=
      fun t ht => removeEntries_emptied.kept ht
    exact ((keeps_inside (h.name hf) (h.below hf) hm).bind fun _ =>
      keeps_call.bind fun _ => Keeps.modify fun _ h => h.erase) disk h
  · exact h
  · exact h

theorem keeps_makeDirectory (hname : Q name true) : Keeps (Kept Q) (makeDirectory S path name) := by
  refine Keeps.get_bind_any fun disk => Keeps.ite (fun _ => ?_) fun _ => Keeps.pure ()
  exact keeps_call.bind fun _ => Keeps.modify fun _ h => h.putNode hname kept_nil

/-- Any invariant that a new file under the name keeps. -/
theorem keeps_openFile {I : Disk → Prop} (hput : ∀ disk f, I disk → I (disk.put name (.leaf f))) :
    Keeps I (openFile S path name) := by
  refine keeps_call.bind fun _ => Keeps.get_bind fun disk h => ?_
  split
  · exact h
  · exact hput disk _ h

theorem keeps_print {I : Disk → Prop} {content : Bytes}
    (hput : ∀ disk f, I disk → I (disk.put name (.leaf f))) :
    Keeps I (print S path name content) := by
  rw [print]
  split
  · exact Keeps.modify fun disk h => hput disk _ h
  · exact (Keeps.modify fun disk h => hput disk _ h).bind fun _ => Keeps.throw _

theorem keeps_setTime {I : Disk → Prop} {lastWriteTime : Int} {content : Bytes}
    (hput : ∀ disk f, I disk → I (disk.put name (.leaf f))) :
    Keeps I (setTime S path name lastWriteTime content) :=
  keeps_call.bind fun _ => Keeps.modify fun disk h => hput disk _ h

theorem keeps_moveTo {source : String} {f : File} (hname : Q name false) :
    Keeps (Kept Q) (moveTo S path source name f) := by
  refine keeps_call.bind fun _ => Keeps.get_bind fun disk h => ?_
  split
  · exact h
  · exact h.erase.putLeaf hname

theorem keeps_receiveFile {lastWriteTime : Int} {encoding : String} {text : Bytes}
    (hname : Q name false) (htemporary : Q (temporary name) false) :
    Keeps (Kept Q) (receiveFile S path name lastWriteTime encoding text) := by
  have hput : ∀ (disk : Disk) (f : File), Kept Q disk →
      Kept Q (disk.put (temporary name) (.leaf f)) := fun _ _ h => h.putLeaf htemporary
  exact (Keeps.require _ _).bind fun _ => (Keeps.ofExcept _).bind fun _ =>
    (keeps_openFile hput).bind fun _ => (keeps_print hput).bind fun _ =>
      (keeps_setTime hput).bind fun _ => keeps_moveTo hname

theorem keeps_enter {elements : Answer} {m : Method Unit} (hm : Keeps (Kept Q) m) :
    Keeps (Kept Q) (enter path name elements m) := by
  refine Keeps.get_bind fun disk h => ?_
  split
  · rename_i below hf
    exact keeps_inside (h.name hf) (h.below hf) hm disk h
  · split
    · exact h
    · exact h

theorem keeps_updateDirectoryStructure {answer : Answer}
    (hQ : ∀ n, Q n false → Q (temporary n) false)
    (h : answer.All fun n x => IsRemoval x ∨ Q n (isDirectory x)) :
    Keeps (Kept Q) (updateDirectoryStructure S path answer) := by
  induction answer generalizing path with
  | nil =>
      rw [updateDirectoryStructure]
      exact Keeps.pure ()
  | leaf name a rest ih =>
      cases a with
      | removed =>
          rw [updateDirectoryStructure]
          exact keeps_unlink.bind fun _ => ih h.2
      | content lastWriteTime encoding text =>
          have hname : Q name false := h.1.resolve_left id
          rw [updateDirectoryStructure]
          exact (keeps_receiveFile hname (hQ name hname)).bind fun _ => ih h.2
  | node name removed below rest ihb ih =>
      cases removed with
      | true =>
          rw [updateDirectoryStructure]
          exact (Keeps.require _ _).bind fun _ => keeps_removeCompleteDirectory.bind fun _ => ih h.2.2
      | false =>
          have hname : Q name true := h.1.resolve_left id
          rw [updateDirectoryStructure]
          exact (keeps_makeDirectory hname).bind fun _ => (keeps_enter (ihb h.2.1)).bind fun _ => ih h.2.2

/-! ## What has become of each name -/

/-- A name under which a file is written at first. -/
def IsTemporary (name : String) : Prop := ∃ k, name = temporary k

/-- What is below a name. -/
def under : Option (Item String File Unit) → Disk
  | some (.node _ below) => below
  | _ => .nil

/-- What an element has made of what stood under its name; `ok` says that the update ended
    normally. -/
inductive Outcome (S : System) (path : Path) (n : String) (ok : Prop) :
    Option (Item String File Unit) → Option (Item String FileElement Bool) →
    Option (Item String File Unit) → Prop where
  | kept {old element} (h : ok → element = none) : Outcome S path n ok old element old
  | unlinked {f} : Outcome S path n ok (some (.leaf f)) (some (.leaf .removed)) none
  | removed {b below elements} :
      Outcome S path n ok (some (.node b below)) (some (.node true elements)) none
  | pruned {b below below' elements} (h : ¬ok) (hp : Pruned below below') :
      Outcome S path n ok (some (.node b below)) (some (.node true elements))
        (some (.node () below'))
  | written {old lastWriteTime text content} (h : base64Decoded text = .ok content)
      (hold : ∀ b below, old ≠ some (.node b below)) :
      Outcome S path n ok old (some (.leaf (.content lastWriteTime "base64" text)))
        (some (.leaf ⟨lastWriteTime, content⟩))
  | entered {old elements} (hold : ∀ f, old ≠ some (.leaf f))
      (h : ok → (updateDirectoryStructure S (path ++ [n]) elements (under old)).1 = .ok ()) :
      Outcome S path n ok old (some (.node false elements))
        (some (.node () (updateDirectoryStructure S (path ++ [n]) elements (under old)).2))
  | blocked {f} :
      Outcome S path n ok (some (.leaf f)) (some (.node false .nil)) (some (.leaf f))

theorem Outcome.nothing {n : String} {ok : Prop} {old new : Option (Item String File Unit)}
    (h : Outcome S path n ok old none new) : new = old := by
  cases h
  rfl

/-- The update may end with a failure later. -/
theorem Outcome.mono {n : String} {ok ok' : Prop} {old new : Option (Item String File Unit)}
    {element : Option (Item String FileElement Bool)} (hok : ok' → ok)
    (h : Outcome S path n ok old element new) : Outcome S path n ok' old element new := by
  cases h with
  | kept h => exact .kept fun h' => h (hok h')
  | unlinked => exact .unlinked
  | removed => exact .removed
  | pruned h hp => exact .pruned (fun h' => h (hok h')) hp
  | written h hold => exact .written h hold
  | entered hold h => exact .entered hold fun h' => h (hok h')
  | blocked => exact .blocked

/-- What one element does to its level. -/
structure Stepped (S : System) (path : Path) (k : String) (x : Item String FileElement Bool)
    (disk : Disk) (r : Except Failure Unit × Disk) : Prop where
  others : ∀ n, n ≠ k → ¬IsTemporary n → r.2.find n = disk.find n
  self : (IsTemporary k → IsRemoval x) →
    Outcome S path k (r.1 = .ok ()) (disk.find k) (some x) (r.2.find k)
  gone : r.1 = .ok () → (IsTemporary k → IsRemoval x) →
    ∀ n, IsTemporary n → n = k ∨ disk.find n = none → r.2.find n = none

/-- A failure that changes nothing. -/
theorem Stepped.unchanged {k : String} {x : Item String FileElement Bool} {e : Failure} :
    Stepped S path k x disk (.error e, disk) :=
  ⟨fun _ _ _ => rfl, fun _ => .kept fun h => (by cases h), fun h => (by cases h)⟩

theorem stepped_unlink (h : disk.Distinct) :
    Stepped S path name (.leaf .removed) disk (unlink S path name disk) := by
  simp only [unlink, call, bind_run]
  cases hcall : S.refuses .unlink (path ++ [name]) with
  | some code => exact .unchanged
  | none =>
      simp only [pure_run, get_run]
      cases hf : disk.find name with
      | none => exact .unchanged
      | some x =>
          cases x with
          | node b below => exact .unchanged
          | leaf f =>
              simp only [modify_run]
              refine ⟨fun n hn _ => find_erase_of_ne (Ne.symm hn), fun _ => ?_, fun _ _ n _ hn => ?_⟩
              · rw [hf, find_erase_self h]
                exact .unlinked
              · rcases hn with rfl | hn
                · exact find_erase_self h
                · rw [find_erase_of_ne, hn]
                  rintro rfl
                  rw [hf] at hn
                  cases hn

theorem stepped_removeCompleteDirectory {elements : Answer} (h : disk.Distinct) :
    Stepped S path name (.node true elements) disk (removeCompleteDirectory S path name disk) := by
  simp only [removeCompleteDirectory, call, bind_run]
  cases hcall : S.refuses .openDirectory (path ++ [name]) with
  | some code => exact .unchanged
  | none =>
      simp only [pure_run, get_run]
      cases hf : disk.find name with
      | none => exact .unchanged
      | some x =>
          cases x with
          | leaf f => exact .unchanged
          | node b below =>
              have hemptied : Emptied (fun _ _ => True) below
                  (removeEntries S (path ++ [name]) below) := removeEntries_emptied
              simp only [bind_run, inside]
              rcases hrun : removeEntries S (path ++ [name]) below with ⟨r, below'⟩
              rw [hrun] at hemptied
              have hstopped (e : Failure) : Stepped S path name (.node true elements) disk
                  (.error e, disk.put name (.node () below')) := by
                refine ⟨fun n hn _ => find_put_of_ne (Ne.symm hn), fun _ => ?_,
                  fun h => (by cases h)⟩
                rw [hf, find_put_self]
                exact .pruned (fun h => by cases h) (pruned_of_find hemptied.remains)
              cases r with
              | error e => exact hstopped e
              | ok u =>
                  cases hrmdir : S.refuses .rmdir (path ++ [name]) with
                  | some code => exact hstopped _
                  | none =>
                      have hput : (disk.put name (.node () below')).Distinct :=
                        h.put (by rw [show below' = .nil from hemptied.ok rfl]; trivial)
                      simp only [pure_run, modify_run]
                      refine ⟨fun n hn _ => ?_, fun _ => ?_, fun _ _ n _ hn => ?_⟩
                      · rw [find_erase_of_ne (Ne.symm hn), find_put_of_ne (Ne.symm hn)]
                      · rw [hf, find_erase_self hput]
                        exact .removed
                      · by_cases hn' : name = n
                        · rw [← hn', find_erase_self hput]
                        · rw [find_erase_of_ne hn', find_put_of_ne hn',
                            hn.resolve_left (Ne.symm hn')]

theorem stepped_remove {elements : Answer} (h : disk.Distinct) :
    Stepped S path name (.node true elements) disk
      ((do
        require (name ≠ "") Failure.noName
        removeCompleteDirectory S path name : Method Unit) disk) := by
  rw [bind_run, require_run]
  by_cases hname : name = ""
  · rw [if_neg (by simp [hname])]
    exact .unchanged
  · rw [if_pos (by simp [hname])]
    exact stepped_removeCompleteDirectory h

/-- A directory that is there, or can be made, holds afterwards what its elements have made of
    what was below. -/
theorem run_directory {elements : Answer} {f : Method Unit}
    (hold : ∀ f, disk.find name ≠ some (.leaf f))
    (hcall : disk.find name = none → S.refuses .mkdir (path ++ [name]) = none) :
    (do
      makeDirectory S path name
      enter path name elements f : Method Unit) disk
        = ((f (under (disk.find name))).1,
            disk.put name (.node () (f (under (disk.find name))).2)) := by
  cases hf : disk.find name with
  | none =>
      simp only [makeDirectory, bind_run, get_run, hf, if_true, call, hcall hf, pure_run,
        modify_run, enter, find_put_self, inside, put_put, under]
  | some x =>
      cases x with
      | leaf a => exact absurd hf (hold a)
      | node b below =>
          simp only [makeDirectory, bind_run, get_run, hf, reduceCtorEq, if_false, pure_run, enter,
            inside, under]

/-- `mkdir` and what is done below. -/
theorem stepped_enter {elements : Answer} :
    Stepped S path name (.node false elements) disk
      ((do
        makeDirectory S path name
        enter path name elements (updateDirectoryStructure S (path ++ [name]) elements)) disk) := by
  have hentered (hold : ∀ f, disk.find name ≠ some (.leaf f))
      (hcall : disk.find name = none → S.refuses .mkdir (path ++ [name]) = none) :
      Stepped S path name (.node false elements) disk ((do
        makeDirectory S path name
        enter path name elements (updateDirectoryStructure S (path ++ [name]) elements)) disk) := by
    rw [run_directory hold hcall]
    refine ⟨fun n hn _ => find_put_of_ne (Ne.symm hn), fun _ => ?_, fun _ hk n hn hgone => ?_⟩
    · rw [find_put_self]
      exact .entered hold id
    · have hne : n ≠ name := by
        rintro rfl
        exact hk hn
      rw [find_put_of_ne (Ne.symm hne), hgone.resolve_left hne]
  cases hf : disk.find name with
  | none =>
      cases hcall : S.refuses .mkdir (path ++ [name]) with
      | some code =>
          simp only [makeDirectory, bind_run, get_run, hf, if_true, call, hcall, throw_run]
          exact .unchanged
      | none => exact hentered (by rw [hf]; exact fun f h => by cases h) fun _ => hcall
  | some x =>
      cases x with
      | node b below =>
          exact hentered (by rw [hf]; exact fun f h => by cases h) fun h => by
            rw [hf] at h
            cases h
      | leaf f =>
          simp only [makeDirectory, bind_run, get_run, hf, reduceCtorEq, if_false, pure_run, enter]
          cases elements with
          | nil =>
              show Stepped S path name (.node false .nil) disk (.ok (), disk)
              refine ⟨fun _ _ _ => rfl, fun _ => ?_, fun _ hk n hn hgone => ?_⟩
              · rw [hf]
                exact .blocked
              · refine hgone.resolve_left ?_
                rintro rfl
                exact hk hn
          | leaf k a rest => exact .unchanged
          | node k b below rest => exact .unchanged

theorem temporary_ne (n : String) : temporary n ≠ n := by
  intro h
  have hlength := congrArg String.length h
  rw [temporary, String.length_append] at hlength
  simp at hlength

/-- What is done before the file gets its name concerns the temporary name only. -/
structure Elsewhere (disk : Disk) (k : String) (disk' : Disk) : Prop where
  distinct : disk'.Distinct
  others : ∀ n, n ≠ k → disk'.find n = disk.find n

theorem Elsewhere.put {disk' : Disk} {k : String} {f : File} (h : Elsewhere disk k disk') :
    Elsewhere disk k (disk'.put k (.leaf f)) :=
  ⟨h.distinct.put trivial, fun n hn => by rw [find_put_of_ne (Ne.symm hn), h.others n hn]⟩

/-- The file stands there as sent, or nothing has happened but under the temporary name. -/
theorem triple_receiveFile {lastWriteTime : Int} {encoding : String} {text : Bytes} :
    Triple (Elsewhere disk (temporary name)) (receiveFile S path name lastWriteTime encoding text)
      (fun _ disk'' => ∃ content disk', Elsewhere disk (temporary name) disk' ∧
        encoding = "base64" ∧ base64Decoded text = .ok content ∧
        (∀ b below, disk'.find name ≠ some (.node b below)) ∧
        disk'' = (disk'.erase (temporary name)).put name (.leaf ⟨lastWriteTime, content⟩))
      (fun _ => Elsewhere disk (temporary name)) := by
  have hput (P : Prop) : ∀ disk' f, Elsewhere disk (temporary name) disk' ∧ P →
      Elsewhere disk (temporary name) (disk'.put (temporary name) (.leaf f)) ∧ P :=
    fun _ _ h => ⟨h.1.put, h.2⟩
  refine Triple.bind (Q := fun _ disk' => Elsewhere disk (temporary name) disk' ∧ encoding = "base64")
    (Triple.require (fun h disk' hd => ⟨hd, of_decide_eq_true h⟩) fun _ _ hd => hd) fun _ => ?_
  refine Triple.bind (Q := fun content disk' => Elsewhere disk (temporary name) disk' ∧
    encoding = "base64" ∧ base64Decoded text = .ok content)
    (Triple.ofExcept (fun content h disk' hd => ⟨hd.1, hd.2, ?_⟩) fun _ _ _ hd => hd.1)
    fun content => ?_
  · cases hdec : base64Decoded text with
    | error x =>
        rw [hdec] at h
        cases h
    | ok c =>
        rw [hdec] at h
        cases h
        rfl
  · refine (keeps_openFile (hput _)).bind_triple (fun _ _ hd => hd.1) fun _ => ?_
    refine (keeps_print (hput _)).bind_triple (fun _ _ hd => hd.1) fun _ => ?_
    refine (keeps_setTime (hput _)).bind_triple (fun _ _ hd => hd.1) fun _ => ?_
    refine keeps_call.bind_triple (fun _ _ hd => hd.1) fun _ => ?_
    refine Triple.get_bind fun disk' => ?_
    split
    · exact Triple.throw fun _ hd => hd.2.1
    · rename_i hfile
      refine Triple.modify ?_
      rintro _ ⟨rfl, hd, hencoding, hdec⟩
      exact ⟨content, _, hd, hencoding, hdec, fun b below => hfile b below, rfl⟩

theorem stepped_receiveFile {lastWriteTime : Int} {encoding : String} {text : Bytes}
    (h : disk.Distinct) :
    Stepped S path name (.leaf (.content lastWriteTime encoding text)) disk
      (receiveFile S path name lastWriteTime encoding text disk) := by
  have hrun := (triple_receiveFile : Triple (Elsewhere disk (temporary name))
    (receiveFile S path name lastWriteTime encoding text) _ _) disk ⟨h, fun _ _ => rfl⟩
  rcases hr : receiveFile S path name lastWriteTime encoding text disk with ⟨r, disk''⟩
  rw [hr] at hrun
  cases r with
  | error e =>
      have he : Elsewhere disk (temporary name) disk'' := hrun
      refine ⟨fun n _ hn => he.others n fun h => hn ⟨name, h⟩, fun _ => ?_, fun h => (by cases h)⟩
      rw [he.others name (Ne.symm (temporary_ne name))]
      exact .kept fun h => by cases h
  | ok u =>
      obtain ⟨content, disk', hd, rfl, hdec, hold, rfl⟩ := hrun
      rw [hd.others name (Ne.symm (temporary_ne name))] at hold
      refine ⟨fun n hn hn' => ?_, fun _ => ?_, fun _ hk n hn hgone => ?_⟩
      · have hne : n ≠ temporary name := fun h => hn' ⟨name, h⟩
        rw [find_put_of_ne (Ne.symm hn), find_erase_of_ne (Ne.symm hne), hd.others n hne]
      · rw [find_put_self]
        exact .written hdec hold
      · have hne : n ≠ name := by
          rintro rfl
          exact hk hn
        rw [find_put_of_ne (Ne.symm hne)]
        by_cases htemporary : temporary name = n
        · rw [htemporary, find_erase_self hd.distinct]
        · rw [find_erase_of_ne htemporary, hd.others n (Ne.symm htemporary),
            hgone.resolve_left hne]

/-- What an update does to a level. -/
structure Levelled (S : System) (path : Path) (answer : Answer) (disk : Disk)
    (r : Except Failure Unit × Disk) : Prop where
  outcome : ∀ n, ¬IsTemporary n →
    Outcome S path n (r.1 = .ok ()) (disk.find n) (answer.find n) (r.2.find n)
  gone : r.1 = .ok () → ∀ n, IsTemporary n → n ∈ answer.names ∨ disk.find n = none →
    r.2.find n = none

theorem bind_bind (m m' rest : Method Unit) :
    (do m; m'; rest) = (do (do m; m'); rest) := by
  funext disk
  simp only [bind_run]
  rcases m disk with ⟨r, disk'⟩
  cases r <;> rfl

/-- One element after the other: a failure leaves the elements that follow undone. -/
theorem Levelled.cons {k : String} {x : Item String FileElement Bool} {rest : Answer}
    {m : Method Unit} (hk : k ∉ rest.names) (hx : IsTemporary k → IsRemoval x)
    (hstep : Stepped S path k x disk (m disk))
    (hlevel : Levelled S path rest (m disk).2 (updateDirectoryStructure S path rest (m disk).2)) :
    Levelled S path (.cons k x rest) disk
      ((do m; updateDirectoryStructure S path rest) disk) := by
  rw [bind_run]
  rcases hr : m disk with ⟨r, disk'⟩
  rw [hr] at hstep hlevel
  cases r with
  | error e =>
      -- the others have not been reached
      refine ⟨fun n hn => ?_, fun h => (by cases h)⟩
      rw [find_cons]
      by_cases hkn : k = n
      · subst hkn
        rw [if_pos rfl]
        exact hstep.self hx
      · rw [if_neg hkn, hstep.others n (Ne.symm hkn) hn]
        exact .kept fun h => by cases h
  | ok u =>
      refine ⟨fun n hn => ?_, fun hok n hn hgone => ?_⟩
      · have hout := hlevel.outcome n hn
        rw [find_cons]
        by_cases hkn : k = n
        · -- no other element has this name
          subst hkn
          rw [find_eq_none_iff.mpr hk] at hout
          rw [if_pos rfl, hout.nothing]
          exact (hstep.self hx).mono fun _ => rfl
        · rw [if_neg hkn, ← hstep.others n (Ne.symm hkn) hn]
          exact hout
      · refine hlevel.gone hok n hn ?_
        rw [names_cons, List.mem_cons] at hgone
        rcases hgone with (hgone | hgone) | hgone
        · exact Or.inr (hstep.gone rfl hx n hn (Or.inl hgone))
        · exact Or.inl hgone
        · exact Or.inr (hstep.gone rfl hx n hn (Or.inr hgone))

theorem distinct_of_keeps {m : Method Unit} (hm : Keeps (Kept fun _ _ => True) m)
    (h : disk.Distinct) : (m disk).2.Distinct :=
  (hm disk ⟨h, all_of_forall (fun _ _ => trivial) disk⟩).distinct

theorem keeps_directory {elements : Answer} : Keeps (Kept fun _ _ => True) (do
    makeDirectory S path name
    enter path name elements (updateDirectoryStructure S (path ++ [name]) elements)) :=
  (keeps_makeDirectory trivial).bind fun _ => keeps_enter
    (keeps_updateDirectoryStructure (fun _ _ => trivial)
      (all_of_forall (fun _ _ => Or.inr trivial) elements))

theorem levelled_update {answer : Answer} (h : disk.Distinct) (ha : answer.Distinct)
    (hanswer : answer.All fun n x => IsRemoval x ∨ ¬IsTemporary n) :
    Levelled S path answer disk (updateDirectoryStructure S path answer disk) := by
  induction answer generalizing disk with
  | nil =>
      rw [updateDirectoryStructure]
      exact ⟨fun n _ => .kept fun _ => rfl, fun _ n _ hn => hn.resolve_left List.not_mem_nil⟩
  | leaf name a rest ih =>
      have hname : IsTemporary name → IsRemoval (.leaf a) := fun hn =>
        hanswer.1.resolve_right fun h => h hn
      cases a with
      | removed =>
          rw [updateDirectoryStructure]
          exact Levelled.cons (x := .leaf .removed) ha.1 hname (stepped_unlink h)
            (ih (distinct_of_keeps keeps_unlink h) ha.2 hanswer.2)
      | content lastWriteTime encoding text =>
          rw [updateDirectoryStructure]
          exact Levelled.cons (x := .leaf _) ha.1 hname (stepped_receiveFile h)
            (ih (distinct_of_keeps (keeps_receiveFile trivial trivial) h) ha.2 hanswer.2)
  | node name removed below rest _ ih =>
      have hname : IsTemporary name → IsRemoval (.node removed below) := fun hn =>
        hanswer.1.resolve_right fun h => h hn
      cases removed with
      | true =>
          rw [updateDirectoryStructure, bind_bind]
          exact Levelled.cons (x := .node true below) ha.1 hname (stepped_remove h)
            (ih (distinct_of_keeps ((Keeps.require _ _).bind fun _ =>
              keeps_removeCompleteDirectory) h) ha.2.2 hanswer.2.2)
      | false =>
          rw [updateDirectoryStructure, bind_bind]
          exact Levelled.cons (x := .node false below) ha.1 hname stepped_enter
            (ih (distinct_of_keeps keeps_directory h) ha.2.2 hanswer.2.2)

/-- Directories that are there, and below which nothing is to be done. -/
theorem update_unchanged {answer : Answer} (ha : answer.Distinct)
    (h : ∀ n x, answer.find n = some x → ∃ elements below, x = .node false elements ∧
      disk.find n = some (.node () below) ∧
      updateDirectoryStructure S (path ++ [n]) elements below = (.ok (), below)) :
    updateDirectoryStructure S path answer disk = (.ok (), disk) := by
  induction answer with
  | nil => rfl
  | leaf name a rest ih =>
      obtain ⟨elements, below, hx, -⟩ := h name (.leaf a) (by rw [Level.find, if_pos rfl])
      cases hx
  | node name removed elements rest _ ih =>
      obtain ⟨elements', below, hx, hf, hbelow⟩ := h name (.node removed elements)
        (by rw [Level.find, if_pos rfl])
      cases hx
      have hrest := ih ha.2.2 fun n x hx => h n x (by
        rw [Level.find, if_neg]
        · exact hx
        · rintro rfl
          rw [find_eq_none_iff.mpr ha.1] at hx
          cases hx)
      simp only [updateDirectoryStructure, makeDirectory, enter, bind_run, get_run, hf,
        reduceCtorEq, if_false, pure_run, inside, hbelow]
      rw [put_same hf]
      exact hrest

end System

end Replication
