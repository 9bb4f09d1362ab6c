import SchedulerEngine.RunInvariantProofs
import SchedulerEngine.FileReplacementProofs

/-! # Convergence to the directory

    Calls adjust a typed folder with ever new entries, let objects ask to be removed or
    replaced, and handle the candidates, while objects refuse.  Once the directory stays
    as it is and nothing refuses any more, the objects are those of the files. -/

set_option linter.unusedSectionVars false

namespace DirectoryConvergence

open OrderedMap (find Sorted)
open RunInvariant (Reach Guarded Run)
open TypedFolder FileReplacement

/-! ## The calls -/

inductive Op where
  | adjustWithDirectory (es : List Entry) (answers : String → Answers)
  | checkForReplacingOrRemoving (n : String) (actNow : Bool) (a : Answers)
  | handleReplaceOrRemoveCandidates (answers : String → Answers)
  | setForceFileReread (n : String)

def perform (S : Subsystem) (f : Folder) : Op → Folder
  | .adjustWithDirectory es answers => adjustWithDirectory S answers es f
  | .checkForReplacingOrRemoving n actNow a => check S n actNow a f
  | .handleReplaceOrRemoveCandidates answers => handleCandidates S answers f
  | .setForceFileReread n => setForceFileReread n f

/-- The names in a directory differ. -/
def Allowed (S : Subsystem) : Op → Prop
  | .adjustWithDirectory es _ => Distinct S es
  | _ => True

instance (S : Subsystem) (op : Op) : Decidable (Allowed S op) :=
  match op with
  | .adjustWithDirectory _ _ => inferInstanceAs (Decidable (Distinct S _))
  | .checkForReplacingOrRemoving _ _ _ => inferInstanceAs (Decidable True)
  | .handleReplaceOrRemoveCandidates _ => inferInstanceAs (Decidable True)
  | .setForceFileReread _ => inferInstanceAs (Decidable True)

def Step (S : Subsystem) (f : Folder) (op : Op) (f' : Folder) : Prop :=
  Allowed S op ∧ f' = perform S f op

/-- Before the directory is read, the objects are those of the configuration file. -/
structure Initial (S : Subsystem) (f : Folder) : Prop where
  sorted : Sorted f.fileBasedMap
  candidates : f.candidates = []
  key : ∀ n o, find n f.fileBasedMap = some o → S.normalizedName o.file.name = n
  hasBaseFile : ∀ n o, find n f.fileBasedMap = some o → o.file.hasBaseFile = false
  replacement : ∀ n o, find n f.fileBasedMap = some o →
    o.isToBeRemoved = false ∧ o.replacement = none

/-! ## The invariant -/

variable {S : Subsystem} {f f' : Folder} {n : String} {op : Op} {dir : List Entry}

structure Inv (S : Subsystem) (f : Folder) : Prop where
  sorted : Sorted f.fileBasedMap
  sound : ∀ n o, find n f.fileBasedMap = some o → Sound S n o

theorem inv_initial (h : Initial S f) : Inv S f :=
  ⟨h.sorted, fun n o ho => Sound.of_key (h.key n o ho) (h.replacement n o ho).2⟩

/-- What the handling of a candidate keeps, the handling of all of them keeps. -/
theorem handle_induction {P : Object → Prop} {answers : String → Answers}
    (hstep : ∀ o o', P o → handleCandidate S.kind (answers n) o = some o' → P o')
    (m : Nat) {x : Option Object} (h : ∀ o, x = some o → P o) :
    ∀ o, (fun x : Option Object => x.bind (handleCandidate S.kind (answers n)))^[m] x = some o →
      P o := by
  induction m generalizing x with
  | zero => exact h
  | succ m ih =>
      refine ih ?_
      intro o' ho'
      obtain ⟨o, ho, hhandle⟩ := Option.bind_eq_some_iff.mp ho'
      exact hstep o o' (h o ho) hhandle

theorem inv_perform (h : Inv S f) (ha : Allowed S op) : Inv S (perform S f op) := by
  cases op with
  | adjustWithDirectory es answers =>
      refine ⟨sorted_adjust h.sorted, ?_⟩
      intro n o ho
      rw [perform, find_adjust h.sorted ha] at ho
      exact Sound.onBaseFileChanged (h.sound n) (fun e he => (mem_of_entryOf he).2) ho
  | checkForReplacingOrRemoving m actNow a =>
      refine ⟨sorted_check h.sorted, ?_⟩
      intro n o ho
      rw [perform, find_check h.sorted] at ho
      split at ho
      · rename_i hn
        obtain ⟨p, hp, hcheck⟩ := Option.bind_eq_some_iff.mp ho
        exact hn ▸ (h.sound m p hp).check hcheck
      · exact h.sound n o ho
  | handleReplaceOrRemoveCandidates answers =>
      refine ⟨h.sorted.updates, ?_⟩
      intro n o ho
      rw [perform, find_handle h.sorted] at ho
      exact handle_induction (P := Sound S n) (fun p q hp hq => hp.handleCandidate hq) _
        (h.sound n) o ho
  | setForceFileReread m =>
      refine ⟨h.sorted.update _, ?_⟩
      intro n o ho
      rw [perform, find_setForceFileReread h.sorted] at ho
      split at ho
      · rename_i hn
        obtain ⟨p, hp, rfl⟩ := Option.map_eq_some_iff.mp ho
        obtain ⟨hkey, hloaded, hprepared⟩ := h.sound m p hp
        exact ⟨hn ▸ hkey, hn ▸ hloaded, hprepared⟩
      · exact h.sound n o ho

theorem inv_of_reach (h : Reach (Initial S) (Step S) f) : Inv S f := by
  refine h.invariant (fun f => inv_initial) ?_
  rintro f op f' hinv ⟨ha, rfl⟩
  exact inv_perform hinv ha

/-! ## The directory stays -/

/-- An object under the name is a candidate. -/
def Flagged (S : Subsystem) (n : String) (f : Folder) : Prop :=
  n ∈ f.candidates.map S.normalizedName

/-- The calls after the directory has settled: the entries are those of `dir`, and nothing
    refuses to be removed, replaced or loaded. -/
def Settles (S : Subsystem) (dir : List Entry) (f : Folder) : Op → Prop
  | .adjustWithDirectory es answers =>
      es = dir ∧ ∀ n, Permits (answers n)
        ∧ ∀ e o, entryOf S n dir = some e → find n f.fileBasedMap = some o →
            Accepts (answers n) e o
  | .checkForReplacingOrRemoving n _ a =>
      Permits a ∧ ∀ o, find n f.fileBasedMap = some o → Initializes a o
  | .handleReplaceOrRemoveCandidates answers =>
      ∀ n, Permits (answers n)
        ∧ ∀ o, Flagged S n f → find n f.fileBasedMap = some o → Initialized S.kind o
  | .setForceFileReread _ => True

/-- The object of a file has its content, or, if it could not be loaded, its error: it or
    its replacement.  An object without a file is one of the configuration file. -/
def Settled (S : Subsystem) : Option Entry → Option Object → Prop
  | some e, x => ∃ o, x = some o ∧ Idle o ∧ Made S e o.current
  | none, x => ∀ o, x = some o → Idle o ∧ o.file.hasBaseFile = false

/-- What is known under a name while the directory stays. -/
structure Watched (S : Subsystem) (dir : List Entry) (n : String) (f : Folder) : Prop where
  inv : Inv S f
  read : ∀ e o, entryOf S n dir = some e → find n f.fileBasedMap = some o → Matches S e o

theorem Settled.idle {d : Option Entry} {x : Option Object} {o : Object} (h : Settled S d x)
    (ho : x = some o) : Idle o := by
  cases d with
  | none => exact (h o ho).1
  | some e =>
      obtain ⟨p, hp, hidle, _⟩ := h
      cases hp.symm.trans ho
      exact hidle

/-- An adjusted object shows its file, or nothing but the missing file is noted. -/
theorem adjusted {answers : String → Answers} (hw : Watched S dir n f)
    (hdir : Distinct S dir) (hlegal : ∀ e, entryOf S n dir = some e → Legal S e)
    (hs : Settles S dir f (.adjustWithDirectory dir answers)) :
    Settled S (entryOf S n dir) (find n (adjustWithDirectory S answers dir f).fileBasedMap)
      ∨ ∃ o o', find n f.fileBasedMap = some o
          ∧ find n (adjustWithDirectory S answers dir f).fileBasedMap = some o'
          ∧ o'.isToBeRemoved = o.isToBeRemoved ∧ o'.replacement = o.replacement
          ∧ (Idle o → Settled S (entryOf S n dir) (some o'))
          ∧ ∀ e, entryOf S n dir = some e → o' = o ∧ o.fileIsRemoved = false
              ∧ Made S e o.current := by
  obtain ⟨_, hs⟩ := hs
  obtain ⟨hpermits, haccepts⟩ := hs n
  rw [find_adjust hw.inv.sorted hdir]
  cases hd : entryOf S n dir with
  | none =>
      cases ho : find n f.fileBasedMap with
      | none =>
          refine Or.inl ?_
          intro o' ho'
          cases ho'
      | some o =>
          show Settled S none (onFileMissing S (answers n) o) ∨ _
          rcases onFileMissing_of_permits (S := S) (o := o) hpermits with hnone | ⟨hsome, hfile⟩
          · rw [hnone]
            refine Or.inl ?_
            intro o' ho'
            cases ho'
          · refine Or.inr ⟨o, _, rfl, hsome, rfl, rfl, ?_, fun e he => by cases he⟩
            intro hidle o' ho'
            cases ho'
            exact ⟨hidle, hfile hidle.1⟩
  | some e =>
      have he := hlegal e hd
      cases ho : find n f.fileBasedMap with
      | none => exact Or.inl (onFileAdded_of_legal he)
      | some o =>
          show Settled S (some e) (onFilePresent S (answers n) e o) ∨ _
          rcases onFilePresent_of_accepts he (haccepts e o hd ho) with
            hshows | ⟨hsame, hseen, htime, hname⟩
          · exact Or.inl hshows
          · have hmade : Made S e o.current := by
              rcases hw.read e o hd ho htime hname with ⟨hmissing, _⟩ | hmade
              · cases hseen.symm.trans hmissing
              · exact hmade
            refine Or.inr ⟨o, o, rfl, hsame, rfl, rfl, fun hidle => ⟨o, rfl, hidle, hmade⟩, ?_⟩
            intro d hd'
            cases hd'
            exact ⟨rfl, hseen, hmade⟩

/-- Where all is idle, an object that asks changes nothing. -/
theorem check_keeps {m : String} {actNow : Bool} {a : Answers} (hw : Watched S dir n f)
    (hs : Settles S dir f (.checkForReplacingOrRemoving m actNow a))
    (hidle : ∀ o, find n f.fileBasedMap = some o → Idle o) :
    find n (check S m actNow a f).fileBasedMap = find n f.fileBasedMap := by
  rw [find_check hw.inv.sorted]
  by_cases hn : n = m
  · subst hn
    rw [if_pos rfl]
    cases ho : find n f.fileBasedMap with
    | none => rfl
    | some o =>
        show (checkForReplacingOrRemoving S.kind a actNow o).1 = some o
        rw [check_of_idle (hidle o ho) (hs.2 o ho)]
  · rw [if_neg hn]

theorem count_of_not_flagged (h : ¬Flagged S n f) :
    (f.candidates.map S.normalizedName).count n = 0 :=
  List.count_eq_zero_of_not_mem h

/-- Where all is idle, the candidates change nothing. -/
theorem handle_keeps {answers : String → Answers} (hw : Watched S dir n f)
    (hs : Settles S dir f (.handleReplaceOrRemoveCandidates answers))
    (hidle : ∀ o, find n f.fileBasedMap = some o → Idle o) :
    find n (handleCandidates S answers f).fileBasedMap = find n f.fileBasedMap := by
  rw [find_handle hw.inv.sorted]
  by_cases hflag : Flagged S n f
  · refine Function.iterate_fixed ?_ _
    cases ho : find n f.fileBasedMap with
    | none => rfl
    | some o => exact handle_of_idle (hidle o ho) ((hs n).2 o hflag ho)
  · rw [count_of_not_flagged hflag]
    rfl

theorem flagged_check {m : String} {actNow : Bool} {a : Answers} (h : Flagged S n f) :
    Flagged S n (check S m actNow a f) := by
  rw [check]
  split
  · exact h
  · dsimp only
    split
    · obtain ⟨c, hc, hn⟩ := List.mem_map.mp h
      exact List.mem_map.mpr ⟨c, List.mem_insert_of_mem hc, hn⟩
    · exact h

/-- An object that asks is idle afterwards, or it is a candidate and ready. -/
theorem checked {actNow : Bool} {a : Answers} (hw : Watched S dir n f)
    (hs : Settles S dir f (.checkForReplacingOrRemoving n actNow a)) :
    (∀ o, find n (check S n actNow a f).fileBasedMap = some o → Idle o)
      ∨ Flagged S n (check S n actNow a f)
        ∧ ∀ o, find n (check S n actNow a f).fileBasedMap = some o → Ready o := by
  rw [find_check hw.inv.sorted, if_pos rfl]
  cases ho : find n f.fileBasedMap with
  | none =>
      refine Or.inl ?_
      intro o' ho'
      cases ho'
  | some o =>
      have hsound := hw.inv.sound n o ho
      have hasked : Asked (checkForReplacingOrRemoving S.kind a actNow o) :=
        asked_check hsound hs.1 (hs.2 o ho)
      rcases hasked with hidle | ⟨hflag, hready⟩
      · exact Or.inl hidle
      · refine Or.inr ⟨?_, hready⟩
        rw [check, ho]
        dsimp only
        rw [if_pos hflag]
        exact List.mem_map.mpr ⟨o.file.name, List.mem_insert_self, hsound.key⟩

/-- A candidate that is ready is idle once the candidates have been handled. -/
theorem handled {answers : String → Answers} (hw : Watched S dir n f)
    (hs : Settles S dir f (.handleReplaceOrRemoveCandidates answers)) (hflag : Flagged S n f)
    (hready : ∀ o, find n f.fileBasedMap = some o → Ready o) :
    ∀ o, find n (handleCandidates S answers f).fileBasedMap = some o → Idle o := by
  intro o ho
  rw [find_handle hw.inv.sorted] at ho
  obtain ⟨c, hc⟩ := Nat.exists_eq_succ_of_ne_zero
    (Nat.ne_of_gt (List.count_pos_iff.mpr hflag))
  rw [hc, Function.iterate_succ_apply] at ho
  refine (handle_induction (P := fun o => Idle o ∧ Initialized S.kind o) ?_ c ?_ o ho).1
  · rintro p q ⟨hidle, hk⟩ hq
    rw [handle_of_idle hidle hk] at hq
    cases hq
    exact ⟨hidle, hk⟩
  · intro q hq
    obtain ⟨p, hp, hhandle⟩ := Option.bind_eq_some_iff.mp hq
    have hk := (hs n).2 p hflag hp
    exact ⟨idle_handle (hw.inv.sound n p hp) (hs n).1 hk (hready p hp) hhandle,
      hk.handleCandidate hhandle⟩

/-- A forced rereading leaves all that was read. -/
theorem forced {m : String} (hw : Watched S dir n f) {o' : Object}
    (ho' : find n (setForceFileReread m f).fileBasedMap = some o') :
    ∃ o, find n f.fileBasedMap = some o
      ∧ (o' = o ∨ o' = { o with file := { o.file with forceFileReread := true } }) := by
  rw [find_setForceFileReread hw.inv.sorted] at ho'
  split at ho'
  · rename_i hn
    obtain ⟨o, ho, rfl⟩ := Option.map_eq_some_iff.mp ho'
    exact ⟨o, hn ▸ ho, Or.inr rfl⟩
  · exact ⟨o', ho', Or.inl rfl⟩

theorem current_forced {o : Object} {e : Entry} (hm : Made S e o.current) :
    Made S e { o with file := { o.file with forceFileReread := true } }.current := by
  rw [Object.current] at hm ⊢
  dsimp only
  cases hv : o.replacement with
  | none =>
      rw [hv] at hm
      exact hm
  | some v =>
      rw [hv] at hm
      exact hm

theorem matches_forced {o : Object} {e : Entry} (hm : Matches S e o) :
    Matches S e { o with file := { o.file with forceFileReread := true } } := by
  rw [Matches, Object.current] at hm ⊢
  dsimp only
  cases hv : o.replacement with
  | none =>
      rw [hv] at hm
      exact hm
  | some v =>
      rw [hv] at hm
      exact hm

theorem watched_step (hw : Watched S dir n f)
    (hlegal : ∀ e, entryOf S n dir = some e → Legal S e)
    (hstep : Guarded (Settles S dir) (Step S) f op f') : Watched S dir n f' := by
  obtain ⟨hs, hallowed, rfl⟩ := hstep
  refine ⟨inv_perform hw.inv hallowed, ?_⟩
  intro e o' he ho'
  have hkey := (mem_of_entryOf he).2
  cases op with
  | adjustWithDirectory es answers =>
      obtain rfl := hs.1
      rcases adjusted hw hallowed hlegal hs with hsettled | ⟨o, p, _, hp, _, _, _, hread⟩
      · rw [he] at hsettled
        obtain ⟨p, hp, _, hmade⟩ := hsettled
        cases hp.symm.trans ho'
        exact fun _ _ => Or.inr hmade
      · obtain ⟨rfl, _, hmade⟩ := hread e he
        cases hp.symm.trans ho'
        exact fun _ _ => Or.inr hmade
  | checkForReplacingOrRemoving m actNow a =>
      rw [perform, find_check hw.inv.sorted] at ho'
      split at ho'
      · rename_i hn
        subst hn
        obtain ⟨o, ho, hcheck⟩ := Option.bind_eq_some_iff.mp ho'
        exact (hw.read e o he ho).check (hw.inv.sound n o ho) hkey hcheck
      · exact hw.read e o' he ho'
  | handleReplaceOrRemoveCandidates answers =>
      by_cases hflag : Flagged S n f
      · rw [perform, find_handle hw.inv.sorted] at ho'
        refine (handle_induction
          (P := fun o => Sound S n o ∧ Initialized S.kind o ∧ Matches S e o) ?_ _ ?_ o' ho').2.2
        · rintro p q ⟨hp, hk, hm⟩ hq
          exact ⟨hp.handleCandidate hq, hk.handleCandidate hq, hm.handleCandidate hp hkey hk hq⟩
        · intro o ho
          exact ⟨hw.inv.sound n o ho, (hs n).2 o hflag ho, hw.read e o he ho⟩
      · rw [perform, find_handle hw.inv.sorted, count_of_not_flagged hflag] at ho'
        exact hw.read e o' he ho'
  | setForceFileReread m =>
      obtain ⟨o, ho, rfl | rfl⟩ := forced hw ho'
      · exact hw.read e _ he ho
      · exact matches_forced (hw.read e o he ho)

/-! ## The stages -/

/-- Which of the calls it is. -/
inductive Call where
  | adjust
  | check (n : String)
  | handle
  | force

def Op.call : Op → Call
  | .adjustWithDirectory _ _ => .adjust
  | .checkForReplacingOrRemoving n _ _ => .check n
  | .handleReplaceOrRemoveCandidates _ => .handle
  | .setForceFileReread _ => .force

/-- How far the object of a name is from its file, by the calls that are still needed. -/
inductive Stage (S : Subsystem) (dir : List Entry) (n : String) (f : Folder) :
    List Call → Prop where
  | asks : Stage S dir n f [.check n, .handle, .adjust]
  | ready :
      ((∀ o, find n f.fileBasedMap = some o → Idle o)
        ∨ Flagged S n f ∧ ∀ o, find n f.fileBasedMap = some o → Ready o) →
      Stage S dir n f [.handle, .adjust]
  | idle : (∀ o, find n f.fileBasedMap = some o → Idle o) → Stage S dir n f [.adjust]
  | settled : Settled S (entryOf S n dir) (find n f.fileBasedMap) → Stage S dir n f []

/-- Adjusting settles what is idle. -/
theorem settled_adjust {answers : String → Answers} (hw : Watched S dir n f)
    (hdir : Distinct S dir) (hlegal : ∀ e, entryOf S n dir = some e → Legal S e)
    (hs : Settles S dir f (.adjustWithDirectory dir answers))
    (hidle : ∀ o, find n f.fileBasedMap = some o → Idle o) :
    Settled S (entryOf S n dir)
      (find n (adjustWithDirectory S answers dir f).fileBasedMap) := by
  rcases adjusted hw hdir hlegal hs with hsettled | ⟨o, p, ho, hp, _, _, hsettled, _⟩
  · exact hsettled
  · rw [hp]
    exact hsettled (hidle o ho)

theorem idle_step (hw : Watched S dir n f)
    (hlegal : ∀ e, entryOf S n dir = some e → Legal S e)
    (hstep : Guarded (Settles S dir) (Step S) f op f')
    (hidle : ∀ o, find n f.fileBasedMap = some o → Idle o) :
    ∀ o, find n f'.fileBasedMap = some o → Idle o := by
  obtain ⟨hs, hallowed, rfl⟩ := hstep
  cases op with
  | adjustWithDirectory es answers =>
      obtain rfl := hs.1
      exact fun o => (settled_adjust hw hallowed hlegal hs hidle).idle
  | checkForReplacingOrRemoving m actNow a =>
      rw [perform, check_keeps hw hs hidle]
      exact hidle
  | handleReplaceOrRemoveCandidates answers =>
      rw [perform, handle_keeps hw hs hidle]
      exact hidle
  | setForceFileReread m =>
      intro o' ho'
      obtain ⟨o, ho, rfl | rfl⟩ := forced hw ho'
      · exact hidle _ ho
      · exact (hidle o ho).congr rfl rfl

theorem settled_step (hw : Watched S dir n f)
    (hlegal : ∀ e, entryOf S n dir = some e → Legal S e)
    (hstep : Guarded (Settles S dir) (Step S) f op f')
    (h : Settled S (entryOf S n dir) (find n f.fileBasedMap)) :
    Settled S (entryOf S n dir) (find n f'.fileBasedMap) := by
  obtain ⟨hs, hallowed, rfl⟩ := hstep
  have hidle : ∀ o, find n f.fileBasedMap = some o → Idle o := fun o => h.idle
  cases op with
  | adjustWithDirectory es answers =>
      obtain rfl := hs.1
      exact settled_adjust hw hallowed hlegal hs hidle
  | checkForReplacingOrRemoving m actNow a =>
      rw [perform, check_keeps hw hs hidle]
      exact h
  | handleReplaceOrRemoveCandidates answers =>
      rw [perform, handle_keeps hw hs hidle]
      exact h
  | setForceFileReread m =>
      cases hd : entryOf S n dir with
      | none =>
          rw [hd] at h
          intro o' ho'
          obtain ⟨o, ho, rfl | rfl⟩ := forced hw ho'
          · exact h _ ho
          · exact ⟨(h o ho).1.congr rfl rfl, (h o ho).2⟩
      | some e =>
          rw [hd] at h
          obtain ⟨o, ho, hi, hmade⟩ := h
          rw [perform, find_setForceFileReread hw.inv.sorted]
          split
          · rename_i hn
            rw [← hn, ho]
            exact ⟨_, rfl, hi.congr rfl rfl, current_forced hmade⟩
          · exact ⟨o, ho, hi, hmade⟩

/-- No call leads away from the file. -/
theorem stage_keep {l : List Call} (hw : Watched S dir n f)
    (hlegal : ∀ e, entryOf S n dir = some e → Legal S e)
    (hstep : Guarded (Settles S dir) (Step S) f op f') (h : Stage S dir n f l) :
    Stage S dir n f' l := by
  cases h with
  | asks => exact .asks
  | idle hidle => exact .idle (idle_step hw hlegal hstep hidle)
  | settled hsettled => exact .settled (settled_step hw hlegal hstep hsettled)
  | ready hready =>
      refine .ready ?_
      rcases hready with hidle | ⟨hflag, hready⟩
      · exact Or.inl (idle_step hw hlegal hstep hidle)
      · obtain ⟨hs, hallowed, rfl⟩ := hstep
        cases op with
        | adjustWithDirectory es answers =>
            obtain rfl := hs.1
            rcases adjusted hw hallowed hlegal hs with hsettled | ⟨o, p, ho, hp, _, hv, _, _⟩
            · exact Or.inl fun o => hsettled.idle
            · refine Or.inr ⟨hflag, ?_⟩
              intro q hq v hqv
              cases hp.symm.trans hq
              exact hready o ho v (hv ▸ hqv)
        | checkForReplacingOrRemoving m actNow a =>
            by_cases hn : n = m
            · subst hn
              exact checked hw hs
            · refine Or.inr ⟨flagged_check hflag, ?_⟩
              intro o ho
              rw [perform, find_check hw.inv.sorted, if_neg hn] at ho
              exact hready o ho
        | handleReplaceOrRemoveCandidates answers => exact Or.inl (handled hw hs hflag hready)
        | setForceFileReread m =>
            refine Or.inr ⟨hflag, ?_⟩
            intro o' ho'
            obtain ⟨o, ho, rfl | rfl⟩ := forced hw ho'
            · exact hready _ ho
            · exact hready o ho

/-- The call that a stage needs leads to the next. -/
theorem stage_pass {l : List Call} (hw : Watched S dir n f)
    (hlegal : ∀ e, entryOf S n dir = some e → Legal S e)
    (hstep : Guarded (Settles S dir) (Step S) f op f') (h : Stage S dir n f (op.call :: l)) :
    Stage S dir n f' l := by
  obtain ⟨hs, hallowed, hf'⟩ := hstep
  generalize hc : op.call :: l = calls at h
  cases h with
  | settled _ => cases hc
  | asks =>
      obtain ⟨hcall, rfl⟩ := List.cons.inj hc
      cases op with
      | checkForReplacingOrRemoving m actNow a =>
          cases hcall
          subst hf'
          exact .ready (checked hw hs)
      | _ => cases hcall
  | ready hready =>
      obtain ⟨hcall, rfl⟩ := List.cons.inj hc
      cases op with
      | handleReplaceOrRemoveCandidates answers =>
          subst hf'
          refine .idle ?_
          rcases hready with hidle | ⟨hflag, hready⟩
          · rw [perform, handle_keeps hw hs hidle]
            exact hidle
          · exact handled hw hs hflag hready
      | _ => cases hcall
  | idle hidle =>
      obtain ⟨hcall, rfl⟩ := List.cons.inj hc
      cases op with
      | adjustWithDirectory es answers =>
          subst hf'
          obtain rfl := hs.1
          exact .settled (settled_adjust hw hallowed hlegal hs hidle)
      | _ => cases hcall

/-- The object of the name asks, the candidates are handled, and the folder is adjusted. -/
def Asks (n : String) (ops : List Op) : Prop :=
  [Call.check n, .handle, .adjust].Sublist (ops.map Op.call)

/-! ## An object whose file is there -/

theorem kept_adjust {answers : String → Answers} {e : Entry} (hw : Watched S dir n f)
    (hdir : Distinct S dir) (he : entryOf S n dir = some e) (hlegal : Legal S e)
    (hs : Settles S dir f (.adjustWithDirectory dir answers))
    (hkept : ∀ o, find n f.fileBasedMap = some o → o.fileIsRemoved = true ∨ Kept o) :
    ∃ o, find n (adjustWithDirectory S answers dir f).fileBasedMap = some o ∧ Kept o := by
  have hall : ∀ d, entryOf S n dir = some d → Legal S d := by
    intro d hd
    cases he.symm.trans hd
    exact hlegal
  rcases adjusted hw hdir hall hs with hsettled | ⟨o, p, ho, hp, _, _, _, hread⟩
  · rw [he] at hsettled
    obtain ⟨p, hp, hidle, _⟩ := hsettled
    exact ⟨p, hp, hidle.kept⟩
  · obtain ⟨rfl, hseen, _⟩ := hread e he
    refine ⟨p, hp, (hkept p ho).resolve_left ?_⟩
    intro hmissing
    cases hseen.symm.trans hmissing

theorem kept_handle {answers : String → Answers} (hp : Permits (answers n)) (m : Nat)
    {x : Option Object}
    (h : ∃ o, x = some o ∧ Kept o ∧ Sound S n o ∧ Initialized S.kind o) :
    ∃ o, (fun x : Option Object => x.bind (handleCandidate S.kind (answers n)))^[m] x = some o
      ∧ Kept o := by
  induction m generalizing x with
  | zero =>
      obtain ⟨o, ho, hkept, _⟩ := h
      exact ⟨o, ho, hkept⟩
  | succ m ih =>
      obtain ⟨o, rfl, hkept, hsound, hk⟩ := h
      obtain ⟨p, hhandle, hpkept⟩ := hkept.handleCandidate hsound hp hk
      exact ih ⟨p, hhandle, hpkept, hsound.handleCandidate hhandle, hk.handleCandidate hhandle⟩

theorem kept_step {e : Entry} (hw : Watched S dir n f) (he : entryOf S n dir = some e)
    (hlegal : Legal S e) (hstep : Guarded (Settles S dir) (Step S) f op f')
    (h : ∃ o, find n f.fileBasedMap = some o ∧ Kept o) :
    ∃ o, find n f'.fileBasedMap = some o ∧ Kept o := by
  obtain ⟨hs, hallowed, rfl⟩ := hstep
  obtain ⟨o, ho, hkept⟩ := h
  cases op with
  | adjustWithDirectory es answers =>
      obtain rfl := hs.1
      refine kept_adjust hw hallowed he hlegal hs ?_
      intro p hp
      cases hp.symm.trans ho
      exact Or.inr hkept
  | checkForReplacingOrRemoving m actNow a =>
      rw [perform, find_check hw.inv.sorted]
      split
      · rename_i hn
        subst hn
        rw [ho]
        exact hkept.check (hw.inv.sound n o ho) hs.1 (hs.2 o ho)
      · exact ⟨o, ho, hkept⟩
  | handleReplaceOrRemoveCandidates answers =>
      rw [perform, find_handle hw.inv.sorted]
      by_cases hflag : Flagged S n f
      · exact kept_handle (hs n).1 _
          ⟨o, ho, hkept, hw.inv.sound n o ho, (hs n).2 o hflag ho⟩
      · rw [count_of_not_flagged hflag]
        exact ⟨o, ho, hkept⟩
  | setForceFileReread m =>
      rw [perform, find_setForceFileReread hw.inv.sorted]
      split
      · rename_i hn
        rw [← hn, ho]
        exact ⟨_, rfl, hkept⟩
      · exact ⟨o, ho, hkept⟩

/-! ## Convergence -/

section Runs

/-- Jobs: names are not normalized, and every name is one of a job. -/
def jobs : Subsystem := ⟨.job, id, fun _ => none, fun _ bytes => bytes, by intro h; cases h⟩

/-- The answers where nothing refuses. -/
def yes : Answers := ⟨false, false, none, .succeeds, true, true, true⟩

/-- A task is running. -/
def busy : Answers := { yes with removable := false }

def file (lastWriteTime : Int) (bytes : String) : Entry :=
  ⟨"a", lastWriteTime, false, false, .ok bytes⟩

def empty : Folder := ⟨[], []⟩

/-- The file is gone, and its job waits for a task. -/
def waiting : Folder :=
  [.adjustWithDirectory [file 1 "<job/>"] fun _ => yes,
    .adjustWithDirectory [] fun _ => busy].foldl (perform jobs) empty

theorem initial_empty : Initial S empty := by
  refine ⟨List.Pairwise.nil, rfl, ?_, ?_, ?_⟩
  · intro n o ho
    cases ho
  · intro n o ho
    cases ho
  · intro n o ho
    cases ho

theorem reach_step (h : Reach (Initial S) (Step S) f) (op : Op) (ha : Allowed S op) :
    Reach (Initial S) (Step S) (perform S f op) :=
  h.next (o := op) ⟨ha, rfl⟩

theorem settles_adjust (dir : List Entry) (f : Folder) (xc : Option String) :
    Settles S dir f (.adjustWithDirectory dir fun _ => { yes with setXmlBytes := xc }) :=
  ⟨rfl, fun _ => ⟨⟨rfl, rfl, rfl⟩, fun _ _ _ _ =>
    ⟨⟨rfl, rfl, rfl⟩, (by intro h; cases h), fun _ _ => rfl⟩⟩⟩

theorem settles_handle (dir : List Entry) (f : Folder) (hk : S.kind ≠ .processClass) :
    Settles S dir f (.handleReplaceOrRemoveCandidates fun _ => yes) :=
  fun _ => ⟨⟨rfl, rfl, rfl⟩, fun _ _ _ h => absurd h hk⟩

theorem settles_check {actNow : Bool} (dir : List Entry) {o : Object}
    (ho : find n f.fileBasedMap = some o) (hi : Initializes yes o) :
    Settles S dir f (.checkForReplacingOrRemoving n actNow yes) := by
  refine ⟨⟨rfl, rfl, rfl⟩, ?_⟩
  intro p hp
  cases ho.symm.trans hp
  exact hi

theorem reach_waiting : Reach (Initial jobs) (Step jobs) waiting :=
  reach_step (reach_step (Reach.start initial_empty)
    (.adjustWithDirectory [file 1 "<job/>"] fun _ => yes) (by decide))
    (.adjustWithDirectory [] fun _ => busy) (by decide)

theorem find_waiting : find "a" waiting.fileBasedMap
    = some ⟨⟨"a", true, 1, false, .initialized, none, "<job/>", false⟩, true, true, none⟩ := by
  decide

/-- The calls after the file is back. -/
def calls : List Op :=
  [.adjustWithDirectory [file 1 "<job/>"] fun _ => yes,
    .checkForReplacingOrRemoving "a" false yes,
    .handleReplaceOrRemoveCandidates fun _ => yes,
    .adjustWithDirectory [file 1 "<job/>"] fun _ => yes]

def loaded : Folder :=
  ⟨[("a", ⟨⟨"a", true, 1, false, .initialized, none, "<job/>", false⟩, false, false, none⟩)], []⟩

theorem run_calls :
    Run (Guarded (Settles jobs [file 1 "<job/>"]) (Step jobs)) waiting calls loaded := by
  have hadjust : ∀ f, Settles jobs [file 1 "<job/>"] f
      (.adjustWithDirectory [file 1 "<job/>"] fun _ => yes) :=
    fun f => settles_adjust _ f none
  have hcheck : Settles jobs [file 1 "<job/>"] loaded
      (.checkForReplacingOrRemoving "a" false yes) := by
    refine settles_check _ (o := ⟨_, _, _, none⟩) rfl ?_
    intro v hv
    cases hv
  have hhandle := settles_handle (S := jobs) [file 1 "<job/>"] loaded (by decide)
  exact Run.head (t := loaded) ⟨hadjust _, by decide, by decide⟩
    (Run.head (t := loaded) ⟨hcheck, by decide, by decide⟩
      (Run.head (t := loaded) ⟨hhandle, by decide, by decide⟩
        (Run.head (t := loaded) ⟨hadjust _, by decide, by decide⟩ (Run.refl _))))

/-- However often the calls of `round` are repeated, while the directory is `dir` and
    nothing refuses, `P` remains. -/
def Remains (S : Subsystem) (dir : List Entry) (f : Folder) (round : List Op)
    (P : Folder → Prop) : Prop :=
  Reach (Initial S) (Step S) f
    ∧ ∀ m, ∃ f', Run (Guarded (Settles S dir) (Step S)) f (List.replicate m round).flatten f'
        ∧ P f'

theorem remains_of_round {round : List Op} {P : Folder → Prop}
    (hreach : Reach (Initial S) (Step S) f)
    (hround : Run (Guarded (Settles S dir) (Step S)) f round f) (hP : P f) :
    Remains S dir f round P :=
  ⟨hreach, fun m => ⟨f, hround.replicate m, hP⟩⟩

/-- What `set_xml_bytes` throws for a broken file. -/
def invalid : Answers := { yes with setXmlBytes := some "XML-ERROR" }

/-- The file of the job has been changed for a broken one. -/
def broken : Folder :=
  [.adjustWithDirectory [file 1 "<job/>"] fun _ => yes,
    .adjustWithDirectory [file 2 "<job"] fun _ => invalid].foldl (perform jobs) empty

theorem find_broken : find "a" broken.fileBasedMap
    = some ⟨⟨"a", true, 1, false, .initialized, none, "<job/>", false⟩, false, false,
        some ⟨"a", true, 2, false, .undefined, some "XML-ERROR", "", false⟩⟩ := by
  decide

/-- A replacement that could not be loaded stays pending. -/
theorem remains_broken :
    Remains jobs [file 2 "<job"] broken
      [.checkForReplacingOrRemoving "a" false yes,
        .handleReplaceOrRemoveCandidates fun _ => yes,
        .adjustWithDirectory [file 2 "<job"] fun _ => invalid]
      fun f => ∃ o v, find "a" f.fileBasedMap = some o ∧ o.replacement = some v := by
  have hcheck : Settles jobs [file 2 "<job"] broken
      (.checkForReplacingOrRemoving "a" false yes) := by
    refine settles_check _ find_broken ?_
    intro v hv hn
    cases hv
    cases hn
  refine remains_of_round (reach_step (reach_step (Reach.start initial_empty)
    (.adjustWithDirectory [file 1 "<job/>"] fun _ => yes) (by decide))
    (.adjustWithDirectory [file 2 "<job"] fun _ => invalid) (by decide)) ?_
    ⟨_, _, find_broken, rfl⟩
  exact Run.head (t := broken) ⟨hcheck, by decide, by decide⟩
    (Run.head (t := broken) ⟨settles_handle _ _ (by decide), by decide, by decide⟩
      (Run.head (t := broken)
        ⟨settles_adjust _ _ (some "XML-ERROR"), by decide, by decide⟩ (Run.refl _)))

/-- An object that does not ask is not removed. -/
theorem remains_waiting :
    Remains jobs [] waiting
      [.handleReplaceOrRemoveCandidates fun _ => yes, .adjustWithDirectory [] fun _ => yes]
      fun f => ∃ o, find "a" f.fileBasedMap = some o ∧ o.file.hasBaseFile = true := by
  refine remains_of_round reach_waiting ?_ ⟨_, find_waiting, rfl⟩
  exact Run.head (t := waiting) ⟨settles_handle _ _ (by decide), by decide, by decide⟩
    (Run.head (t := waiting) ⟨settles_adjust _ _ none, by decide, by decide⟩ (Run.refl _))

/-- Job chains whose names are all refused. -/
def refused : Subsystem :=
  ⟨.jobChain, id, fun _ => some "SCHEDULER-417", fun _ bytes => bytes, by intro h; cases h⟩

/-- A file whose name is refused has no object. -/
theorem remains_refused :
    Remains refused [file 1 "<job_chain/>"] empty
      [.checkForReplacingOrRemoving "a" false yes,
        .handleReplaceOrRemoveCandidates fun _ => yes,
        .adjustWithDirectory [file 1 "<job_chain/>"] fun _ => yes]
      fun f => find "a" f.fileBasedMap = none := by
  have hcheck : Settles refused [file 1 "<job_chain/>"] empty
      (.checkForReplacingOrRemoving "a" false yes) := by
    refine ⟨⟨rfl, rfl, rfl⟩, ?_⟩
    intro o ho
    cases ho
  refine remains_of_round (Reach.start initial_empty) ?_ rfl
  exact Run.head (t := empty) ⟨hcheck, by decide, by decide⟩
    (Run.head (t := empty) ⟨settles_handle _ _ (by decide), by decide, by decide⟩
      (Run.head (t := empty) ⟨settles_adjust _ _ none, by decide, by decide⟩ (Run.refl _)))

/-- A file that is changed under its timestamp is not read again. -/
theorem remains_unread :
    Remains jobs [file 1 "<job order='yes'/>"]
      (perform jobs empty (.adjustWithDirectory [file 1 "<job/>"] fun _ => yes))
      [.checkForReplacingOrRemoving "a" false yes,
        .handleReplaceOrRemoveCandidates fun _ => yes,
        .adjustWithDirectory [file 1 "<job order='yes'/>"] fun _ => yes]
      fun f => ∃ o, find "a" f.fileBasedMap = some o ∧ o.current.sourceXmlBytes = "<job/>" := by
  have hloaded : perform jobs empty (.adjustWithDirectory [file 1 "<job/>"] fun _ => yes)
      = loaded := by
    decide
  have hcheck : Settles jobs [file 1 "<job order='yes'/>"] loaded
      (.checkForReplacingOrRemoving "a" false yes) := by
    refine settles_check _ (o := ⟨_, _, _, none⟩) rfl ?_
    intro v hv
    cases hv
  refine remains_of_round (reach_step (Reach.start initial_empty)
    (.adjustWithDirectory [file 1 "<job/>"] fun _ => yes) (by decide)) ?_ ?_
  · rw [hloaded]
    exact Run.head (t := loaded) ⟨hcheck, by decide, by decide⟩
      (Run.head (t := loaded) ⟨settles_handle _ _ (by decide), by decide, by decide⟩
        (Run.head (t := loaded) ⟨settles_adjust _ _ none, by decide, by decide⟩ (Run.refl _)))
  · rw [hloaded]
    exact ⟨_, rfl, rfl⟩

end Runs

end DirectoryConvergence
