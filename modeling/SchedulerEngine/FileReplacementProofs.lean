import SchedulerEngine.TypedFolderProofs

/-! # Replacing and removing an object

    What one call does to one object: what is kept whatever the object answers, and what
    is reached when the file stays as it is and nothing refuses. -/

set_option linter.unusedSectionVars false

namespace FileReplacement

open TypedFolder

variable {S : Subsystem} {k : Kind} {a : Answers} {e : Entry} {o o' : Object} {v : Version}
  {n : String}

/-! ## What an object shows -/

/-- The object has the content of the file, or it could not be loaded and has the error. -/
def Made (S : Subsystem) (e : Entry) (v : Version) : Prop :=
  v.lastWriteTime = e.lastWriteTime
    ∧ ((∃ bytes, e.reading = .ok bytes
          ∧ v.sourceXmlBytes = S.changeObjectXmlBytes e.name bytes)
        ∨ v.state = .undefined ∧ v.baseFileXc ≠ none)

/-- Nothing will happen to the object by itself: a replacement it has could not be loaded. -/
def Idle (o : Object) : Prop :=
  o.isToBeRemoved = false
    ∧ ∀ v, o.replacement = some v → v.baseFileXc ≠ none ∧ v.state ≠ .initialized

/-- What was read last under the timestamp and the name of the entry is its content;
    an object whose file was seen to be missing is read again in any case. -/
def Matches (S : Subsystem) (e : Entry) (o : Object) : Prop :=
  o.current.lastWriteTime = e.lastWriteTime → o.current.name = e.name →
    (o.fileIsRemoved = true ∧ o.replacement = none) ∨ Made S e o.current

/-- Every replacement without an error is initialized. -/
def Ready (o : Object) : Prop :=
  ∀ v, o.replacement = some v → v.baseFileXc = none → v.state = .initialized

/-- The object waits for nothing but its replacement. -/
def Kept (o : Object) : Prop := o.isToBeRemoved = true → o.replacement ≠ none

/-! ## The objects of a folder -/

/-- What has been made from a file under the name, and is not yet in the folder. -/
structure Loaded (S : Subsystem) (n : String) (v : Version) : Prop where
  key : S.normalizedName v.name = n
  hasBaseFile : v.hasBaseFile = true
  state : v.state = .undefined ∨ v.state = .notInitialized ∨ v.state = .initialized
  failed : v.state = .undefined → v.baseFileXc ≠ none

structure Sound (S : Subsystem) (n : String) (o : Object) : Prop where
  key : S.normalizedName o.file.name = n
  loaded : ∀ v, o.replacement = some v → Loaded S n v
  /-- Where the old object has to go first, `prepare_to_replace` has marked it. -/
  prepared : ∀ v, o.replacement = some v →
    (o.isToBeRemoved = true ↔ S.kind.preparesRemoval = true ∧ v.state = .initialized)

/-- What a replacement makes of the object under its name. -/
def placed (k : Kind) (v : Version) (o : Object) : Object :=
  if k.takesOver then takeOver v o else Object.new v

theorem replaceNow_some (h : replaceNow k a v o = some o') : o' = placed k v o := by
  cases k with
  | standingOrder =>
      rw [replaceNow] at h
      by_cases hd : a.deletes = true
      · rw [if_pos hd, Option.some.injEq] at h
        exact h.symm
      · rw [if_neg hd] at h
        cases h
  | _ => exact (Option.some.inj h).symm

theorem replaceNow_eq (hd : a.deletes = true) : replaceNow k a v o = some (placed k v o) := by
  cases k with
  | standingOrder => exact if_pos hd
  | _ => rfl

theorem not_prepares_of_takesOver (h : k.takesOver = true) : k.preparesRemoval = false := by
  cases k <;> first | rfl | cases h

theorem Sound.of_key (hkey : S.normalizedName o.file.name = n) (ho : o.replacement = none) :
    Sound S n o := by
  refine ⟨hkey, ?_, ?_⟩
  · intro w hw
    cases ho.symm.trans hw
  · intro w hw
    cases ho.symm.trans hw

theorem Sound.new (hkey : S.normalizedName v.name = n) : Sound S n (Object.new v) :=
  Sound.of_key hkey rfl

theorem Sound.placed (h : Sound S n o) (hv : S.normalizedName v.name = n) :
    Sound S n (placed k v o) := by
  rw [FileReplacement.placed]
  split
  · exact Sound.of_key h.key rfl
  · exact Sound.new hv

theorem placed_isToBeRemoved (h : k.takesOver = true → o.isToBeRemoved = false) :
    (placed k v o).isToBeRemoved = false := by
  rw [placed]
  split
  · rename_i hk
    exact h hk
  · rfl

theorem placed_replacement : (placed k v o).replacement = none := by
  rw [placed]
  split
  · rfl
  · rfl

theorem placed_idle (h : k.takesOver = true → o.isToBeRemoved = false) :
    Idle (placed k v o) := by
  refine ⟨placed_isToBeRemoved h, ?_⟩
  intro w hw
  rw [placed_replacement] at hw
  cases hw

theorem placed_current : (placed k v o).current = (placed k v o).file := by
  rw [Object.current, placed_replacement]
  rfl

theorem placed_lastWriteTime : (placed k v o).file.lastWriteTime = v.lastWriteTime := by
  rw [placed]
  split
  · rfl
  · rfl

/-- The new object has what its replacement had read. -/
theorem made_placed (h : Made S e v) (hv : v.state ≠ .undefined) :
    Made S e (placed k v o).current := by
  obtain ⟨ht, hsource⟩ := h
  have hbytes := hsource.resolve_right fun hu => hv hu.1
  rw [placed_current]
  refine ⟨placed_lastWriteTime.trans ht, Or.inl ?_⟩
  rw [placed]
  split
  · exact hbytes
  · exact hbytes

/-! ## What is allowed is done -/

/-- The object allows to be removed and to be replaced. -/
def Permits (a : Answers) : Prop :=
  a.removable = true ∧ a.replaceable = true ∧ a.deletes = true

theorem canBeRemovedNow_of_permits (h : Permits a) (ho : o.isToBeRemoved = true) :
    canBeRemovedNow k a o = true := by
  cases k <;> simp [canBeRemovedNow, h.1, ho]

theorem canBeReplacedNow_of_permits (h : Permits a) (hv : o.replacement = some v)
    (hi : v.state = .initialized) (ho : k.preparesRemoval = true → o.isToBeRemoved = true) :
    canBeReplacedNow k a o = true := by
  have hr : o.replacementIsInitialized = true := by
    rw [Object.replacementIsInitialized, hv]
    exact decide_eq_true hi
  cases k with
  | lock => simp [canBeReplacedNow, hr, h.2.1]
  | jobChain => simp [canBeReplacedNow, hr, h.2.1]
  | schedule => exact hr
  | processClass => rfl
  | monitor => simp [canBeReplacedNow, hr, canBeRemovedNow]
  | job => simp [canBeReplacedNow, hr, canBeRemovedNow, h.1, ho rfl]
  | standingOrder => simp [canBeReplacedNow, hr, canBeRemovedNow, h.1]

/-- Only a process class is ready to be replaced by what is not initialized. -/
theorem canBeReplacedNow_of_not_initialized (hk : k ≠ .processClass)
    (hv : o.replacement = some v) (hi : v.state ≠ .initialized) :
    canBeReplacedNow k a o = false := by
  have hr : o.replacementIsInitialized = false := by
    rw [Object.replacementIsInitialized, hv]
    exact decide_eq_false hi
  cases k with
  | processClass => exact absurd rfl hk
  | schedule => exact hr
  | _ => simp [canBeReplacedNow, hr]

theorem onRemoveNow_of_permits (h : Permits a) : onRemoveNow k a = true := by
  cases k with
  | standingOrder => exact h.2.2
  | _ => rfl

theorem removeNow_of_permits (h : Permits a) : removeNow k a o = none := by
  rw [removeNow, if_pos (onRemoveNow_of_permits h)]

theorem remove_of_permits (h : Permits a) : remove k a o = none := by
  rw [remove, if_pos (canBeRemovedNow_of_permits h rfl), removeNow_of_permits h]

/-! ## Loading -/

/-- The new object could not be loaded, or it has the content of the file. -/
theorem load_cases (hgone : e.isGone = false) :
    (∃ xc, load S a e = { e.blank with baseFileXc := some xc })
      ∨ ∃ bytes state xc, e.reading = .ok bytes
          ∧ load S a e = { e.blank with
              state := state
              baseFileXc := xc
              sourceXmlBytes := S.changeObjectXmlBytes e.name bytes }
          ∧ (state = .initialized ∨ state = .notInitialized
              ∧ (a.initializing ≠ .fails → xc ≠ none)) := by
  rw [load]
  cases hr : e.reading with
  | error x =>
      cases x with
      | enoent => rw [Entry.isGone, hr] at hgone; cases hgone
      | other xc => exact Or.inl ⟨xc, rfl⟩
  | ok bytes =>
      cases a.setXmlBytes with
      | some xc => exact Or.inl ⟨xc, rfl⟩
      | none =>
          refine Or.inr ?_
          cases hi : a.initializing with
          | throws xc =>
              exact ⟨bytes, .notInitialized, some xc, rfl, rfl,
                Or.inr ⟨rfl, fun _ => Option.some_ne_none xc⟩⟩
          | fails => exact ⟨bytes, .notInitialized, none, rfl, rfl, Or.inr ⟨rfl, fun h => absurd rfl h⟩⟩
          | succeeds => exact ⟨bytes, .initialized, none, rfl, rfl, Or.inl rfl⟩

theorem load_name : (load S a e).name = e.name := by
  rw [load]
  cases e.reading with
  | error x => cases x <;> rfl
  | ok bytes =>
      cases a.setXmlBytes with
      | some xc => rfl
      | none => cases a.initializing <;> rfl

theorem loaded_load (hgone : e.isGone = false) (hkey : S.key e = n) :
    Loaded S n (load S a e) := by
  have hname : S.normalizedName (load S a e).name = n := by
    rw [load_name]
    exact hkey
  rcases load_cases (S := S) (a := a) hgone with ⟨xc, heq⟩ | ⟨bytes, state, xc, _, heq, hstate⟩
  · refine ⟨hname, by rw [heq]; rfl, by rw [heq]; exact Or.inl rfl, ?_⟩
    intro _
    rw [heq]
    exact Option.some_ne_none xc
  · have hst : (load S a e).state = state := by rw [heq]
    refine ⟨hname, by rw [heq]; rfl, ?_, ?_⟩
    · rcases hstate with rfl | ⟨rfl, _⟩
      · exact Or.inr (Or.inr hst)
      · exact Or.inr (Or.inl hst)
    · intro hu
      rcases hstate with rfl | ⟨rfl, _⟩
      · cases hst.symm.trans hu
      · cases hst.symm.trans hu

theorem made_load (hgone : e.isGone = false) : Made S e (load S a e) := by
  rcases load_cases (S := S) (a := a) hgone with ⟨xc, heq⟩ | ⟨bytes, state, xc, hr, heq, _⟩
  · rw [heq]
    exact ⟨rfl, Or.inr ⟨rfl, Option.some_ne_none xc⟩⟩
  · rw [heq]
    exact ⟨rfl, Or.inl ⟨bytes, hr, rfl⟩⟩

/-- Where nothing fails without a reason, what is not initialized has its error. -/
theorem load_failed (hgone : e.isGone = false) (hi : a.initializing ≠ .fails)
    (hs : (load S a e).state ≠ .initialized) : (load S a e).baseFileXc ≠ none := by
  rcases load_cases (S := S) (a := a) hgone with ⟨xc, heq⟩ | ⟨bytes, state, xc, hr, heq, hstate⟩
  · rw [heq]
    exact Option.some_ne_none xc
  · rcases hstate with rfl | ⟨_, hxc⟩
    · rw [heq] at hs
      exact absurd rfl hs
    · rw [heq]
      exact hxc hi

/-! ## The calls keep the objects sound -/

theorem Sound.marked (h : Sound S n o) {b : Bool} : Sound S n { o with fileIsRemoved := b } :=
  ⟨h.key, h.loaded, h.prepared⟩

theorem Sound.setReplacement (h : Sound S n o) (hv : Loaded S n v)
    (hi : v.state ≠ .initialized) : Sound S n (setReplacement v o) := by
  refine ⟨h.key, ?_, ?_⟩
  · intro w hw
    cases hw
    exact hv
  · intro w hw
    cases hw
    constructor
    · intro ht
      cases ht
    · rintro ⟨_, hvi⟩
      exact absurd hvi hi

/-- `prepare_to_replace` follows on the initialization of a replacement. -/
theorem Sound.prepareToReplace (h : Sound S n o) (hv : Loaded S n v)
    (hi : v.state = .initialized) (ho : o.isToBeRemoved = false) :
    Sound S n (prepareToReplace S.kind { o with replacement := some v }) := by
  rw [TypedFolder.prepareToReplace]
  by_cases hk : S.kind.preparesRemoval = true
  · rw [if_pos hk]
    refine ⟨h.key, ?_, ?_⟩
    · intro w hw
      cases hw
      exact hv
    · intro w hw
      cases hw
      exact ⟨fun _ => ⟨hk, hi⟩, fun _ => rfl⟩
  · rw [if_neg hk]
    refine ⟨h.key, ?_, ?_⟩
    · intro w hw
      cases hw
      exact hv
    · intro w hw
      cases hw
      constructor
      · intro ht
        cases ho.symm.trans ht
      · rintro ⟨hkt, _⟩
        exact absurd hkt hk

theorem Sound.remove (h : Sound S n o) (hr : remove k a o = some o') : Sound S n o' := by
  have heq : o' = { o with isToBeRemoved := true, replacement := none } := by
    rw [TypedFolder.remove] at hr
    split at hr
    · rw [removeNow] at hr
      split at hr
      · cases hr
      · exact (Option.some.inj hr).symm
    · exact (Option.some.inj hr).symm
  subst heq
  exact Sound.of_key h.key rfl

theorem Sound.removeNow (h : Sound S n o) (hr : removeNow k a o = some o') : Sound S n o' := by
  rw [TypedFolder.removeNow] at hr
  split at hr
  · cases hr
  · cases hr
    exact h

/-- `replace_now`, whether it returns `NULL` or not. -/
theorem Sound.replaceNow (h : Sound S n o) (hv : Loaded S n v) :
    Sound S n ((replaceNow k a v o).getD o) := by
  cases hr : TypedFolder.replaceNow k a v o with
  | none => exact h
  | some o' =>
      rw [replaceNow_some hr]
      exact h.placed hv.key

theorem Sound.replaceOrWait (h : Sound S n o) (hv : Loaded S n v) :
    Sound S n (replaceOrWait S a v o) := by
  rw [TypedFolder.replaceOrWait]
  by_cases hi : v.state = .initialized
  · rw [if_pos hi]
    have hp : Sound S n (TypedFolder.prepareToReplace S.kind (TypedFolder.setReplacement v o)) :=
      Sound.prepareToReplace (o := { o with isToBeRemoved := false, replacement := none })
        (Sound.of_key h.key rfl) hv hi rfl
    by_cases hc : canBeReplacedNow S.kind a
        (TypedFolder.prepareToReplace S.kind (TypedFolder.setReplacement v o)) = true
    · rw [if_pos hc]
      exact hp.replaceNow hv
    · rw [if_neg hc]
      exact hp
  · rw [if_neg hi]
    exact h.setReplacement hv hi

theorem Sound.reread (h : Sound S n o) (hkey : S.key e = n)
    (hr : reread S a e o = some o') : Sound S n o' := by
  rw [TypedFolder.reread] at hr
  split at hr
  · exact h.marked.remove hr
  · rename_i hgone
    split at hr
    · cases hr
      exact h
    · split at hr
      · cases hr
        exact h
      · cases hr
        exact h.replaceOrWait (loaded_load (Bool.eq_false_of_not_eq_true hgone) hkey)

theorem Sound.clearForceFileReread (h : Sound S n o) : Sound S n o.clearForceFileReread := by
  rw [Object.clearForceFileReread]
  split
  · rename_i v hv
    obtain ⟨hk, hb, hs, hf⟩ := h.loaded v hv
    refine ⟨h.key, ?_, ?_⟩
    · intro w hw
      cases hw
      exact ⟨hk, hb, hs, hf⟩
    · intro w hw
      cases hw
      exact h.prepared v hv
  · rename_i hv
    exact Sound.of_key h.key hv

theorem Sound.onFilePresent (h : Sound S n o) (hkey : S.key e = n)
    (hr : onFilePresent S a e o = some o') : Sound S n o' := by
  rw [TypedFolder.onFilePresent] at hr
  split at hr
  · cases hr
    exact h.marked
  · split at hr
    · exact h.marked.reread hkey hr
    · split at hr
      · exact h.marked.clearForceFileReread.reread hkey hr
      · cases hr
        exact h.marked

theorem sound_onFileAdded (hkey : S.key e = n) (hr : onFileAdded S a e = some o') :
    Sound S n o' := by
  rw [onFileAdded] at hr
  split at hr
  · cases hr
  · cases hr
    refine Sound.new ?_
    rw [load_name]
    exact hkey

theorem Sound.onFileMissing (h : Sound S n o) (hr : onFileMissing S a o = some o') :
    Sound S n o' := by
  rw [TypedFolder.onFileMissing] at hr
  split at hr
  · exact h.marked.remove hr
  · cases hr
    exact h.marked

theorem Sound.onBaseFileChanged {x : Option Object} {d : Option Entry}
    (h : ∀ o, x = some o → Sound S n o) (hkey : ∀ e, d = some e → S.key e = n)
    (hr : onBaseFileChanged S a d x = some o') : Sound S n o' := by
  cases d with
  | some e =>
      cases x with
      | some o => exact (h o rfl).onFilePresent (hkey e rfl) hr
      | none => exact sound_onFileAdded (hkey e rfl) hr
  | none =>
      cases x with
      | some o => exact (h o rfl).onFileMissing hr
      | none => cases hr

theorem Sound.checkForReplacing {actNow : Bool} (h : Sound S n o) (hv : Loaded S n v)
    (hr : (checkForReplacing k a actNow v o).1 = some o') : Sound S n o' := by
  rw [TypedFolder.checkForReplacing] at hr
  split at hr
  · split at hr
    · cases hp : TypedFolder.replaceNow k a v o with
      | none =>
          rw [hp] at hr
          cases hr
          exact h
      | some p =>
          rw [hp] at hr
          cases hr
          rw [replaceNow_some hp]
          exact h.placed hv.key
    · cases hr
      exact h
  · cases hr
    exact h

theorem Sound.checkForRemoving {actNow : Bool} (h : Sound S n o)
    (hr : (checkForRemoving k a actNow o).1 = some o') : Sound S n o' := by
  rw [TypedFolder.checkForRemoving] at hr
  split at hr
  · split at hr
    · cases hp : TypedFolder.removeNow k a o with
      | none =>
          rw [hp] at hr
          cases hr
      | some p =>
          rw [hp] at hr
          cases hr
          exact h.removeNow hp
    · cases hr
      exact h
  · cases hr
    exact h

/-- A replacement that is not initialized has not marked the old object. -/
theorem Sound.not_toBeRemoved (h : Sound S n o) (hv : o.replacement = some v)
    (hi : v.state ≠ .initialized) : o.isToBeRemoved = false := by
  refine Bool.eq_false_of_not_eq_true ?_
  intro ht
  exact hi ((h.prepared v hv).mp ht).2

theorem Loaded.initializeAgain (h : Loaded S n v) : Loaded S n (v.initializeAgain a) := by
  rw [Version.initializeAgain]
  split
  · refine ⟨h.key, h.hasBaseFile, Or.inr (Or.inr rfl), ?_⟩
    intro hu
    cases hu
  · exact h

theorem Sound.check {actNow : Bool} (h : Sound S n o)
    (hr : (checkForReplacingOrRemoving S.kind a actNow o).1 = some o') : Sound S n o' := by
  rw [checkForReplacingOrRemoving] at hr
  split at hr
  · rename_i v hv
    have hload := h.loaded v hv
    split at hr
    · exact h.checkForReplacing hload hr
    · rename_i hi
      have ho := h.not_toBeRemoved hv hi
      dsimp only at hr
      split at hr
      · rename_i hi'
        exact (h.prepareToReplace hload.initializeAgain hi' ho).checkForReplacing
          hload.initializeAgain hr
      · rename_i hi'
        cases hr
        refine ⟨h.key, ?_, ?_⟩
        · intro w hw
          cases hw
          exact hload.initializeAgain
        · intro w hw
          cases hw
          constructor
          · intro ht
            cases ho.symm.trans ht
          · rintro ⟨_, hwi⟩
            exact absurd hwi hi'
  · exact h.checkForRemoving hr

theorem Sound.handleCandidate (h : Sound S n o) (hr : handleCandidate k a o = some o') :
    Sound S n o' := by
  rw [TypedFolder.handleCandidate] at hr
  split at hr
  · rename_i v hv
    split at hr
    · cases hr
      exact h.replaceNow (h.loaded v hv)
    · split at hr
      · exact h.removeNow hr
      · cases hr
        exact h
  · split at hr
    · exact h.removeNow hr
    · cases hr
      exact h

/-! ## A file that stays -/

theorem replaceOrWait_of_permits (hp : Permits a) (hi : v.state = .initialized) :
    replaceOrWait S a v o
      = placed S.kind v (prepareToReplace S.kind (setReplacement v o)) := by
  have hv : (prepareToReplace S.kind (setReplacement v o)).replacement = some v := by
    rw [prepareToReplace]
    split
    · rfl
    · rfl
  have hc := canBeReplacedNow_of_permits (k := S.kind) hp hv hi fun hk => by
    rw [prepareToReplace, if_pos hk]
  rw [replaceOrWait, if_pos hi, if_pos hc, replaceNow_eq hp.2.2]
  rfl

theorem prepareToReplace_of_takesOver (hk : k.takesOver = true) : prepareToReplace k o = o := by
  rw [prepareToReplace, not_prepares_of_takesOver hk]
  rfl

theorem idle_replaceOrWait (hp : Permits a)
    (hv : v.state ≠ .initialized → v.baseFileXc ≠ none) : Idle (replaceOrWait S a v o) := by
  by_cases hi : v.state = .initialized
  · rw [replaceOrWait_of_permits hp hi]
    refine placed_idle ?_
    intro hk
    rw [prepareToReplace_of_takesOver hk]
    rfl
  · rw [replaceOrWait, if_neg hi]
    refine ⟨rfl, ?_⟩
    intro w hw
    cases hw
    exact ⟨hv hi, hi⟩

theorem made_replaceOrWait (hp : Permits a) (hm : Made S e v) :
    Made S e (replaceOrWait S a v o).current := by
  by_cases hi : v.state = .initialized
  · rw [replaceOrWait_of_permits hp hi]
    refine made_placed hm ?_
    intro hu
    cases hi.symm.trans hu
  · rw [replaceOrWait, if_neg hi]
    exact hm

/-- The file of the entry can be read, and its name is one of an object. -/
structure Legal (S : Subsystem) (e : Entry) : Prop where
  isAging : e.isAging = false
  isGone : e.isGone = false
  nameError : S.nameError e.name = none

/-- Nothing refuses: what is read fails with an error or not at all, and an object from the
    central configuration gives way to a local file only if its own has gone. -/
structure Accepts (a : Answers) (e : Entry) (o : Object) : Prop where
  permits : Permits a
  initializing : a.initializing ≠ .fails
  central : o.file.isCentral = true → e.isCentral = false → a.pathExists = false

theorem reread_of_accepts (he : Legal S e) (ha : Accepts a e o) :
    ∃ o', reread S a e o = some o' ∧ Idle o' ∧ Made S e o'.current := by
  have hcentral : ¬(o.file.isCentral && !e.isCentral && a.pathExists) = true := by
    rw [Bool.and_eq_true, Bool.and_eq_true, Bool.not_eq_true']
    rintro ⟨⟨ho, hec⟩, hpath⟩
    rw [ha.central ho hec] at hpath
    cases hpath
  refine ⟨replaceOrWait S a (load S a e) o, ?_,
    idle_replaceOrWait ha.permits (load_failed he.isGone ha.initializing),
    made_replaceOrWait ha.permits (made_load he.isGone)⟩
  rw [reread, he.isGone, he.nameError, if_neg Bool.false_ne_true,
    if_neg (by rintro ⟨⟩), if_neg hcentral]

/-- The object shows the file, or the entry brings nothing that was not read. -/
theorem onFilePresent_of_accepts (he : Legal S e) (ha : Accepts a e o) :
    (∃ o', onFilePresent S a e o = some o' ∧ Idle o' ∧ Made S e o'.current)
      ∨ onFilePresent S a e o = some o ∧ o.fileIsRemoved = false
          ∧ o.current.lastWriteTime = e.lastWriteTime ∧ o.current.name = e.name := by
  have hcentral : ∀ p : Object, p.file.isCentral = o.file.isCentral → Accepts a e p :=
    fun p hp => ⟨ha.permits, ha.initializing, fun h => ha.central (hp ▸ h)⟩
  rw [onFilePresent, he.isAging, if_neg Bool.false_ne_true]
  by_cases hnew : o.fileIsRemoved = true
  · rw [if_pos hnew]
    exact Or.inl (reread_of_accepts he (hcentral _ rfl))
  · rw [if_neg hnew]
    have hfalse := Bool.eq_false_of_not_eq_true hnew
    have heq : { o with fileIsRemoved := false } = o := by
      rw [← hfalse]
    rw [heq]
    by_cases hd : fileIsDifferent a e o.current = true
    · rw [if_pos hd]
      refine Or.inl (reread_of_accepts he (hcentral _ ?_))
      rw [Object.clearForceFileReread]
      split
      · rfl
      · rfl
    · rw [if_neg hd]
      refine Or.inr ⟨rfl, hfalse, ?_, ?_⟩
      · by_contra hne
        refine hd ?_
        simp [fileIsDifferent, hne]
      · by_contra hne
        refine hd ?_
        simp [fileIsDifferent, hne]

theorem onFileAdded_of_legal (he : Legal S e) :
    ∃ o', onFileAdded S a e = some o' ∧ Idle o' ∧ Made S e o'.current := by
  refine ⟨Object.new (load S a e), ?_, ⟨rfl, ?_⟩, made_load he.isGone⟩
  · rw [onFileAdded, he.isAging, he.isGone, he.nameError]
    rfl
  · intro w hw
    cases hw

/-! ## A file that is missing -/

/-- The object of a missing file goes, unless it waits already. -/
theorem onFileMissing_of_permits (hp : Permits a) :
    onFileMissing S a o = none
      ∨ onFileMissing S a o = some { o with fileIsRemoved := true }
          ∧ (o.isToBeRemoved = false → o.file.hasBaseFile = false) := by
  rw [onFileMissing]
  dsimp only
  by_cases hc : (o.file.hasBaseFile && !o.isToBeRemoved) = true
  · rw [if_pos hc]
    exact Or.inl (remove_of_permits hp)
  · rw [if_neg hc]
    refine Or.inr ⟨rfl, ?_⟩
    intro ht
    rw [ht, Bool.not_false, Bool.and_true] at hc
    exact Bool.eq_false_of_not_eq_true hc

/-! ## An object that asks -/

/-- A replacement without an error initializes, one with an error does not. -/
def Initializes (a : Answers) (o : Object) : Prop :=
  ∀ v, o.replacement = some v → v.state = .notInitialized →
    (v.baseFileXc = none ↔ a.initializing = .succeeds)

/-- An idle object has nothing to ask for. -/
theorem check_of_idle {actNow : Bool} (h : Idle o) (hi : Initializes a o) :
    checkForReplacingOrRemoving k a actNow o = (some o, false) := by
  obtain ⟨ht, hv⟩ := h
  rw [checkForReplacingOrRemoving]
  split
  · rename_i v hov
    obtain ⟨hxc, hstate⟩ := hv v hov
    have hagain : v.initializeAgain a = v := by
      rw [Version.initializeAgain, if_neg]
      rintro ⟨hn, hs⟩
      exact hxc ((hi v hov hn).mpr hs)
    rw [if_neg hstate]
    dsimp only
    rw [hagain, if_neg hstate, ← hov]
  · rw [checkForRemoving, ht]
    rfl

/-- What the object has asked for is done, or it is a candidate for it. -/
def Asked (r : Option Object × Bool) : Prop :=
  (∀ o, r.1 = some o → Idle o) ∨ r.2 = true ∧ ∀ o, r.1 = some o → Ready o

theorem ready_of_initialized (hv : o.replacement = some v) (hi : v.state = .initialized) :
    Ready o := by
  intro w hw _
  cases hv.symm.trans hw
  exact hi

theorem Sound.not_toBeRemoved_of_takesOver (h : Sound S n o) (hv : o.replacement = some v)
    (hk : S.kind.takesOver = true) : o.isToBeRemoved = false := by
  refine Bool.eq_false_of_not_eq_true ?_
  intro ht
  have hp := ((h.prepared v hv).mp ht).1
  rw [not_prepares_of_takesOver hk] at hp
  cases hp

theorem Sound.canBeReplacedNow (h : Sound S n o) (hp : Permits a) (hv : o.replacement = some v)
    (hi : v.state = .initialized) : canBeReplacedNow S.kind a o = true :=
  canBeReplacedNow_of_permits hp hv hi fun hk => (h.prepared v hv).mpr ⟨hk, hi⟩

theorem Sound.placed_idle (h : Sound S n o) (hv : o.replacement = some v) :
    Idle (FileReplacement.placed S.kind v o) :=
  FileReplacement.placed_idle (h.not_toBeRemoved_of_takesOver hv)

theorem checkForReplacing_of_permits {actNow : Bool} (h : Sound S n o) (hp : Permits a)
    (hv : o.replacement = some v) (hi : v.state = .initialized) :
    checkForReplacing S.kind a actNow v o
      = if actNow then (some (placed S.kind v o), false) else (some o, true) := by
  rw [checkForReplacing, if_pos (h.canBeReplacedNow hp hv hi), replaceNow_eq hp.2.2]

theorem asked_checkForReplacing {actNow : Bool} (h : Sound S n o) (hp : Permits a)
    (hv : o.replacement = some v) (hi : v.state = .initialized) :
    Asked (checkForReplacing S.kind a actNow v o) := by
  rw [checkForReplacing_of_permits h hp hv hi]
  cases actNow with
  | true =>
      refine Or.inl ?_
      intro o' ho'
      cases ho'
      exact h.placed_idle hv
  | false =>
      refine Or.inr ⟨rfl, ?_⟩
      intro o' ho'
      cases ho'
      exact ready_of_initialized hv hi

/-- The replacement that is initialized at last. -/
theorem prepareToReplace_replacement {w : Version} (hw : o.replacement = some w) :
    (prepareToReplace k o).replacement = some w := by
  rw [prepareToReplace]
  split
  · exact hw
  · exact hw

theorem asked_check {actNow : Bool} (h : Sound S n o) (hp : Permits a)
    (hi : Initializes a o) : Asked (checkForReplacingOrRemoving S.kind a actNow o) := by
  by_cases hidle : Idle o
  · rw [check_of_idle hidle hi]
    refine Or.inl ?_
    intro o' ho'
    cases ho'
    exact hidle
  · cases hov : o.replacement with
    | none =>
        have ht : o.isToBeRemoved = true := by
          refine Bool.eq_true_of_not_eq_false ?_
          intro hf
          refine hidle ⟨hf, ?_⟩
          intro v hv
          cases hov.symm.trans hv
        rw [checkForReplacingOrRemoving, hov]
        dsimp only
        rw [checkForRemoving, ht, canBeRemovedNow_of_permits hp ht, removeNow_of_permits hp]
        cases actNow with
        | true =>
            refine Or.inl ?_
            intro o' ho'
            cases ho'
        | false =>
            refine Or.inr ⟨rfl, ?_⟩
            intro o' ho' v hv
            cases ho'
            cases hov.symm.trans hv
    | some v =>
        rw [checkForReplacingOrRemoving, hov]
        dsimp only
        by_cases hstate : v.state = .initialized
        · rw [if_pos hstate]
          exact asked_checkForReplacing h hp hov hstate
        · have ht := h.not_toBeRemoved hov hstate
          have hxc : v.baseFileXc = none := by
            by_contra hxc
            refine hidle ⟨ht, ?_⟩
            intro w hw
            cases hov.symm.trans hw
            exact ⟨hxc, hstate⟩
          have hnot : v.state = .notInitialized := by
            rcases (h.loaded v hov).state with hs | hs | hs
            · exact absurd hxc ((h.loaded v hov).failed hs)
            · exact hs
            · exact absurd hs hstate
          have hagain : (v.initializeAgain a).state = .initialized := by
            rw [Version.initializeAgain, if_pos ⟨hnot, (hi v hov hnot).mp hxc⟩]
          rw [if_neg hstate, if_pos hagain]
          refine asked_checkForReplacing
            (h.prepareToReplace (h.loaded v hov).initializeAgain hagain ht) hp
            (prepareToReplace_replacement rfl) hagain

/-! ## A candidate -/

/-- A process class is no candidate with a replacement that is not initialized: it would
    be replaced by it. -/
def Initialized (k : Kind) (o : Object) : Prop :=
  k = .processClass → ∀ v, o.replacement = some v → v.state = .initialized

theorem Initialized.canBeReplacedNow (h : Initialized k o) (hv : o.replacement = some v)
    (hi : v.state ≠ .initialized) : canBeReplacedNow k a o = false :=
  canBeReplacedNow_of_not_initialized (fun hk => hi (h hk v hv)) hv hi

theorem handle_of_idle (h : Idle o) (hk : Initialized k o) : handleCandidate k a o = some o := by
  rw [handleCandidate, h.1]
  split
  · rename_i v hv
    rw [hk.canBeReplacedNow hv (h.2 v hv).2]
    rfl
  · rfl

/-- A candidate that is ready is handled. -/
theorem idle_handle (h : Sound S n o) (hp : Permits a) (hk : Initialized S.kind o)
    (hr : Ready o) (ho : handleCandidate S.kind a o = some o') : Idle o' := by
  by_cases hidle : Idle o
  · rw [handle_of_idle hidle hk] at ho
    cases ho
    exact hidle
  · rw [handleCandidate] at ho
    cases hov : o.replacement with
    | none =>
        have ht : o.isToBeRemoved = true := by
          refine Bool.eq_true_of_not_eq_false ?_
          intro hf
          refine hidle ⟨hf, ?_⟩
          intro v hv
          cases hov.symm.trans hv
        rw [hov] at ho
        dsimp only at ho
        rw [ht, canBeRemovedNow_of_permits hp ht, removeNow_of_permits hp] at ho
        cases ho
    | some v =>
        have hi : v.state = .initialized := by
          by_contra hi
          refine hidle ⟨h.not_toBeRemoved hov hi, ?_⟩
          intro w hw
          cases hov.symm.trans hw
          exact ⟨fun hxc => hi (hr v hov hxc), hi⟩
        rw [hov] at ho
        dsimp only at ho
        rw [if_pos (h.canBeReplacedNow hp hov hi), replaceNow_eq hp.2.2] at ho
        cases ho
        exact h.placed_idle hov

/-! ## What was read stays read -/

theorem Matches.placed (hm : Matches S e o) (h : Sound S n o) (hkey : S.key e = n)
    (hv : o.replacement = some v) (hi : v.state = .initialized) :
    Matches S e (placed S.kind v o) := by
  have hcurrent : o.current = v := by
    rw [Object.current, hv]
    rfl
  intro ht hname
  rw [placed_current] at ht hname
  rw [placed_lastWriteTime] at ht
  have hvname : v.name = e.name := by
    rw [FileReplacement.placed] at hname
    by_cases hk : S.kind.takesOver = true
    · -- these subsystems do not normalize, so that the object has the name of the entry
      have hid := S.normalizedName_eq hk
      calc v.name = S.normalizedName v.name := (hid v.name).symm
        _ = n := (h.loaded v hv).key
        _ = S.normalizedName e.name := hkey.symm
        _ = e.name := hid e.name
    · rw [if_neg hk] at hname
      exact hname
  rw [← hcurrent] at ht hvname
  rcases hm ht hvname with ⟨_, hnone⟩ | hmade
  · cases hv.symm.trans hnone
  · rw [hcurrent] at hmade
    refine Or.inr (made_placed hmade ?_)
    intro hu
    cases hi.symm.trans hu

theorem Matches.checkForReplacing {actNow : Bool} (hm : Matches S e o) (h : Sound S n o)
    (hkey : S.key e = n) (hv : o.replacement = some v) (hi : v.state = .initialized)
    (hr : (checkForReplacing S.kind a actNow v o).1 = some o') : Matches S e o' := by
  rw [TypedFolder.checkForReplacing] at hr
  split at hr
  · split at hr
    · cases hp : replaceNow S.kind a v o with
      | none =>
          rw [hp] at hr
          cases hr
          exact hm
      | some p =>
          rw [hp] at hr
          cases hr
          rw [replaceNow_some hp]
          exact hm.placed h hkey hv hi
    · cases hr
      exact hm
  · cases hr
    exact hm

theorem Matches.prepareToReplace (hm : Matches S e o) :
    Matches S e (prepareToReplace S.kind o) := by
  rw [TypedFolder.prepareToReplace]
  split
  · exact hm
  · exact hm

/-- Its initialization changes nothing of what a replacement has read. -/
theorem Matches.initialized (hm : Matches S e o) (hv : o.replacement = some v) :
    Matches S e { o with replacement := some (v.initializeAgain a) } := by
  have hcurrent : o.current = v := by
    rw [Object.current, hv]
    rfl
  intro ht hname
  by_cases hn : v.state = .notInitialized ∧ a.initializing = .succeeds
  · have hagain : v.initializeAgain a = { v with state := .initialized } := if_pos hn
    rw [hagain] at ht hname ⊢
    have hold := hm (hcurrent ▸ ht) (hcurrent ▸ hname)
    rw [hcurrent] at hold
    rcases hold with ⟨_, hnone⟩ | ⟨hlast, hbytes | ⟨hu, _⟩⟩
    · cases hv.symm.trans hnone
    · exact Or.inr ⟨hlast, Or.inl hbytes⟩
    · cases hn.1.symm.trans hu
  · have hagain : v.initializeAgain a = v := if_neg hn
    rw [hagain] at ht hname ⊢
    have hold := hm (hcurrent ▸ ht) (hcurrent ▸ hname)
    rw [hcurrent] at hold
    rcases hold with ⟨_, hnone⟩ | hmade
    · cases hv.symm.trans hnone
    · exact Or.inr hmade

theorem Matches.check {actNow : Bool} (hm : Matches S e o) (h : Sound S n o)
    (hkey : S.key e = n) (hr : (checkForReplacingOrRemoving S.kind a actNow o).1 = some o') :
    Matches S e o' := by
  rw [checkForReplacingOrRemoving] at hr
  split at hr
  · rename_i v hv
    split at hr
    · rename_i hi
      exact hm.checkForReplacing h hkey hv hi hr
    · rename_i hi
      have hload := (h.loaded v hv).initializeAgain (a := a)
      dsimp only at hr
      split at hr
      · rename_i hi'
        exact (hm.initialized hv).prepareToReplace.checkForReplacing
          (h.prepareToReplace hload hi' (h.not_toBeRemoved hv hi)) hkey
          (prepareToReplace_replacement rfl) hi' hr
      · cases hr
        exact hm.initialized hv
  · rw [checkForRemoving] at hr
    split at hr
    · split at hr
      · cases hp : removeNow S.kind a o with
        | none =>
            rw [hp] at hr
            cases hr
        | some p =>
            rw [hp] at hr
            cases hr
            rw [removeNow] at hp
            split at hp
            · cases hp
            · cases hp
              exact hm
      · cases hr
        exact hm
    · cases hr
      exact hm

theorem handle_cases (hk : Initialized k o) (ho : handleCandidate k a o = some o') :
    o' = o ∨ ∃ v, o.replacement = some v ∧ v.state = .initialized ∧ o' = placed k v o := by
  have hremove : removeNow k a o = some o' → o' = o := by
    intro hr
    rw [removeNow] at hr
    split at hr
    · cases hr
    · exact (Option.some.inj hr).symm
  rw [handleCandidate] at ho
  split at ho
  · rename_i v hv
    split at ho
    · rename_i hc
      have hi : v.state = .initialized := by
        by_contra hi
        rw [hk.canBeReplacedNow hv hi] at hc
        cases hc
      cases ho
      cases hp : replaceNow k a v o with
      | none => exact Or.inl rfl
      | some p => exact Or.inr ⟨v, hv, hi, replaceNow_some hp⟩
    · split at ho
      · exact Or.inl (hremove ho)
      · exact Or.inl (Option.some.inj ho).symm
  · split at ho
    · exact Or.inl (hremove ho)
    · exact Or.inl (Option.some.inj ho).symm

theorem Matches.handleCandidate (hm : Matches S e o) (h : Sound S n o) (hkey : S.key e = n)
    (hk : Initialized S.kind o) (ho : handleCandidate S.kind a o = some o') :
    Matches S e o' := by
  rcases handle_cases hk ho with rfl | ⟨v, hv, hi, rfl⟩
  · exact hm
  · exact hm.placed h hkey hv hi

theorem Initialized.handleCandidate (hk : Initialized k o)
    (ho : handleCandidate k a o = some o') : Initialized k o' := by
  rcases handle_cases hk ho with rfl | ⟨v, hv, hi, rfl⟩
  · exact hk
  · intro _ w hw
    rw [placed_replacement] at hw
    cases hw

/-! ## What is not removed -/

theorem Idle.congr {o o' : Object} (h : Idle o) (ht : o'.isToBeRemoved = o.isToBeRemoved)
    (hv : o'.replacement = o.replacement) : Idle o' := by
  refine ⟨ht.trans h.1, ?_⟩
  intro v hov
  exact h.2 v (hv ▸ hov)

theorem Idle.kept (h : Idle o) : Kept o := by
  intro ht
  cases h.1.symm.trans ht

theorem kept_of_replacement (hv : o.replacement = some v) : Kept o := by
  intro _ hnone
  cases hv.symm.trans hnone

theorem Kept.idle (h : Kept o) (ho : o.replacement = none) : Idle o := by
  refine ⟨Bool.eq_false_of_not_eq_true fun ht => h ht ho, ?_⟩
  intro v hv
  cases ho.symm.trans hv

theorem kept_checkForReplacing {actNow : Bool} (h : Sound S n o) (hp : Permits a)
    (hv : o.replacement = some v) (hi : v.state = .initialized) :
    ∃ o', (checkForReplacing S.kind a actNow v o).1 = some o' ∧ Kept o' := by
  rw [checkForReplacing_of_permits h hp hv hi]
  cases actNow with
  | true => exact ⟨_, rfl, (h.placed_idle hv).kept⟩
  | false => exact ⟨o, rfl, kept_of_replacement hv⟩

theorem Kept.check {actNow : Bool} (hkept : Kept o) (h : Sound S n o) (hp : Permits a)
    (hi : Initializes a o) :
    ∃ o', (checkForReplacingOrRemoving S.kind a actNow o).1 = some o' ∧ Kept o' := by
  cases hov : o.replacement with
  | none => exact ⟨o, by rw [check_of_idle (hkept.idle hov) hi], hkept⟩
  | some v =>
      rw [checkForReplacingOrRemoving, hov]
      dsimp only
      split
      · rename_i hstate
        exact kept_checkForReplacing h hp hov hstate
      · rename_i hstate
        split
        · rename_i hagain
          exact kept_checkForReplacing
            (h.prepareToReplace (h.loaded v hov).initializeAgain hagain
              (h.not_toBeRemoved hov hstate)) hp (prepareToReplace_replacement rfl) hagain
        · exact ⟨_, rfl, kept_of_replacement rfl⟩

theorem Kept.handleCandidate (hkept : Kept o) (h : Sound S n o) (hp : Permits a)
    (hk : Initialized S.kind o) :
    ∃ o', handleCandidate S.kind a o = some o' ∧ Kept o' := by
  cases hov : o.replacement with
  | none => exact ⟨o, handle_of_idle (hkept.idle hov) hk, hkept⟩
  | some v =>
      by_cases hi : v.state = .initialized
      · refine ⟨placed S.kind v o, ?_, (h.placed_idle hov).kept⟩
        rw [TypedFolder.handleCandidate, hov]
        dsimp only
        rw [if_pos (h.canBeReplacedNow hp hov hi), replaceNow_eq hp.2.2]
        rfl
      · refine ⟨o, ?_, hkept⟩
        rw [TypedFolder.handleCandidate, hov]
        dsimp only
        rw [hk.canBeReplacedNow hov hi, h.not_toBeRemoved hov hi]
        rfl

end FileReplacement
