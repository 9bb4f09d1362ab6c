import SchedulerEngine.RunInvariantProofs
import SchedulerEngine.ExecutionProofs
import Mathlib.Order.MinMax
import Mathlib.Data.Int.Order.Basic

/-! # A file order source

    `Directory_file_order_source` looks at its directory again and again, itself or
    by an agent.  What wakes it is its timer, the answer of the agent, or an order
    request.  It starts to watch when its job chain gets active and when its process
    class is loaded; a process class that is only in its folder counts as complete,
    too, so that it may start twice. -/

set_option linter.unusedSectionVars false

namespace FileOrderSource

open RunInvariant Execution Execution.Exec

/-! ## Data -/

/-- `double_time_max`, in milliseconds. -/
def doubleTimeMax : Int := 2147483647000

/-- `minimum_delay`. -/
def minimumDelay : Int := 1000

/-- What is configured. -/
structure Settings where
  /-- `_process_class_path` is not empty. -/
  hasProcessClass : Bool
  repeatDelay : Int
  /-- `_delay_after_error`, if it is not eternal. -/
  delayAfterError : Option Int
  untouchedIsAllowed : Bool

/-- The process class, as far as its folder knows it. -/
inductive ClassState where
  | absent
  /-- Its file is in the folder, and has errors. -/
  | erroneous
  | loaded
deriving DecidableEq

structure Source where
  isActive : Bool
  isWatching : Bool
  expectingRequestOrder : Bool
  inDirectoryReadResultCall : Bool
  remoteScheduler : String
  /-- `_next_gmtime`. -/
  timer : Int
  /-- `_new_files` from `_new_files_index` on. -/
  newFiles : List String
  directoryError : Bool
  lastContinue : Int
  newFilesTime : Int
  /-- `_fileOrderSourceClientJ`, and whether it is in a call. -/
  client : Option Bool
  /-- Answers of the agent that wait for `on_call`; `none` is a failure. -/
  answers : List (Option (List String))
  processClass : ClassState
  /-- `remote_scheduler_address` of the process class. -/
  address : String
  /-- What this source adds to `_file_order_source_count`. -/
  fileOrderSourceCount : Int
  /-- `assert( !_is_watching )` has failed.  The code does not know it. -/
  startedTwice : Bool
deriving DecidableEq

inductive Failure where
  | assertion (text : String)
  | missingProcessClass
  | client
  | database
deriving DecidableEq

/-- What the source finds when it is called. -/
structure Moment where
  now : Int
  fileExists : String → Bool
  /-- `order_id_space_contains_order_id`. -/
  isKnown : String → Bool
  /-- The job of `_next_node` is initialized. -/
  nextJobIsReady : Bool
  /-- `CppFileOrderSourceClientJ::apply` throws. -/
  clientFails : Bool
  /-- `read_known_orders` throws. -/
  databaseFails : Bool

abbrev Method := Exec Source Failure

/-! ## The timer -/

namespace Source

def setAsyncNextGmtime (t : Int) (s : Source) : Source :=
  { s with timer := min t doubleTimeMax }

def setAsyncDelay (now delay : Int) (s : Source) : Source :=
  s.setAsyncNextGmtime
    (if doubleTimeMax ≤ delay then doubleTimeMax else if delay ≤ 0 then 0 else now + delay)

def asyncWake (s : Source) : Source := s.setAsyncNextGmtime 0

def asyncNextGmtimeReached (now : Int) (s : Source) : Bool :=
  s.timer ≤ 0 || s.timer < doubleTimeMax && s.timer ≤ now

def clearNewFiles (s : Source) : Source := { s with newFiles := [] }

def closeAgentConnection (s : Source) : Source :=
  if s.client.isSome then { s with client := none, inDirectoryReadResultCall := false } else s

end Source

/-- `delay_after_error`. -/
def Settings.delay (c : Settings) : Int := c.delayAfterError.getD c.repeatDelay

def repeatAfterDelay (c : Settings) (m : Moment) (duration : Int) : Method Unit := do
  let s ← get
  require s.isWatching (.assertion "_is_watching")
  let delay := if s.directoryError then c.delay
    else if s.expectingRequestOrder then doubleTimeMax
    else duration
  modify (Source.setAsyncDelay m.now (max (s.lastContinue + minimumDelay - m.now) delay))

/-! ## Watching -/

/-- `process_class_subsystem()->process_class(_process_class_path)`. -/
def findProcessClass : Method Unit := do
  let s ← get
  require (s.processClass ≠ .absent) .missingProcessClass

def processClassRemoteScheduler (c : Settings) : Method String :=
  if c.hasProcessClass then do
    findProcessClass
    let s ← get
    pure s.address
  else pure ""

def startWatching (c : Settings) (m : Moment) : Method Unit := do
  modify fun s => { s with startedTwice := s.startedTwice || s.isWatching }
  let s ← get
  require (!s.isWatching) (.assertion "!_is_watching")
  onlyIf (c.hasProcessClass = true) do
    findProcessClass
    modify fun s => { s with fileOrderSourceCount := s.fileOrderSourceCount + 1 }
  onlyIf (m.nextJobIsReady = true) (modify fun s => { s with expectingRequestOrder := true })
  let r ← processClassRemoteScheduler c
  modify fun s => { s with remoteScheduler := r }
  onlyIf (r ≠ "") do
    require (!m.clientFails) .client
    modify fun s => { s with client := some false }
  modify fun s => { s with isWatching := true }
  repeatAfterDelay c m 0

def stopWatching (c : Settings) : Method Unit := do
  let s ← get
  onlyIf (s.isWatching = true) do
    modify fun s => s.closeAgentConnection.clearNewFiles
    onlyIf (c.hasProcessClass = true) do
      findProcessClass
      modify fun s => { s with fileOrderSourceCount := s.fileOrderSourceCount - 1 }
    modify fun s => { s with isWatching := false }
    modify (Source.setAsyncNextGmtime doubleTimeMax)

def tryStartWatching (c : Settings) (m : Moment) : Method Unit := do
  let s ← get
  onlyIf ((!c.hasProcessClass || s.processClass ≠ .absent) = true) (startWatching c m)

def restartWatching (c : Settings) (m : Moment) : Method Unit := do
  stopWatching c
  startWatching c m

def checkAndHandleProcessClassReplacement (c : Settings) (m : Moment) : Method Bool := do
  let s ← get
  require s.isWatching (.assertion "_is_watching")
  let r ← processClassRemoteScheduler c
  if r = s.remoteScheduler then pure false
  else do
    restartWatching c m
    pure true

/-! ## Reading the directory -/

/-- `has_new_file`: files that are gone, or have an order already, are skipped. -/
def Source.skipOldFiles (m : Moment) (s : Source) : Source :=
  { s with newFiles := s.newFiles.dropWhile fun path =>
      s.remoteScheduler = "" && !m.fileExists path || m.isKnown path }

def hasNewFile (m : Moment) : Method Bool := do
  modify (Source.skipOldFiles m)
  let s ← get
  pure !s.newFiles.isEmpty

/-- The tip goes to the order queue. -/
def onDirectoryRead (c : Settings) (m : Moment) : Method Unit := do
  let _ ← (if c.untouchedIsAllowed then hasNewFile m else pure false : Method Bool)
  pure ()

/-- The names are read only if the buffer is empty; `none` is an error. -/
def Source.readDirectory (m : Moment) (files : Option (List String)) (s : Source) : Source :=
  if s.newFiles.isEmpty then
    { s with
      newFiles := files.getD []
      newFilesTime := m.now
      directoryError := files.isNone }
  else { s with directoryError := false }

/-- `start_read_new_files_from_agent`. -/
def startReadNewFilesFromAgent (m : Moment) : Method Unit := do
  let s ← get
  onlyIf (s.inDirectoryReadResultCall = false) do
    require (!m.databaseFails) .database
    -- the client does not take a second call
    require (s.client = some false) .client
    modify fun s => { s with client := some true, inDirectoryReadResultCall := true }

/-- `async_continue_`. -/
def asyncContinue (c : Settings) (m : Moment) (files : Option (List String)) : Method Unit := do
  modify fun s => { s with lastContinue := m.now }
  let s ← get
  onlyIf (s.isWatching = true) do
    let _ ← checkAndHandleProcessClassReplacement c m
    let s ← get
    if s.remoteScheduler ≠ "" then startReadNewFilesFromAgent m
    else do
      modify (Source.readDirectory m files)
      onDirectoryRead c m
      repeatAfterDelay c m c.repeatDelay

/-- `on_call(Directory_read_result_call)`. -/
def onDirectoryReadResultCall (c : Settings) (m : Moment) (answer : Option (List String)) :
    Method Unit := do
  let s ← get
  require s.isWatching (.assertion "_is_watching")
  modify fun s => ({ s with inDirectoryReadResultCall := false } : Source).clearNewFiles
  let replaced ← checkAndHandleProcessClassReplacement c m
  let s ← get
  onlyIf (replaced = false) do
    onlyIf (answer.isSome = true) do
      modify fun s => { s with newFiles := answer.getD [] }
      onDirectoryRead c m
    modify fun s => { s with directoryError := answer.isNone, newFilesTime := m.now }
  repeatAfterDelay c m
    (if replaced = false ∧ answer = some [] then s.newFilesTime + c.repeatDelay - m.now else 100)

/-! ## Orders -/

def requestOrder (m : Moment) : Method Bool := do
  let s ← get
  if !s.isWatching then pure false
  else if ← hasNewFile m then pure true
  else do
    onlyIf ((s.expectingRequestOrder || s.asyncNextGmtimeReached m.now) = true)
      (modify fun s => { s.asyncWake with expectingRequestOrder := false })
    pure false

def withdrawOrderRequest : Method Unit :=
  modify fun s => { s with expectingRequestOrder := true }.setAsyncNextGmtime doubleTimeMax

/-- `fetch_and_occupy_order`: the first file that gives an order, and those before
    it, leave the buffer. -/
def fetchAndOccupyOrder (givesOrder : String → Bool) : Method (Option String) := do
  let s ← get
  if s.isWatching then do
    modify fun s => { s with
      newFiles := (s.newFiles.dropWhile fun path => !givesOrder path).tail
      expectingRequestOrder := s.expectingRequestOrder || s.remoteScheduler ≠ "" }
    pure (s.newFiles.find? givesOrder)
  else pure none

/-! ## Runs -/

inductive Op where
  | activate (m : Moment)
  /-- A file of the process class, with errors, is put into the folder. -/
  | processClassIsErroneous
  | processClassIsLoaded (m : Moment) (address : String)
  /-- Another configuration, with another address. -/
  | processClassIsReplaced (address : String)
  | processClassIsToBeRemoved
  | processClassIsRemoved
  | requestOrder (m : Moment)
  | withdrawOrderRequest
  | fetchAndOccupyOrder (givesOrder : String → Bool)
  /-- The timer is reached, or the directory is signaled to have changed. -/
  | asyncContinue (m : Moment) (byTimer : Bool) (files : Option (List String))
  | agentAnswers (answer : Option (List String))
  | directoryReadResultCall (m : Moment)

def perform (c : Settings) : Op → Method Unit
  | .activate m => do
      modify (Source.setAsyncNextGmtime doubleTimeMax)
      modify fun s => { s with isActive := true }
      tryStartWatching c m
  | .processClassIsErroneous => modify fun s => { s with processClass := .erroneous, address := "" }
  | .processClassIsLoaded m address => do
      modify fun s => { s with processClass := .loaded, address }
      let s ← get
      onlyIf (s.isActive = true) (tryStartWatching c m)
  | .processClassIsReplaced address => modify fun s => { s with address }
  | .processClassIsToBeRemoved => stopWatching c
  | .processClassIsRemoved => modify fun s => { s with processClass := .absent }
  | .requestOrder m => do
      let _ ← requestOrder m
      pure ()
  | .withdrawOrderRequest => withdrawOrderRequest
  | .fetchAndOccupyOrder givesOrder => do
      let _ ← fetchAndOccupyOrder givesOrder
      pure ()
  | .asyncContinue m byTimer files => do
      modify fun s => { s with timer := if byTimer || s.timer = 0 then doubleTimeMax else s.timer }
      asyncContinue c m files
  | .agentAnswers answer => modify fun s => { s with
      client := some false
      answers := s.answers ++ [answer] }
  | .directoryReadResultCall m => do
      let s ← get
      modify fun s => { s with answers := s.answers.tail }
      onDirectoryReadResultCall c m (s.answers.head?.getD none)

/-- What the folder, the agent and the job chain do when. -/
def Allowed (c : Settings) (s : Source) : Op → Prop
  | .activate _ => s.isActive = false
  | .processClassIsErroneous => c.hasProcessClass = true ∧ s.processClass = .absent
  | .processClassIsLoaded _ _ => c.hasProcessClass = true ∧ s.processClass ≠ .loaded
  | .processClassIsReplaced _ => c.hasProcessClass = true ∧ s.processClass = .loaded
  | .processClassIsToBeRemoved => c.hasProcessClass = true ∧ s.processClass ≠ .absent
  | .processClassIsRemoved => c.hasProcessClass = true ∧ s.fileOrderSourceCount = 0
  | .agentAnswers _ => s.client = some true
  | .directoryReadResultCall _ => s.answers ≠ []
  | _ => True

def Step (c : Settings) (s : Source) (op : Op) (s' : Source) : Prop :=
  Allowed c s op ∧ s' = final (perform c op) s

/-- A source that has been constructed. -/
structure Initial (s : Source) : Prop where
  isWatching : s.isWatching = false
  inCall : s.inDirectoryReadResultCall = false
  client : s.client = none
  lastContinue : s.lastContinue = 0
  newFilesTime : s.newFilesTime = 0
  fileOrderSourceCount : s.fileOrderSourceCount = 0
  startedTwice : s.startedTwice = false

/-! ## What is claimed, and when it holds -/

/-- An answer of the agent is outstanding: it is to come, or waits for its call. -/
def AnswerOutstanding (s : Source) : Prop := s.client = some true ∨ s.answers ≠ []

/-- The source never falls asleep, starts once, and is counted while it watches. -/
structure Awake (c : Settings) (s : Source) : Prop where
  awake : s.isWatching = true → s.timer < doubleTimeMax ∨ AnswerOutstanding s ∨
    s.expectingRequestOrder = true ∨ s.newFiles ≠ []
  startedOnce : s.startedTwice = false
  counted : s.fileOrderSourceCount = if c.hasProcessClass && s.isWatching then 1 else 0

/-- The clock is so far from the end of its time that every delay ends before. -/
def Clock (c : Settings) (now : Int) : Prop :=
  0 ≤ now ∧ now + minimumDelay < doubleTimeMax ∧ now + c.repeatDelay < doubleTimeMax ∧
    now + c.delay < doubleTimeMax

/-- No clock at its end, no client that cannot be made, no error of the database. -/
def Undisturbed (c : Settings) (m : Moment) : Prop :=
  Clock c m.now ∧ m.clientFails = false ∧ m.databaseFails = false

/-- The process class is not loaded while the source watches already. -/
def Good (c : Settings) (s : Source) : Op → Prop
  | .activate m => Undisturbed c m
  | .processClassIsLoaded m _ => Undisturbed c m ∧ s.isWatching = false
  | .asyncContinue m _ _ => Undisturbed c m
  | .directoryReadResultCall m => Undisturbed c m
  | _ => True

/-! ## The invariant -/

variable {c : Settings} {m : Moment} {s s' : Source}

/-- What holds of the source at every step of its methods. -/
structure Sound (c : Settings) (s : Source) : Prop where
  startedOnce : s.startedTwice = false
  counted : s.fileOrderSourceCount = if c.hasProcessClass && s.isWatching then 1 else 0
  present : s.isWatching = true → c.hasProcessClass = true → s.processClass ≠ .absent
  active : s.isWatching = true → s.isActive = true
  inCall : s.inDirectoryReadResultCall = true → s.client ≠ none ∧ AnswerOutstanding s
  client : s.isWatching = true → s.remoteScheduler ≠ "" → s.client ≠ none
  closed : s.isWatching = false → s.client = none
  lastContinue : s.lastContinue + minimumDelay < doubleTimeMax
  newFilesTime : s.newFilesTime + c.repeatDelay < doubleTimeMax

/-- Something will wake the source. -/
def WillWake (s : Source) : Prop :=
  s.timer < doubleTimeMax ∨ AnswerOutstanding s ∨ s.expectingRequestOrder = true

structure Inv (c : Settings) (s : Source) : Prop where
  sound : Sound c s
  willWake : s.isWatching = true → WillWake s

/-! ## The timer -/

theorem setAsyncDelay_finite {now delay : Int} (hnow : 0 ≤ now)
    (h : now + delay < doubleTimeMax) : (s.setAsyncDelay now delay).timer < doubleTimeMax := by
  show min (if doubleTimeMax ≤ delay then doubleTimeMax else if delay ≤ 0 then 0 else now + delay)
    doubleTimeMax < doubleTimeMax
  rw [if_neg (by omega), min_lt_iff]
  left
  split
  · decide
  · exact h

/-- The delay ends before the clock does, unless an order request is expected. -/
theorem repeatAfterDelay_spec {d : Int} (hclock : Clock c m.now)
    (hd : m.now + d < doubleTimeMax) :
    Triple (fun s => Sound c s ∧ s.isWatching = true) (repeatAfterDelay c m d)
      (fun _ s => Inv c s ∧ s.isWatching = true) (fun _ _ => False) := by
  refine Triple.get_bind fun s₀ => ?_
  refine Triple.bind (Q := fun _ s => s = s₀ ∧ Sound c s ∧ s.isWatching = true) ?_ fun _ => ?_
  · refine Triple.require (fun _ _ h => h) fun hw s h => ?_
    rw [h.1] at h
    rw [h.2.2] at hw
    cases hw
  · refine Triple.modify fun s h => ?_
    obtain ⟨rfl, hs, hw⟩ := h
    refine ⟨⟨⟨hs.startedOnce, hs.counted, hs.present, hs.active, hs.inCall, hs.client, hs.closed, hs.lastContinue,
      hs.newFilesTime⟩, fun _ => ?_⟩, hw⟩
    -- without an expected order request, the timer is set
    by_cases hexp : s.expectingRequestOrder = true
    · exact Or.inr (Or.inr hexp)
    · left
      refine setAsyncDelay_finite hclock.1 ?_
      have hlast := hs.lastContinue
      obtain ⟨hnow, hmin, hrep, hdelay⟩ := hclock
      rw [if_neg hexp]
      rcases max_choice (s.lastContinue + minimumDelay - m.now)
        (if s.directoryError = true then c.delay else d) with h | h
      · rw [h]
        omega
      · rw [h]
        split
        · exact hdelay
        · exact hd

/-! ## Watching -/

/-- A process class that is there is found. -/
theorem findProcessClass_spec {P : Source → Prop} (h : ∀ s, P s → s.processClass ≠ .absent) :
    Triple P findProcessClass (fun _ => P) (fun _ _ => False) := by
  refine Triple.get_bind fun s₀ => Triple.require (fun _ _ hs => hs.2) fun hw s hs => ?_
  rw [decide_eq_false_iff_not, not_not] at hw
  exact h s hs.2 (by rw [hs.1]; exact hw)

theorem processClassRemoteScheduler_spec {P : Source → Prop}
    (h : ∀ s, P s → c.hasProcessClass = true → s.processClass ≠ .absent) :
    Triple P (processClassRemoteScheduler c) (fun _ => P) (fun _ _ => False) := by
  refine Triple.ite (fun hc => ?_) fun _ => Triple.pure fun _ hs => hs
  refine Triple.bind (findProcessClass_spec fun s hs => h s hs hc) fun _ => ?_
  exact Triple.get_bind fun s₀ => Triple.pure fun _ hs => hs.2

/-- Closing the connection forgets the call. -/
theorem Sound.closeAgentConnection (h : Sound c s) : s.closeAgentConnection =
    { s with client := none, inDirectoryReadResultCall := false } := by
  rw [Source.closeAgentConnection]
  split
  · rfl
  · rename_i hc
    have hnone := Option.not_isSome_iff_eq_none.mp hc
    have hcall : s.inDirectoryReadResultCall = false := by
      by_contra hcall
      exact (h.inCall (eq_true_of_ne_false hcall)).1 hnone
    rw [← hnone, ← hcall]

/-- After `stopWatching` the source does not watch; what is outside is as before. -/
theorem stopWatching_spec {k : ClassState} {a : Bool} :
    Triple (fun s => Sound c s ∧ s.processClass = k ∧ s.isActive = a) (stopWatching c)
      (fun _ s => (Sound c s ∧ s.processClass = k ∧ s.isActive = a) ∧ s.isWatching = false)
      (fun _ _ => False) := by
  refine Triple.get_bind fun s₀ => Triple.onlyIf (fun hw => ?_) fun hw s hs => ?_
  · -- the connection is closed, and the buffer is empty
    refine Triple.bind (Q := fun _ s => s = s₀.closeAgentConnection.clearNewFiles ∧
        Sound c s₀ ∧ s₀.processClass = k ∧ s₀.isActive = a)
      (Triple.modify fun s hs => ⟨by rw [hs.1], by rw [← hs.1]; exact hs.2⟩) fun _ => ?_
    refine Triple.bind (Q := fun _ s => s = { s₀.closeAgentConnection.clearNewFiles with
        fileOrderSourceCount := 0 } ∧ Sound c s₀ ∧ s₀.processClass = k ∧ s₀.isActive = a) ?_ fun _ => ?_
    · refine Triple.onlyIf (fun hc => ?_) fun hc s hs => ?_
      · refine Triple.bind (findProcessClass_spec fun s hs => ?_) fun _ => Triple.modify fun s hs => ?_
        · rw [hs.1, hs.2.1.closeAgentConnection]
          exact hs.2.1.present hw hc
        · have hcount := hs.2.1.counted
          rw [hc, hw] at hcount
          refine ⟨?_, hs.2⟩
          rw [hs.1, hs.2.1.closeAgentConnection, Source.clearNewFiles]
          simp only [hcount]
          rfl
      · have hcount := hs.2.1.counted
        rw [Bool.eq_false_iff.mpr hc, Bool.false_and, if_neg Bool.false_ne_true] at hcount
        refine ⟨?_, hs.2⟩
        rw [hs.1, hs.2.1.closeAgentConnection, Source.clearNewFiles]
        simp only [← hcount]
    · refine Triple.bind (Q := fun _ s => s = { s₀.closeAgentConnection.clearNewFiles with
          fileOrderSourceCount := 0, isWatching := false } ∧ Sound c s₀ ∧ s₀.processClass = k ∧ s₀.isActive = a)
        (Triple.modify fun s hs => ⟨by rw [hs.1], hs.2⟩) fun _ => Triple.modify fun s hs => ?_
      obtain ⟨rfl, hs, hk⟩ := hs
      rw [hs.closeAgentConnection]
      refine ⟨⟨⟨hs.startedOnce, ?_, fun h => ?_, fun h => ?_, fun h => ?_, fun h => ?_,
        fun _ => rfl, hs.lastContinue, hs.newFilesTime⟩, hk⟩, rfl⟩
      · show (0 : Int) = if (c.hasProcessClass && false) = true then 1 else 0
        rw [Bool.and_false, if_neg Bool.false_ne_true]
      · cases h
      · cases h
      · cases h
      · cases h
  · obtain ⟨rfl, hs⟩ := hs
    exact ⟨hs, Bool.eq_false_iff.mpr hw⟩

/-- A source that does not watch, and whose process class is there. -/
structure Ready (c : Settings) (s : Source) : Prop where
  sound : Sound c s
  isWatching : s.isWatching = false
  active : s.isActive = true
  present : c.hasProcessClass = true → s.processClass ≠ .absent

/-- The source that starts is sound as if it watched already. -/
structure Starting (c : Settings) (s : Source) : Prop where
  sound : Sound c { s with isWatching := true, remoteScheduler := "" }
  client : s.client = none

/-- A source that is ready starts. -/
theorem startWatching_spec (hm : Undisturbed c m) :
    Triple (Ready c) (startWatching c m) (fun _ s => Inv c s ∧ s.isWatching = true)
      (fun _ _ => False) := by
  obtain ⟨hclock, hclient, -⟩ := hm
  refine Triple.bind (Q := fun _ => Ready c) (Triple.modify fun s h => ?_) fun _ => ?_
  · refine ⟨⟨?_, h.sound.counted, h.sound.present, h.sound.active, h.sound.inCall, h.sound.client, h.sound.closed,
      h.sound.lastContinue, h.sound.newFilesTime⟩, h.isWatching, h.active, h.present⟩
    show (s.startedTwice || s.isWatching) = false
    rw [h.sound.startedOnce, h.isWatching]
    rfl
  refine Triple.get_bind fun s₀ => Triple.bind (Q := fun _ => Ready c) ?_ fun _ => ?_
  · refine Triple.require (fun _ _ h => h.2) fun hw s h => ?_
    rw [← h.1, h.2.isWatching] at hw
    cases hw
  have hstart : ∀ {n : Int} {s : Source}, Ready c s →
      n = (if c.hasProcessClass = true then 1 else 0) →
      Starting c { s with fileOrderSourceCount := n } := by
    intro n s h hn
    refine ⟨⟨h.sound.startedOnce, ?_, fun _ => h.present, fun _ => h.active, h.sound.inCall, ?_, ?_,
      h.sound.lastContinue, h.sound.newFilesTime⟩, h.sound.closed h.isWatching⟩
    · show n = if (c.hasProcessClass && true) = true then 1 else 0
      rw [Bool.and_true]
      exact hn
    · exact fun _ hr => absurd rfl hr
    · exact fun hw => by cases hw
  have hcount : ∀ {s : Source}, Ready c s → s.fileOrderSourceCount = 0 := by
    intro s h
    have := h.sound.counted
    rw [h.isWatching, Bool.and_false, if_neg Bool.false_ne_true] at this
    exact this
  refine Triple.bind (Q := fun _ => Starting c) ?_ fun _ => ?_
  · refine Triple.onlyIf (fun hc => ?_) fun hc s h => ?_
    · refine Triple.bind (findProcessClass_spec fun s h => h.present hc) fun _ =>
        Triple.modify fun s h => hstart h ?_
      rw [hcount h, if_pos hc]
      rfl
    · refine hstart (n := s.fileOrderSourceCount) h ?_
      rw [hcount h, if_neg hc]
  refine Triple.bind (Q := fun _ => Starting c)
    (Triple.onlyIf (fun _ => Triple.modify fun s h => ?_) fun _ _ h => h) fun _ => ?_
  · exact ⟨⟨h.sound.startedOnce, h.sound.counted, h.sound.present, h.sound.active, h.sound.inCall, h.sound.client,
      h.sound.closed, h.sound.lastContinue, h.sound.newFilesTime⟩, h.client⟩
  refine Triple.bind (processClassRemoteScheduler_spec fun s h => h.sound.present rfl) fun r => ?_
  refine Triple.bind (Q := fun _ s => Starting c s ∧ s.remoteScheduler = r)
    (Triple.modify fun s h => ⟨⟨h.sound, h.client⟩, rfl⟩) fun _ => ?_
  refine Triple.bind (Q := fun _ s => Sound c { s with isWatching := true }) ?_ fun _ => ?_
  · refine Triple.onlyIf (fun hr => ?_) fun hr s h => ?_
    · refine Triple.bind (Q := fun _ s => Starting c s ∧ s.remoteScheduler = r)
        (Triple.require (fun _ _ h => h) fun hf => ?_) fun _ => Triple.modify fun s h => ?_
      · rw [hclient] at hf
        cases hf
      · have hs := h.1.sound
        refine ⟨hs.startedOnce, hs.counted, hs.present, hs.active, fun hcall => ?_, fun _ _ hnone => ?_,
          fun hw => ?_, hs.lastContinue, hs.newFilesTime⟩
        · exact absurd h.1.client (hs.inCall hcall).1
        · cases hnone
        · cases hw
    · have hs := h.1.sound
      refine ⟨hs.startedOnce, hs.counted, hs.present, hs.active, hs.inCall, fun _ hne => ?_, hs.closed,
        hs.lastContinue, hs.newFilesTime⟩
      rw [not_not] at hr
      exact absurd (h.2.trans hr) hne
  refine Triple.bind (Q := fun _ s => Sound c s ∧ s.isWatching = true)
    (Triple.modify fun s h => ⟨h, rfl⟩) fun _ => ?_
  refine repeatAfterDelay_spec hclock ?_
  obtain ⟨hnow, hmin, -, -⟩ := hclock
  rw [minimumDelay] at hmin
  omega

/-- A watching source. -/
structure Watching (c : Settings) (s : Source) : Prop where
  sound : Sound c s
  isWatching : s.isWatching = true

theorem tryStartWatching_spec (hm : Undisturbed c m) :
    Triple (fun s => Sound c s ∧ s.isWatching = false ∧ s.isActive = true) (tryStartWatching c m)
      (fun _ => Inv c) (fun _ _ => False) := by
  refine Triple.get_bind fun s₀ => Triple.onlyIf (fun hcomplete => ?_) fun _ s hs => ?_
  · refine (startWatching_spec hm).consequence (fun s hs =>
      ⟨hs.2.1, hs.2.2.1, hs.2.2.2, fun hc => ?_⟩)
      (fun _ s hs => hs.1) fun _ _ h => h
    rw [hc, Bool.not_true, Bool.false_or, decide_eq_true_iff] at hcomplete
    rw [hs.1]
    exact hcomplete
  · refine ⟨hs.2.1, fun hw => ?_⟩
    rw [hs.2.2.1] at hw
    cases hw

/-- Also with another process class the source goes on watching. -/
theorem checkAndHandleProcessClassReplacement_spec (hm : Undisturbed c m) :
    Triple (Watching c) (checkAndHandleProcessClassReplacement c m)
      (fun _ => Watching c) (fun _ _ => False) := by
  refine Triple.get_bind fun s₀ => ?_
  refine Triple.bind (Q := fun _ => Watching c) ?_ fun _ => ?_
  · refine Triple.require (fun _ _ h => h.2) fun hw s h => ?_
    rw [← h.1, h.2.isWatching] at hw
    cases hw
  refine Triple.bind (processClassRemoteScheduler_spec fun s h => h.sound.present h.isWatching)
    fun r => ?_
  refine Triple.ite (fun _ => Triple.pure fun s h => h) fun _ => ?_
  refine Triple.bind (Q := fun _ => Watching c) (Triple.at_state fun s h => ?_) fun _ =>
    Triple.pure fun s h => h
  refine Triple.bind ((stopWatching_spec (k := s.processClass) (a := s.isActive)).consequence ?_ (fun _ _ h => h)
    fun _ _ h => h) fun _ => ?_
  · intro t ht
    rw [ht]
    exact ⟨h.sound, rfl, rfl⟩
  · refine (startWatching_spec hm).consequence (fun t ht => ?_) (fun _ t ht => ?_) fun _ _ h => h
    · refine ⟨ht.1.1, ht.2, ht.1.2.2.trans (h.sound.active h.isWatching), fun hc => ?_⟩
      rw [ht.1.2.1]
      exact h.sound.present h.isWatching hc
    · exact ⟨ht.1.sound, ht.2⟩

/-! ## Reading -/

/-- Looking at the buffer changes nothing else. -/
theorem hasNewFile_spec {P : Source → Prop} (h : ∀ s l, P s → P { s with newFiles := l }) :
    Triple P (hasNewFile m) (fun _ => P) (fun _ _ => False) :=
  Triple.bind (Q := fun _ => P) (Triple.modify fun s hs => h s _ hs) fun _ =>
    Triple.get_bind_any fun _ => Triple.pure fun _ hs => hs

theorem onDirectoryRead_spec {P : Source → Prop} (h : ∀ s l, P s → P { s with newFiles := l }) :
    Triple P (onDirectoryRead c m) (fun _ => P) (fun _ _ => False) := by
  refine Triple.bind (Q := fun _ => P) ?_ fun _ => Triple.pure fun _ hs => hs
  exact Triple.ite (fun _ => hasNewFile_spec h) fun _ => Triple.pure fun _ hs => hs

theorem Watching.newFiles (h : Watching c s) (l : List String) :
    Watching c { s with newFiles := l } :=
  ⟨⟨h.sound.startedOnce, h.sound.counted, h.sound.present, h.sound.active, h.sound.inCall, h.sound.client,
    h.sound.closed, h.sound.lastContinue, h.sound.newFilesTime⟩, h.isWatching⟩

/-- If no answer is outstanding then the agent is asked, or is busy. -/
theorem startReadNewFilesFromAgent_spec (hm : Undisturbed c m) :
    Triple (fun s => Watching c s ∧ s.remoteScheduler ≠ "") (startReadNewFilesFromAgent m)
      (fun _ => Inv c) (fun _ => Inv c) := by
  obtain ⟨-, -, hdb⟩ := hm
  refine Triple.at_state fun s hs => Triple.get_bind_at (Triple.onlyIf (fun _ => ?_) ?_)
  · refine Triple.bind (Q := fun _ t => t = s) ?_ fun _ => ?_
    · refine Triple.require (fun _ _ ht => ht) fun hf => ?_
      rw [hdb] at hf
      cases hf
    refine Triple.bind (Q := fun _ t => t = s) ?_ fun _ => Triple.modify fun t ht => ?_
    · refine Triple.require (fun _ _ ht => ht) fun hf t ht => ?_
      -- the client has not yet answered the call before
      rw [decide_eq_false_iff_not] at hf
      rw [ht]
      refine ⟨hs.1.sound, fun _ => Or.inr (Or.inl (Or.inl ?_))⟩
      cases hc : s.client with
      | none => exact absurd hc (hs.1.sound.client hs.1.isWatching hs.2)
      | some b =>
          cases b with
          | true => rfl
          | false => exact absurd hc hf
    · rw [ht]
      obtain ⟨⟨hs, hwatch⟩, -⟩ := hs
      refine ⟨⟨hs.startedOnce, hs.counted, hs.present, hs.active, fun _ => ⟨fun hn => ?_, Or.inl rfl⟩,
        fun _ _ hn => ?_, fun hw => ?_, hs.lastContinue, hs.newFilesTime⟩, fun _ => Or.inr (Or.inl (Or.inl rfl))⟩
      · cases hn
      · cases hn
      · have hw : s.isWatching = false := hw
        rw [hwatch] at hw
        cases hw
  · intro hcall t ht
    rw [ht]
    exact ⟨hs.1.sound, fun _ =>
      Or.inr (Or.inl (hs.1.sound.inCall (eq_true_of_ne_false hcall)).2)⟩

theorem Watching.readDirectory (h : Watching c s) (hclock : Clock c m.now)
    (files : Option (List String)) : Watching c (s.readDirectory m files) := by
  rw [Source.readDirectory]
  have hs := h.sound
  split
  · exact ⟨⟨hs.startedOnce, hs.counted, hs.present, hs.active, hs.inCall, hs.client, hs.closed,
      hs.lastContinue, hclock.2.2.1⟩, h.isWatching⟩
  · exact ⟨⟨hs.startedOnce, hs.counted, hs.present, hs.active, hs.inCall, hs.client, hs.closed,
      hs.lastContinue, hs.newFilesTime⟩, h.isWatching⟩

theorem asyncContinue_spec (hm : Undisturbed c m) (files : Option (List String)) :
    Triple (Sound c) (asyncContinue c m files) (fun _ => Inv c) (fun _ => Inv c) := by
  refine Triple.bind (Q := fun _ => Sound c) (Triple.modify fun s hs => ?_) fun _ => ?_
  · exact ⟨hs.startedOnce, hs.counted, hs.present, hs.active, hs.inCall, hs.client, hs.closed, hm.1.2.1,
      hs.newFilesTime⟩
  refine Triple.get_bind fun s₀ => Triple.onlyIf (fun hw => ?_) fun hw s h => ?_
  · refine Triple.bind (Q := fun _ => Watching c) ?_ fun _ => ?_
    · refine (checkAndHandleProcessClassReplacement_spec hm).consequence (fun s h => ?_)
        (fun _ _ h => h) fun _ _ h => h.elim
      exact ⟨h.2, by rw [h.1]; exact hw⟩
    refine Triple.get_bind fun s₁ => Triple.ite (fun hr => ?_) fun _ => ?_
    · refine (startReadNewFilesFromAgent_spec hm).consequence (fun s h => ⟨h.2, ?_⟩)
        (fun _ _ h => h) fun _ _ h => h
      rw [h.1]
      exact hr
    · refine Triple.bind (Q := fun _ => Watching c)
        (Triple.modify fun s h => h.2.readDirectory hm.1 files) fun _ => ?_
      refine Triple.bind (Q := fun _ => Watching c) ?_ fun _ => ?_
      · exact (onDirectoryRead_spec fun s l h => h.newFiles l).consequence (fun _ h => h)
          (fun _ _ h => h) fun _ _ h => h.elim
      · exact (repeatAfterDelay_spec hm.1 hm.1.2.2.1).consequence
          (fun s h => ⟨h.sound, h.isWatching⟩) (fun _ s h => h.1) fun _ _ h => h.elim
  · refine ⟨h.2, fun hwatch => ?_⟩
    rw [h.1] at hwatch
    exact absurd hwatch hw

/-- Whatever the agent has answered, the timer is set. -/
theorem onDirectoryReadResultCall_spec (hm : Undisturbed c m) (answer : Option (List String)) :
    Triple (fun s => Sound c { s with inDirectoryReadResultCall := false } ∧
        (s.isWatching = false → s.inDirectoryReadResultCall = false))
      (onDirectoryReadResultCall c m answer) (fun _ => Inv c) (fun _ => Inv c) := by
  refine Triple.get_bind fun s₀ => ?_
  refine Triple.bind (Q := fun _ s => Sound c { s with inDirectoryReadResultCall := false } ∧
    s.isWatching = true) ?_ fun _ => ?_
  · refine Triple.require (fun hw s h => ⟨h.2.1, by rw [h.1]; exact hw⟩) fun hw s h => ?_
    rw [← h.1] at hw
    have hs := h.2.1
    rw [← h.2.2 hw] at hs
    refine ⟨hs, fun hwatch => ?_⟩
    rw [hw] at hwatch
    cases hwatch
  refine Triple.bind (Q := fun _ => Watching c) (Triple.modify fun s h => ?_) fun _ => ?_
  · exact Watching.newFiles (s := { s with inDirectoryReadResultCall := false }) ⟨h.1, h.2⟩ []
  refine Triple.bind (Q := fun _ => Watching c) ?_ fun replaced => ?_
  · exact (checkAndHandleProcessClassReplacement_spec hm).consequence (fun _ h => h)
      (fun _ _ h => h) fun _ _ h => h.elim
  refine Triple.get_bind fun s₁ => ?_
  have hlast : Watching c s₁ → m.now + (if replaced = false ∧ answer = some [] then
      s₁.newFilesTime + c.repeatDelay - m.now else 100) < doubleTimeMax := by
    intro h
    have htime := h.sound.newFilesTime
    obtain ⟨-, hmin, -, -⟩ := hm.1
    rw [minimumDelay] at hmin
    split
    · omega
    · omega
  refine Triple.at_state fun s h => ?_
  refine Triple.bind (Q := fun _ => Watching c) ?_ fun _ => ?_
  · refine Triple.onlyIf (fun _ => ?_) fun _ t ht => ?_
    · refine Triple.bind (Q := fun _ => Watching c) ?_ fun _ => Triple.modify fun t ht => ?_
      · refine Triple.onlyIf (fun _ => ?_) fun _ t ht => ?_
        · refine Triple.bind (Q := fun _ => Watching c) (Triple.modify fun t ht => ?_) fun _ => ?_
          · rw [ht]
            exact h.2.newFiles _
          · exact (onDirectoryRead_spec fun s l h => h.newFiles l).consequence (fun _ h => h)
              (fun _ _ h => h) fun _ _ h => h.elim
        · rw [ht]
          exact h.2
      · have hs := ht.sound
        exact ⟨⟨hs.startedOnce, hs.counted, hs.present, hs.active, hs.inCall, hs.client, hs.closed,
          hs.lastContinue, hm.1.2.2.1⟩, ht.isWatching⟩
    · rw [ht]
      exact h.2
  · refine (repeatAfterDelay_spec hm.1 (hlast ?_)).consequence
      (fun s h => ⟨h.sound, h.isWatching⟩) (fun _ s h => h.1) fun _ _ h => h.elim
    rw [← h.1]
    exact h.2

/-! ## Runs -/

theorem inv_of_initial (hrepeat : c.repeatDelay < doubleTimeMax) (h : Initial s) : Inv c s := by
  have hnot : ∀ {p : Prop}, s.isWatching = true → p := by
    intro p hw
    rw [h.isWatching] at hw
    cases hw
  refine ⟨⟨h.startedTwice, ?_, fun hw => hnot hw, fun hw => hnot hw, fun hcall => ?_,
    fun hw => hnot hw,
    fun _ => h.client, ?_, ?_⟩, fun hw => hnot hw⟩
  · rw [h.fileOrderSourceCount, h.isWatching, Bool.and_false, if_neg Bool.false_ne_true]
  · rw [h.inCall] at hcall
    cases hcall
  · rw [h.lastContinue]
    decide
  · rw [h.newFilesTime, Int.zero_add]
    exact hrepeat

/-- The buffer, the timer, the expectation and the process class may change, if
    something still wakes the source and its process class is there. -/
theorem Inv.change (h : Inv c s) (active expecting : Bool) (l : List String) (timer : Int)
    (k : ClassState) (address : String)
    (hactive : s.isWatching = true → active = true)
    (hk : s.isWatching = true → c.hasProcessClass = true → k ≠ .absent)
    (hwake : s.isWatching = true →
      timer < doubleTimeMax ∨ AnswerOutstanding s ∨ expecting = true) :
    Inv c { s with isActive := active, expectingRequestOrder := expecting, newFiles := l, timer,
                   processClass := k, address } :=
  ⟨⟨h.sound.startedOnce, h.sound.counted, hk, hactive, h.sound.inCall, h.sound.client, h.sound.closed,
    h.sound.lastContinue, h.sound.newFilesTime⟩, hwake⟩

theorem requestOrder_spec (m : Moment) :
    Triple (Inv c) (requestOrder m) (fun _ => Inv c) (fun _ _ => False) := by
  refine Triple.get_bind_any fun s₀ => Triple.ite (fun _ => Triple.pure fun _ h => h) fun _ => ?_
  refine Triple.bind (Q := fun _ => Inv c) (hasNewFile_spec fun s l h => ?_) fun found => ?_
  · exact h.change s.isActive s.expectingRequestOrder l s.timer s.processClass s.address
      h.sound.active h.sound.present h.willWake
  refine Triple.ite (fun _ => Triple.pure fun _ h => h) fun _ => ?_
  refine Triple.bind (Q := fun _ => Inv c) ?_ fun _ => Triple.pure fun _ h => h
  refine Triple.onlyIf (fun _ => Triple.modify fun s h => ?_) fun _ _ h => h
  -- the order request wakes the source at once
  exact h.change s.isActive false s.newFiles (min 0 doubleTimeMax) s.processClass s.address
    h.sound.active h.sound.present fun _ => Or.inl (by decide)

theorem fetchAndOccupyOrder_spec (givesOrder : String → Bool) :
    Triple (Inv c) (fetchAndOccupyOrder givesOrder) (fun _ => Inv c) (fun _ _ => False) := by
  refine Triple.get_bind_any fun s₀ => Triple.ite (fun _ => ?_) fun _ => Triple.pure fun _ h => h
  refine Triple.bind (Q := fun _ => Inv c) (Triple.modify fun s h => ?_) fun _ =>
    Triple.pure fun _ h => h
  refine h.change s.isActive _ _ s.timer s.processClass s.address h.sound.active h.sound.present
    fun hw => ?_
  rcases h.willWake hw with ht | ht | ht
  · exact Or.inl ht
  · exact Or.inr (Or.inl ht)
  · exact Or.inr (Or.inr (by rw [ht]; rfl))

/-- A source that is not asked to start again stays awake. -/
theorem perform_spec {op : Op} (hgood : Good c s op) (hallowed : Allowed c s op) (h : Inv c s) :
    Triple (fun t => t = s) (perform c op) (fun _ => Inv c) (fun _ => Inv c) := by
  have hfalse : ∀ {α : Type} {P : Source → Prop} {x : Method α} {Q : α → Source → Prop},
      Triple P x Q (fun _ _ => False) → Triple P x Q (fun _ => Inv c) :=
    fun hx => hx.consequence (fun _ h => h) (fun _ _ h => h) fun _ _ h => h.elim
  have hstart : Triple (Inv c) (pure () : Method Unit) (fun _ => Inv c) (fun _ => Inv c) :=
    Triple.pure fun _ h => h
  cases op with
  | activate m =>
      have hw : s.isWatching = false := by
        by_contra hw
        have := h.sound.active (eq_true_of_ne_false hw)
        rw [hallowed] at this
        cases this
      have hs := h.sound
      refine Triple.bind (Q := fun _ t => Sound c t ∧ t.isWatching = false)
        (Triple.modify fun t ht => ?_) fun _ => ?_
      · rw [ht]
        exact ⟨⟨hs.startedOnce, hs.counted, hs.present, hs.active, hs.inCall, hs.client, hs.closed,
          hs.lastContinue, hs.newFilesTime⟩, hw⟩
      refine Triple.bind (Q := fun _ t => Sound c t ∧ t.isWatching = false ∧ t.isActive = true)
        (Triple.modify fun t ht => ?_) fun _ => hfalse (tryStartWatching_spec hgood)
      have hs := ht.1
      exact ⟨⟨hs.startedOnce, hs.counted, hs.present, fun _ => rfl, hs.inCall, hs.client, hs.closed,
        hs.lastContinue, hs.newFilesTime⟩, ht.2, rfl⟩
  | processClassIsErroneous =>
      refine Triple.modify fun t ht => ?_
      rw [ht]
      exact h.change s.isActive s.expectingRequestOrder s.newFiles s.timer .erroneous ""
        h.sound.active (fun _ _ he => by cases he) h.willWake
  | processClassIsLoaded m address =>
      have hs := h.sound
      refine Triple.bind (Q := fun _ t => Sound c t ∧ t.isWatching = false)
        (Triple.modify fun t ht => ?_) fun _ => ?_
      · rw [ht]
        exact ⟨⟨hs.startedOnce, hs.counted, (fun _ _ he => by cases he), hs.active, hs.inCall,
          hs.client, hs.closed, hs.lastContinue, hs.newFilesTime⟩, hgood.2⟩
      refine Triple.get_bind fun t => Triple.onlyIf (fun hactive => ?_) fun _ u hu => ?_
      · refine (hfalse (tryStartWatching_spec hgood.1)).consequence (fun u hu => ?_)
          (fun _ _ h => h) fun _ _ h => h
        exact ⟨hu.2.1, hu.2.2, by rw [hu.1]; exact hactive⟩
      · refine ⟨hu.2.1, fun hw => ?_⟩
        rw [hu.2.2] at hw
        cases hw
  | processClassIsReplaced address =>
      refine Triple.modify fun t ht => ?_
      rw [ht]
      exact h.change s.isActive s.expectingRequestOrder s.newFiles s.timer s.processClass address
        h.sound.active h.sound.present h.willWake
  | processClassIsToBeRemoved =>
      refine (stopWatching_spec (k := s.processClass) (a := s.isActive)).consequence (fun t ht => ?_) (fun _ t ht => ?_)
        fun _ _ h => h.elim
      · rw [ht]
        exact ⟨h.sound, rfl, rfl⟩
      · refine ⟨ht.1.1, fun hw => ?_⟩
        rw [ht.2] at hw
        cases hw
  | processClassIsRemoved =>
      refine Triple.modify fun t ht => ?_
      rw [ht]
      refine h.change s.isActive s.expectingRequestOrder s.newFiles s.timer .absent s.address
        h.sound.active (fun hw hc => ?_) h.willWake
      -- the class of a watching source is counted, and stays
      have hcount := h.sound.counted
      rw [hallowed.2, hc, hw] at hcount
      cases hcount
  | requestOrder m =>
      refine Triple.bind (Q := fun _ => Inv c) (hfalse ?_) fun _ => hstart
      exact (requestOrder_spec m).consequence (fun t ht => by rw [ht]; exact h) (fun _ _ h => h)
        fun _ _ h => h
  | withdrawOrderRequest =>
      refine Triple.modify fun t ht => ?_
      rw [ht]
      exact h.change s.isActive true s.newFiles _ s.processClass s.address h.sound.active
        h.sound.present fun _ => Or.inr (Or.inr rfl)
  | fetchAndOccupyOrder givesOrder =>
      refine Triple.bind (Q := fun _ => Inv c) (hfalse ?_) fun _ => hstart
      exact (fetchAndOccupyOrder_spec givesOrder).consequence (fun t ht => by rw [ht]; exact h)
        (fun _ _ h => h) fun _ _ h => h
  | asyncContinue m byTimer files =>
      refine Triple.bind (Q := fun _ => Sound c) (Triple.modify fun t ht => ?_) fun _ =>
        asyncContinue_spec hgood files
      rw [ht]
      have hs := h.sound
      exact ⟨hs.startedOnce, hs.counted, hs.present, hs.active, hs.inCall, hs.client, hs.closed,
        hs.lastContinue, hs.newFilesTime⟩
  | agentAnswers answer =>
      refine Triple.modify fun t ht => ?_
      rw [ht]
      have hs := h.sound
      have hcall : AnswerOutstanding { s with client := some false, answers := s.answers ++ [answer] } :=
        Or.inr (List.append_ne_nil_of_right_ne_nil _ (List.cons_ne_nil _ _))
      refine ⟨⟨hs.startedOnce, hs.counted, hs.present, hs.active, fun _ => ⟨fun hn => ?_, hcall⟩,
        fun _ _ hn => ?_, fun hw => ?_, hs.lastContinue, hs.newFilesTime⟩,
        fun _ => Or.inr (Or.inl hcall)⟩
      · cases hn
      · cases hn
      · have hnone := hs.closed hw
        rw [show s.client = some true from hallowed] at hnone
        cases hnone
  | directoryReadResultCall m =>
      refine Triple.get_bind_at ?_
      refine Triple.bind (Q := fun _ t => t = { s with answers := s.answers.tail })
        (Triple.modify fun t ht => by rw [ht]) fun _ => ?_
      refine (onDirectoryReadResultCall_spec hgood _).consequence (fun t ht => ?_) (fun _ _ h => h)
        fun _ _ h => h
      rw [ht]
      have hs := h.sound
      refine ⟨⟨hs.startedOnce, hs.counted, hs.present, hs.active, fun hc => ?_, hs.client,
        hs.closed, hs.lastContinue, hs.newFilesTime⟩, fun hw => ?_⟩
      · cases hc
      · by_contra hc
        exact (hs.inCall (eq_true_of_ne_false hc)).1 (hs.closed hw)

theorem inv_step {op : Op} (h : Inv c s) (hgood : Good c s op) (hstep : Step c s op s') :
    Inv c s' := by
  obtain ⟨hallowed, rfl⟩ := hstep
  exact (perform_spec hgood hallowed h).final rfl

theorem awake_of_inv (h : Inv c s) : Awake c s := by
  refine ⟨fun hw => ?_, h.sound.startedOnce, h.sound.counted⟩
  rcases h.willWake hw with ht | ht | ht
  · exact Or.inl ht
  · exact Or.inr (Or.inl ht)
  · exact Or.inr (Or.inr (Or.inl ht))

/-- **NEVER ASLEEP**: in every run in which the process class is not loaded while
    the source watches already, and nothing outside fails, the source stays awake. -/
theorem awake_of_reach (c : Settings) (hrepeat : c.repeatDelay < doubleTimeMax) (s : Source)
    (h : Reach Initial (Guarded (Good c) (Step c)) s) : Awake c s :=
  awake_of_inv (h.invariant (I := Inv c) (fun _ => inv_of_initial hrepeat)
    fun _ _ _ hinv hstep => inv_step hinv hstep.1 hstep.2)

/-! ## A process class with errors -/

instance (c : Settings) (now : Int) : Decidable (Clock c now) :=
  inferInstanceAs (Decidable (_ ∧ _ ∧ _ ∧ _))

instance (c : Settings) (m : Moment) : Decidable (Undisturbed c m) :=
  inferInstanceAs (Decidable (_ ∧ _ ∧ _))

instance (c : Settings) (s : Source) (op : Op) : Decidable (Good c s op) :=
  match op with
  | .activate m => inferInstanceAs (Decidable (Undisturbed c m))
  | .processClassIsLoaded m _ => inferInstanceAs (Decidable (Undisturbed c m ∧ _))
  | .asyncContinue m _ _ => inferInstanceAs (Decidable (Undisturbed c m))
  | .directoryReadResultCall m => inferInstanceAs (Decidable (Undisturbed c m))
  | .processClassIsErroneous | .processClassIsReplaced _ | .processClassIsToBeRemoved
  | .processClassIsRemoved | .requestOrder _ | .withdrawOrderRequest | .fetchAndOccupyOrder _
  | .agentAnswers _ => inferInstanceAs (Decidable True)

instance (c : Settings) (s : Source) (op : Op) : Decidable (Allowed c s op) :=
  match op with
  | .activate _ => inferInstanceAs (Decidable (_ = false))
  | .processClassIsErroneous | .processClassIsLoaded _ _ | .processClassIsReplaced _
  | .processClassIsToBeRemoved | .processClassIsRemoved => inferInstanceAs (Decidable (_ ∧ _))
  | .agentAnswers _ => inferInstanceAs (Decidable (s.client = some true))
  | .directoryReadResultCall _ => inferInstanceAs (Decidable (s.answers ≠ []))
  | .requestOrder _ | .withdrawOrderRequest | .fetchAndOccupyOrder _ | .asyncContinue _ _ _ =>
      inferInstanceAs (Decidable True)

def attempt (c : Settings) (s : Source) (op : Op) : Option Source :=
  if Allowed c s op then some (final (perform c op) s) else none

theorem attempt_step (s : Source) (op : Op) (s' : Source) (h : attempt c s op = some s') :
    Step c s op s' := by
  rw [attempt] at h
  split at h
  · rename_i hallowed
    exact ⟨hallowed, (Option.some.inj h).symm⟩
  · cases h

/-- A directory that a process class watches every ten seconds. -/
def everyTenSeconds : Settings := ⟨true, 10000, none, true⟩

def constructed : Source where
  isActive := false
  isWatching := false
  expectingRequestOrder := false
  inDirectoryReadResultCall := false
  remoteScheduler := ""
  timer := doubleTimeMax
  newFiles := []
  directoryError := false
  lastContinue := 0
  newFilesTime := 0
  client := none
  answers := []
  processClass := .absent
  address := ""
  fileOrderSourceCount := 0
  startedTwice := false

theorem initial_constructed : Initial constructed := ⟨rfl, rfl, rfl, rfl, rfl, rfl, rfl⟩

/-- All files are there and have no order yet, and no job waits. -/
def someDay (now : Int) : Moment := ⟨now, fun _ => true, fun _ => false, false, false, false⟩

/-- The agent answers with a file, for which an order is fetched. -/
def watched : List Op :=
  [.processClassIsLoaded (someDay 1000) "http://agent", .activate (someDay 2000),
    .asyncContinue (someDay 2000) true none, .agentAnswers (some ["file"]),
    .directoryReadResultCall (someDay 5000), .fetchAndOccupyOrder fun _ => true]

theorem watched_awake :
    ((runAll (nextIf (Good everyTenSeconds) (attempt everyTenSeconds)) constructed watched).any
      fun s => s.isWatching && s.expectingRequestOrder && s.newFiles.isEmpty) = true ∧
    ∀ s, runAll (nextIf (Good everyTenSeconds) (attempt everyTenSeconds)) constructed watched =
      some s → Awake everyTenSeconds s :=
  ⟨by decide, fun s hrun => awake_of_reach everyTenSeconds (by decide) s
    (Reach.runAll (fun _ _ _ h => nextIf_step attempt_step h) (Reach.start initial_constructed)
      hrun)⟩

/-- The file of the process class has errors when the job chain gets active, and is
    then corrected. -/
def corrected : List Op :=
  [.processClassIsErroneous, .activate (someDay 1000), .processClassIsLoaded (someDay 2000) ""]

theorem corrected_startsTwice : ¬∀ (c : Settings) (s : Source), c.repeatDelay < doubleTimeMax →
    Reach Initial (Step c) s → Awake c s := by
  intro hall
  have hrun : (runAll (attempt everyTenSeconds) constructed corrected).any
      (fun s => s.startedTwice) = true := by
    decide
  obtain ⟨s, hs, htwice⟩ := (Option.any_eq_true _ _).mp hrun
  have hreach := Reach.runAll (attempt_step (c := everyTenSeconds)) (Reach.start initial_constructed)
    hs
  have := (hall everyTenSeconds s (by decide) hreach).startedOnce
  rw [htwice] at this
  cases this

end FileOrderSource
