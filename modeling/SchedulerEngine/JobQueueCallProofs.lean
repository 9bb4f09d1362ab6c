import SchedulerEngine.StandardJobProofs
import Mathlib.Order.MinMax

/-! # The call for the tasks of the queue

    A job has one call for all the tasks in its queue.  A call stays registered
    for the tasks that lie in the future if no task of the database lies ahead of
    it, no due task is left in the queue when it is executed, and no executed call
    hides a later task. -/

namespace JobQueueCall

open Execution Execution.Exec RunInvariant SortedInsert StandardJob
open TypedCallRegister (Time Calls never shortTerm callAt executeMatureCall Registered Executed
  noCalls)

variable {s s' : Job} {k : Task}

/-! ## Instants and calls -/

/-- The instant lies in the future; `never` is no instant. -/
def InFuture (s : Job) (t : Time) : Prop := s.now < t ∧ t ≠ never

/-- A `Start_queued_task_call` is registered for an instant not later than `t`. -/
def CalledUntil (s : Job) (t : Time) : Prop :=
  ∃ c ∈ s.calls.callQueue.queue, c.register = 0 ∧ c.type = startQueuedTaskCall ∧ c.time ≤ t

/-! ## The queue's next start time -/

/-- No task of the queue starts earlier. -/
theorem nextStartTime_le (q : TaskQueue) (hk : k ∈ q.queue) : q.nextStartTime ≤ k.startAt := by
  have hfirst : ∀ p : Task → Bool, p k = true →
      (q.queue.find? p).elim never Task.startAt ≤ k.startAt := by
    intro p hp
    cases hf : q.queue.find? p with
    | none =>
        have hnone := List.find?_eq_none.mp hf k hk
        exact absurd hp hnone
    | some a => exact q.sorted.find_le hf hk hp
  cases hforce : k.forceStart with
  | true => exact le_trans (min_le_left _ _) (hfirst (fun k => k.forceStart) hforce)
  | false => exact le_trans (min_le_right _ _) (hfirst (fun k => !k.forceStart) (by simp [hforce]))

/-- It is the greatest instant that is not later than the tasks'. -/
theorem le_nextStartTime_iff (q : TaskQueue) (t : Time) :
    t ≤ q.nextStartTime ↔ ∀ k ∈ q.queue, t ≤ k.startAt := by
  constructor
  · exact fun ht k hk => le_trans ht (nextStartTime_le q hk)
  · intro h
    have hfirst : ∀ p : Task → Bool, t ≤ (q.queue.find? p).elim never Task.startAt := by
      intro p
      cases hf : q.queue.find? p with
      | none => exact TypedCallRegister.le_never t
      | some a => exact h a (List.mem_of_find?_eq_some hf)
    exact le_min (hfirst _) (hfirst _)

theorem nextStartTime_enqueueTask (q : TaskQueue) (task : Task) :
    (q.enqueueTask task).nextStartTime = min task.startAt q.nextStartTime := by
  refine eq_of_forall_le_iff fun t => ?_
  rw [le_nextStartTime_iff, le_min_iff, le_nextStartTime_iff]
  constructor
  · intro h
    exact ⟨h task (mem_insertByKey.mpr (Or.inl rfl)), fun k hk => h k (mem_insertByKey.mpr (Or.inr hk))⟩
  · rintro ⟨htask, hq⟩ k hk
    obtain rfl | hk := mem_insertByKey.mp hk
    · exact htask
    · exact hq k hk

/-! ## The invariant -/

/-- The calls of the job, whatever its queue. -/
structure CallsKept (s : Job) : Prop where
  registered : Registered s.calls
  isOpen : TypedCallRegister.Open s.calls
  executed : ∀ t, Executed s.calls 0 startQueuedTaskCall t → t ≤ s.now

/-- Every task of the queue that lies in the future is waited for. -/
structure Waits (s : Job) : Prop extends CallsKept s where
  waits : ∀ k ∈ s.taskQueue.queue, InFuture s k.startAt → CalledUntil s k.startAt

/-- A registered call has not been executed. -/
theorem CallsKept.not_executed (h : CallsKept s) {t t' : Time} (hc : CalledUntil s t) :
    ¬Executed s.calls 0 startQueuedTaskCall t' := by
  obtain ⟨c, hin, hr, htype, -⟩ := hc
  exact h.registered.not_executed ⟨c, hin, hr, htype⟩

theorem CallsKept.callAtStart (h : CallsKept s) (t : Time) : CallsKept (s.callAtStart t) where
  registered := TypedCallRegister.keeps_callAt 0 startQueuedTaskCall t s.calls h.registered
  isOpen := by
    obtain ⟨s', hrun, hopen⟩ := TypedCallRegister.callAt_ok h.isOpen 0 startQueuedTaskCall t
    show TypedCallRegister.Open (final (callAt 0 startQueuedTaskCall t) s.calls)
    rw [final, hrun]
    exact hopen
  executed := fun t' he => h.executed t' (h.registered.executed_of_callAt h.isOpen he)

/-- After `call_at(t)` every later instant is waited for, unless a call for `t`
    has been executed. -/
theorem CallsKept.calledUntil (h : CallsKept s) {t t' : Time} (hle : t ≤ t') (hnever : t' ≠ never)
    (hnot : ¬Executed s.calls 0 startQueuedTaskCall t) : CalledUntil (s.callAtStart t) t' := by
  have ht : t ≠ never := by
    rintro rfl
    exact hnever (le_antisymm (TypedCallRegister.le_never t') hle)
  obtain ⟨c, hin, hr, htype, htime⟩ := h.registered.callAt_pending h.isOpen ht hnot
  exact ⟨c, hin, hr, htype, htime ▸ hle⟩

/-- Registering the call for the next start time of a queue, of which a task that
    lies in the future was waited for or no executed call hides it. -/
theorem CallsKept.waits_callAtStart (h : CallsKept s)
    (hnot : ∀ k ∈ s.taskQueue.queue, InFuture s k.startAt →
      ¬Executed s.calls 0 startQueuedTaskCall s.taskQueue.nextStartTime) :
    Waits (s.callAtStart s.taskQueue.nextStartTime) where
  toCallsKept := h.callAtStart _
  waits := by
    intro k hk hfuture
    exact h.calledUntil (nextStartTime_le s.taskQueue hk) hfuture.2 (hnot k hk hfuture)

/-- Tasks may leave the queue. -/
theorem Waits.subset (h : Waits s) {q : TaskQueue} (hsub : ∀ k ∈ q.queue, k ∈ s.taskQueue.queue) :
    Waits { s with taskQueue := q } where
  toCallsKept := ⟨h.registered, h.isOpen, h.executed⟩
  waits := fun k hk hfuture => h.waits k (hsub k hk) hfuture

theorem Waits.removeTask (h : Waits s) (id : Nat) :
    Waits { s with taskQueue := s.taskQueue.removeTask id } :=
  h.subset fun _ hk => List.eraseP_sublist.mem hk

/-- A task that is due may be enqueued; one that lies in the future only if no
    executed call is remembered for the next start time. -/
theorem Waits.enqueue (h : Waits s) (task : Task)
    (hnew : InFuture s task.startAt →
      ¬Executed s.calls 0 startQueuedTaskCall s.taskQueue.nextStartTime) :
    Waits (s.enqueue task) := by
  have hkept : CallsKept { s with taskQueue := s.taskQueue.enqueueTask task } :=
    ⟨h.registered, h.isOpen, h.executed⟩
  refine hkept.waits_callAtStart fun k hk hfuture => ?_
  obtain rfl | hold := mem_insertByKey.mp hk
  · intro he
    -- the executed call was for a task that is due, not for the new one
    have hmin := nextStartTime_enqueueTask s.taskQueue k
    have hle : min k.startAt s.taskQueue.nextStartTime ≤ s.now := hmin ▸ h.executed _ he
    have hold : s.taskQueue.nextStartTime ≤ s.now :=
      (min_le_iff.mp hle).resolve_left (not_le_of_gt hfuture.1)
    rw [min_eq_right (hold.trans hfuture.1.le)] at hmin
    exact hnew hfuture (hmin ▸ he)
  · exact h.toCallsKept.not_executed (h.waits k hold hfuture)

theorem Waits.killQueuedTask (h : Waits s) (id : Nat) : Waits (s.killQueuedTask id) := by
  rw [Job.killQueuedTask]
  split
  · have hremoved := h.removeTask id
    exact hremoved.toCallsKept.waits_callAtStart fun k hk hfuture =>
      hremoved.not_executed (hremoved.waits k hk hfuture)
  · exact h

/-- If all tasks of the queue lie ahead, so does its next start time. -/
theorem lt_nextStartTime {t : Time} {q : TaskQueue} (hk : k ∈ q.queue)
    (h : ∀ k ∈ q.queue, t < k.startAt) : t < q.nextStartTime := by
  have hfirst : ∀ p : Task → Bool, t < (q.queue.find? p).elim never Task.startAt := by
    intro p
    cases hf : q.queue.find? p with
    | none => exact lt_of_lt_of_le (h k hk) (TypedCallRegister.le_never _)
    | some a => exact h a (List.mem_of_find?_eq_some hf)
  exact lt_min (hfirst _) (hfirst _)

/-! ## Other changes -/

/-- The queue, the calls and the clock are the same. -/
structure SameQueue (s s' : Job) : Prop where
  taskQueue : s'.taskQueue = s.taskQueue
  calls : s'.calls = s.calls
  now : s'.now = s.now

theorem SameQueue.refl (s : Job) : SameQueue s s := ⟨rfl, rfl, rfl⟩

theorem SameQueue.trans {s'' : Job} (h : SameQueue s s') (h' : SameQueue s' s'') :
    SameQueue s s'' :=
  ⟨h'.taskQueue.trans h.taskQueue, h'.calls.trans h.calls, h'.now.trans h.now⟩

/-- A predicate about the queue, the calls and the clock. -/
def OfQueue (I : Job → Prop) : Prop := ∀ s s', SameQueue s s' → I s → I s'

theorem sameQueue_setState (new : State) (s : Job) : SameQueue s (s.setState new) := by
  obtain ⟨_, _, _, _, _, hs⟩ := Job.setState_spec new s
  exact ⟨by rw [hs], by rw [hs], by rw [hs]⟩

theorem sameQueue_stopSimply (endAllTasks : Bool) (s : Job) :
    SameQueue s (s.stopSimply endAllTasks) := by
  have hset := sameQueue_setState (if s.runningTasks.isEmpty then .stopped else .stopping) s
  cases endAllTasks <;> exact hset.trans ⟨rfl, rfl, rfl⟩

theorem sameQueue_stop (endAllTasks : Bool) (s : Job) : SameQueue s (s.stop endAllTasks) :=
  (⟨rfl, rfl, rfl⟩ : SameQueue s { s with isPermanentlyStopped := true }).trans
    (sameQueue_stopSimply endAllTasks _)

theorem sameQueue_selectPeriod (sch : Schedule) (s : Job) : SameQueue s (s.selectPeriod sch) := by
  obtain ⟨_, _, _, _, hs⟩ := s.selectPeriod_spec sch
  exact ⟨by rw [hs], by rw [hs], by rw [hs]⟩

theorem sameQueue_setNextStartTime (sch : Schedule) (s : Job) :
    SameQueue s (s.setNextStartTime sch) := by
  obtain ⟨_, _, _, _, _, _, hs⟩ := s.setNextStartTime_spec sch
  exact ⟨by rw [hs], by rw [hs], by rw [hs]⟩

theorem sameQueue_removeRunningTask (sch : Schedule) (id : Nat) (s : Job) :
    SameQueue s (s.removeRunningTask sch id) := by
  have herased : SameQueue s { s with
      runningTasks := s.runningTasks.eraseP fun t => t.id = id
      wokenTasks := s.wokenTasks.eraseP fun t => t.id = id } := ⟨rfl, rfl, rfl⟩
  simp only [Job.removeRunningTask]
  split
  · split
    · exact herased.trans (sameQueue_setState .stopped _)
    · exact (herased.trans (sameQueue_setState .pending _)).trans (sameQueue_setNextStartTime sch _)
    · exact herased
  · exact herased

theorem sameQueue_chooseCandidate (a : Answers) (s : Job) :
    SameQueue s (s.chooseCandidate a).2 := by
  have hlook : SameQueue s (s.lookAtDirectory a) := by
    rw [Job.lookAtDirectory]
    split <;> exact ⟨rfl, rfl, rfl⟩
  simp only [Job.chooseCandidate]
  split
  · exact .refl s
  · split
    · split
      · exact hlook.trans ⟨rfl, rfl, rfl⟩
      · exact ⟨rfl, rfl, rfl⟩
    · exact .refl s

theorem sameQueue_checkLocks (a : Answers) (c : Candidate) (s : Job) :
    SameQueue s (s.checkLocks a c).2 := by
  rw [Job.checkLocks]
  split
  · split <;> exact ⟨rfl, rfl, rfl⟩
  · exact .refl s

theorem sameQueue_checkProcess (a : Answers) (c : Candidate) (s : Job) :
    SameQueue s (s.checkProcess a c).2 := by
  rw [Job.checkProcess]
  split
  · split
    · exact ⟨rfl, rfl, rfl⟩
    · split
      · cases a.freedTask <;> exact ⟨rfl, rfl, rfl⟩
      · exact .refl s
    · exact ⟨rfl, rfl, rfl⟩
  · exact .refl s

theorem sameQueue_afterTaskToStart (a : Answers) (started : Bool) (s : Job) :
    SameQueue s (s.afterTaskToStart a started) := by
  obtain ⟨_, _, _, _, -, -, hs⟩ := s.afterTaskToStart_spec a started
  exact ⟨by rw [hs], by rw [hs], by rw [hs]⟩

theorem sameQueue_insertRunningTask (task : Task) (s : Job) :
    SameQueue s (s.insertRunningTask task) := by
  have hinsert : SameQueue s { s with
      repeatIsZero := true
      delayUntil := shortTerm
      runningTasks := task :: s.runningTasks } := ⟨rfl, rfl, rfl⟩
  exact (hinsert.trans (sameQueue_setState .running _)).trans ⟨rfl, rfl, rfl⟩

section

variable {I : Job → Prop} (hI : OfQueue I)

include hI

theorem OfQueue.keptWithoutError : KeptWithoutError I where
  stop := fun s => hI s _ (sameQueue_stop false s)
  checkMinTasks := fun s => hI s _ ⟨rfl, rfl, rfl⟩
  update := fun s _ _ _ => hI s _ ⟨rfl, rfl, rfl⟩

/-- Starting a task takes it out of the queue at most. -/
theorem OfQueue.keptByStart
    (hremove : ∀ s id, I s → I { s with taskQueue := s.taskQueue.removeTask id }) :
    KeptByStart I where
  choose := fun s a => hI s _ (sameQueue_chooseCandidate a s)
  locks := fun s a c => hI s _ (sameQueue_checkLocks a c s)
  process := fun s a c => hI s _ (sameQueue_checkProcess a c s)
  pending := fun s hs _ => hI s _ (sameQueue_setState .pending s) hs
  remove := hremove
  taken := fun s _ _ => hI s _ ⟨rfl, rfl, rfl⟩
  after := fun s a b => hI s _ (sameQueue_afterTaskToStart a b s)
  insert := fun s task => hI s _ (sameQueue_insertRunningTask task s)
  loading := fun s _ => hI s _ ⟨rfl, rfl, rfl⟩
  flag := fun s _ => hI s _ ⟨rfl, rfl, rfl⟩
  woken := fun s => hI s _ ⟨rfl, rfl, rfl⟩
  error := fun s => hI s _ (sameQueue_setState .error s)
  dequeue := fun s => hI s _ ⟨rfl, rfl, rfl⟩

end

theorem waits_ofQueue : OfQueue Waits := by
  rintro s s' ⟨hq, hc, hn⟩ h
  refine ⟨⟨?_, ?_, ?_⟩, ?_⟩
  · rw [hc]
    exact h.registered
  · rw [hc]
    exact h.isOpen
  · rw [hc, hn]
    exact h.executed
  · intro k hk hfuture
    rw [hq] at hk
    rw [InFuture, hn] at hfuture
    rw [CalledUntil, hc]
    exact h.waits k hk hfuture

/-- Other fields. -/
theorem Waits.same (h : Waits s) (hs : SameQueue s s') : Waits s' := waits_ofQueue s s' hs h

/-- A task is retried without a start time, so it does not lie in the future. -/
theorem not_inFuture_shortTerm (h : k.startAt = shortTerm) : ¬InFuture s k.startAt := by
  rintro ⟨hlt, -⟩
  rw [h] at hlt
  exact absurd hlt (Nat.not_lt_zero _)

theorem keptByTasks : KeptByTasks Waits where
  toKeptWithoutError := waits_ofQueue.keptWithoutError
  pending := fun s h _ => h.same (sameQueue_setState .pending s)
  enqueue := fun _ task h ht =>
    h.enqueue task fun hfuture => absurd hfuture (not_inFuture_shortTerm ht)
  delay := fun _ _ h => h.same ⟨rfl, rfl, rfl⟩

theorem keeps_tryStartOneTask (a : Answers) : Keeps Waits (tryStartOneTask a) :=
  (waits_ofQueue.keptByStart fun _ id h => h.removeTask id).tryStartOneTask a
    fun id event _ => keptByTasks.taskEvent id event

theorem keeps_tryStartTasks (answers : Nat → Answers) : Keeps Waits (tryStartTasks answers) :=
  tryStartTasks_keeps fun n => keeps_tryStartOneTask (answers n)

/-! ## Commands and calls -/

theorem keeps_unstop (e : Environment) (cmd : StateCmd) : Keeps Waits (unstop e cmd) := by
  have hset : ∀ s, Waits s → Waits (s.unstopOrEnable cmd) := by
    intro s h
    rw [Job.unstopOrEnable]
    split
    · exact h.same (sameQueue_setState .pending s)
    · exact h.same ⟨rfl, rfl, rfl⟩
  refine Keeps.get_bind fun s h => Keeps.onlyIf (fun _ => ?_) s h
  refine Keeps.bind (Keeps.modify hset) fun _ => ?_
  refine Keeps.bind (Keeps.modify fun s h => h.same ⟨rfl, rfl, rfl⟩) fun _ => ?_
  refine Keeps.bind (Keeps.modify fun s h => h.same (sameQueue_setNextStartTime e.schedule s)) fun _ => ?_
  exact keeps_tryStartTasks e.attempts

theorem keeps_wake (e : Environment) : Keeps Waits (wake e) := by
  refine Keeps.get_bind fun s h => Keeps.onlyIf (fun _ => ?_) s h
  refine Keeps.bind (createTask_keeps keptByTasks.pending _ _ _) fun task => ?_
  refine Keeps.bind (Keeps.modify fun s h => h.same (sameQueue_setState .pending s)) fun _ => ?_
  refine Keeps.bind (Keeps.modify fun s h => h.same ⟨rfl, rfl, rfl⟩) fun _ => ?_
  refine Keeps.bind (Keeps.modify fun s h => h.same ⟨rfl, rfl, rfl⟩) fun _ => ?_
  exact keeps_tryStartTasks e.attempts

/-- A task that is started by a command is due. -/
theorem start_waits (e : Environment) (h : Waits s) :
    Waits (final (setStateCmd e .start) s) := by
  have hspec : Triple (fun t => Waits t ∧ t.now = s.now)
      (startTask e.taskId e.schedule.periodFollows true s.now)
      (fun _ => Waits) (fun _ => Waits) := by
    refine startTask_spec ?_ (fun _ ht => ht.1) _ _ _ _ ?_
    · rintro t ⟨ht, hnow⟩ _
      have hsame := sameQueue_setState .pending t
      exact ⟨ht.same hsame, hsame.now.trans hnow⟩
    · rintro t task ⟨ht, hnow⟩ htask
      refine ht.enqueue task fun hfuture => ?_
      have hlt : t.now < task.startAt := hfuture.1
      rw [htask, hnow] at hlt
      exact absurd hlt (lt_irrefl _)
  have hone : Keeps Waits (do
      let _ ← tryStartOneTask (e.attempts 0)
      pure () : Method Unit) :=
    Keeps.bind (keeps_tryStartOneTask _) fun _ => Keeps.pure ()
  exact (hspec.bind fun _ => hone.triple).final ⟨h, rfl⟩

theorem keeps_setStateCmd (e : Environment) (cmd : StateCmd) : Keeps Waits (setStateCmd e cmd) := by
  have hstart : Keeps Waits (tryStartTasks e.attempts) := keeps_tryStartTasks e.attempts
  intro s h
  cases cmd with
  | stop => exact Keeps.onlyIf (fun _ => Keeps.modify fun t ht => ht.same (sameQueue_stop true t)) s h
  | disable =>
      refine Keeps.onlyIf (fun _ => Keeps.modify fun t ht => ?_) s h
      exact (ht.same (sameQueue_stop true t)).same ⟨rfl, rfl, rfl⟩
  | unstop => exact keeps_unstop e .unstop s h
  | enable => exact keeps_unstop e .enable s h
  | «end» => exact h.same ⟨rfl, rfl, rfl⟩
  | suspend =>
      exact Keeps.onlyIf (fun _ => Keeps.modify fun t ht => ht.same ⟨rfl, rfl, rfl⟩) s h
  | «continue» =>
      have hresume : Keeps Waits (do
          modify fun s => { s with runningTasks := s.runningTasks.map Task.resume }
          modify (Job.setState (if s.runningTasks.isEmpty then .pending else .running))
          modify Job.checkMinTasks
          tryStartTasks e.attempts : Method Unit) := by
        refine Keeps.bind (Keeps.modify fun t ht => ht.same ⟨rfl, rfl, rfl⟩) fun _ => ?_
        refine Keeps.bind (Keeps.modify fun t ht => ht.same (sameQueue_setState _ t)) fun _ => ?_
        exact Keeps.bind (Keeps.modify fun t ht => ht.same ⟨rfl, rfl, rfl⟩) fun _ => hstart
      exact hresume s h
  | wake => exact keeps_wake e s h
  | wakeWhenInPeriod =>
      exact Keeps.onlyIf (fun _ => Keeps.bind (Keeps.modify fun t ht => ht.same ⟨rfl, rfl, rfl⟩)
        fun _ => Keeps.onlyIf fun _ => hstart) s h
  | start => exact start_waits e h

/-- All calls but the one for the queue. -/
theorem keeps_onCall (e : Environment) (c : Call) (hc : c ≠ .startQueuedTask) :
    Keeps Waits (onCall e c) := by
  have hstart : Keeps Waits (tryStartTasks e.attempts) := keeps_tryStartTasks e.attempts
  have horders : Keeps Waits (processOrders e) :=
    (keptByTasks.continueTasksWaitingForOrder e).bind fun _ => hstart
  cases c with
  | stateCmd cmd => exact keeps_setStateCmd e cmd
  | periodEnd setNext =>
      refine Keeps.bind (Keeps.modify fun t ht => ht.same (sameQueue_selectPeriod e.schedule t)) fun _ => ?_
      exact Keeps.onlyIf fun _ => Keeps.modify fun t ht => ht.same (sameQueue_setNextStartTime e.schedule t)
  | startQueuedTask => exact absurd rfl hc
  | orderTimed => exact horders
  | orderPossiblyAvailable => exact horders
  | taskClosed id =>
      refine Keeps.bind (Keeps.modify fun t ht => ht.same (sameQueue_removeRunningTask e.schedule id t)) fun _ => ?_
      exact Keeps.get_bind fun t ht => Keeps.onlyIf (fun _ => hstart) t ht
  | startWhenDirectoryChanged =>
      refine Keeps.onlyIf fun _ => Keeps.bind (Keeps.modify fun t ht => ht.same ⟨rfl, rfl, rfl⟩)
        fun _ => ?_
      exact Keeps.bind (keeps_tryStartOneTask _) fun _ => Keeps.pure ()
  | periodBegin => exact hstart
  | calculatedNextTimeDoSomething => exact hstart
  | processAvailable => exact hstart
  | belowMinTasks => exact hstart
  | belowMaxTasks => exact hstart
  | locksAvailable => exact hstart

theorem keeps_onActivate (e : Environment) : Keeps Waits (onActivate e) := by
  refine Keeps.get_bind fun s h => Keeps.onlyIf (fun _ => ?_) s h
  refine Keeps.bind (Keeps.modify fun t ht => ht.same (sameQueue_setState _ t)) fun _ => ?_
  refine Keeps.bind (Keeps.modify fun t ht => ht.same ⟨rfl, rfl, rfl⟩) fun _ => ?_
  refine Keeps.bind (Keeps.modify fun t ht => ht.same ⟨rfl, rfl, rfl⟩) fun _ => ?_
  refine Keeps.bind (Keeps.modify fun t ht => ht.same ⟨rfl, rfl, rfl⟩) fun _ => ?_
  exact Keeps.modify fun t ht => ht.same (sameQueue_setNextStartTime e.schedule t)

/-! ## Due tasks that can all be started -/

/-- The task does not stop its job in its first `do_something`. -/
def Quiet (temporary : Bool) (event : TaskEvent) : Prop :=
  ∀ f, event = .finish f → f.hasError = false ∧ temporary = false

/-- What does not change while the due tasks are started: whether the job has
    locks and is temporary, and the instant. -/
structure Setting where
  locks : Bool
  temporary : Bool
  now : Time

/-- Nothing keeps a task from being started. -/
structure Unhindered (p : Setting) (a : Answers) : Prop where
  locks : p.locks = true → a.locksAreAvailable = true
  process : a.ignoreProcessClasses = true ∨ a.processAvailable = some true
  init : a.initThrows = false
  doSomething : a.doSomethingThrows = false
  quiet : ∀ event ∈ a.doSomething, Quiet p.temporary event

/-- The number of due tasks. -/
def dueCount (now : Time) (queue : List Task) : Nat := queue.countP fun k => k.startAt ≤ now

/-- Besides `reserved` tasks, the due tasks of the queue can all be started. -/
structure DuesFit (p : Setting) (reserved : Nat) (queue : List Task) (s : Job) : Prop where
  taskQueue : s.taskQueue.queue = queue
  clock : s.now = p.now
  state : s.state = .pending ∨ s.state = .running
  room : s.runningTasks.length + reserved + dueCount p.now queue ≤ s.maxTasks
  waiting : s.waitingForProcess = false ∨ s.waitingForProcessTryAgain = true
  spooler : s.spoolerState ≠ .paused ∧ s.spoolerState ≠ .stoppingLetRun
  mayStart : ∀ k ∈ queue, k.startAt ≤ p.now → k.forceStart = true ∨ s.isInPeriod = true
  hasLocks : s.lockRequestor.isSome = p.locks
  isTemporary : s.temporary = p.temporary

variable {p : Setting} {reserved : Nat} {queue rest : List Task} {a : Answers}

/-- A due task at the head of the queue may be started. -/
theorem DuesFit.mayStartTask (h : DuesFit p reserved queue s) (hdue : 0 < dueCount p.now queue) :
    s.mayStartTask = true := by
  have hroom := h.room
  have hlt : s.runningTasks.length < s.maxTasks := by omega
  have hmax : 0 < s.maxTasks := by omega
  simp only [Job.mayStartTask, Job.pendingWithTasks, Bool.and_eq_true, Bool.or_eq_true,
    decide_eq_true_eq, Bool.not_eq_true']
  refine ⟨⟨⟨?_, h.waiting⟩, h.spooler.1⟩, h.spooler.2⟩
  exact h.state.imp (fun hst => ⟨hst, hmax⟩) fun hst => ⟨hst, hlt⟩

/-- The first task of the queue is the one to start. -/
theorem DuesFit.getTaskFromQueue (h : DuesFit p reserved (k :: rest) s)
    (hdue : k.startAt ≤ p.now) : s.getTaskFromQueue = some k := by
  have herror : s.state ≠ .error := by
    rcases h.state with hst | hst <;> simp [hst]
  rw [Job.getTaskFromQueue, if_neg herror, h.taskQueue, h.clock]
  refine List.find?_cons_of_pos ?_
  simpa [hdue] using h.mayStart k (List.mem_cons_self ..) hdue

/-- `DuesFit` after changes of other fields. -/
theorem DuesFit.other (h : DuesFit p reserved queue s) (hsame : SameQueue s s')
    (hstate : s'.state = s.state) (hrunning : s'.runningTasks.length = s.runningTasks.length)
    (hmax : s'.maxTasks = s.maxTasks)
    (hwaiting : s'.waitingForProcess = false ∨ s'.waitingForProcessTryAgain = true)
    (hspooler : s'.spoolerState = s.spoolerState) (hperiod : s'.isInPeriod = s.isInPeriod)
    (hlocks : s'.lockRequestor.isSome = s.lockRequestor.isSome)
    (htemporary : s'.temporary = s.temporary) : DuesFit p reserved queue s' where
  taskQueue := by rw [hsame.taskQueue, h.taskQueue]
  clock := by rw [hsame.now, h.clock]
  state := by rw [hstate]; exact h.state
  room := by rw [hrunning, hmax]; exact h.room
  waiting := hwaiting
  spooler := by rw [hspooler]; exact h.spooler
  mayStart := by rw [hperiod]; exact h.mayStart
  hasLocks := by rw [hlocks]; exact h.hasLocks
  isTemporary := by rw [htemporary]; exact h.isTemporary

theorem DuesFit.chooseCandidate (h : DuesFit p reserved queue s) (a : Answers) :
    DuesFit p reserved queue (s.chooseCandidate a).2 := by
  have hlook : DuesFit p reserved queue (s.lookAtDirectory a) := by
    rw [Job.lookAtDirectory]
    split
    · exact h.other ⟨rfl, rfl, rfl⟩ rfl rfl rfl h.waiting rfl rfl rfl rfl
    · exact h
  have hassert : ∀ t, DuesFit p reserved queue t → DuesFit p reserved queue t.assertBelowMinTasks :=
    fun t ht => ht.other ⟨rfl, rfl, rfl⟩ rfl rfl rfl ht.waiting rfl rfl rfl rfl
  simp only [Job.chooseCandidate]
  split
  · exact h
  · split
    · refine hassert _ ?_
      split
      · exact hlook
      · exact h
    · exact h

/-- Other causes only replace the queue's. -/
theorem causeInPeriod_isSome (c : StartCause) (s : Job) :
    (s.causeInPeriod (some c)).isSome = true := by
  have hpending : (s.causeWhenPending (some c)).isSome = true := by
    rw [Job.causeWhenPending]
    split
    · rfl
    · split
      · rfl
      · split
        · split <;> rfl
        · rfl
  rw [Job.causeInPeriod]
  split
  · rfl
  · split
    · rfl
    · split
      · exact hpending
      · rfl

/-- A task from the queue is the candidate, and there is a cause to start it. -/
theorem chooseCandidate_task (a : Answers) (hk : s.getTaskFromQueue = some k) :
    (s.chooseCandidate a).1.task = some k ∧ (s.chooseCandidate a).1.cause.isSome = true := by
  simp only [Job.chooseCandidate, hk]
  split
  · exact ⟨rfl, rfl⟩
  · split
    · exact ⟨rfl, causeInPeriod_isSome _ _⟩
    · exact ⟨rfl, rfl⟩

/-- What the candidate is until its task is taken. -/
structure Chosen (p : Setting) (k : Task) (rest : List Task) (c : Candidate) (s : Job) : Prop where
  task : c.task = some k
  cause : c.cause.isSome = true
  fits : DuesFit p 0 (k :: rest) s

theorem Chosen.wanted {c : Candidate} (h : Chosen p k rest c s) : c.wanted = true := by
  rw [Candidate.wanted, h.cause]
  rfl

/-- Locks that are available are no hindrance. -/
theorem checkLocks_unhindered (ha : Unhindered p a) (c : Candidate)
    (hlocks : s.lockRequestor.isSome = p.locks) : s.checkLocks a c = (c, s) := by
  rw [Job.checkLocks]
  cases hl : s.lockRequestor with
  | none => rfl
  | some _ =>
      rw [hl] at hlocks
      rw [ha.locks hlocks.symm]
      simp

/-- Nor is a process class that has a process. -/
theorem checkProcess_unhindered (ha : Unhindered p a) (c : Candidate) (s : Job) :
    s.checkProcess a c = (c, s) ∨ s.checkProcess a c = (c, s.removeWaitingJobFromProcessList) := by
  rw [Job.checkProcess]
  split
  · rename_i hc
    have hignore : a.ignoreProcessClasses = false := by
      rw [Bool.and_eq_true, Bool.not_eq_true'] at hc
      exact hc.2
    rw [ha.process.resolve_left (by simp [hignore])]
    exact Or.inr rfl
  · exact Or.inl rfl

theorem Chosen.checkProcess {c : Candidate} (h : Chosen p k rest c s) (ha : Unhindered p a) :
    Chosen p k rest (s.checkProcess a c).1 (s.checkProcess a c).2 := by
  rcases checkProcess_unhindered ha c s with hcheck | hcheck
  · rw [hcheck]
    exact h
  · rw [hcheck]
    exact ⟨h.task, h.cause,
      h.fits.other ⟨rfl, rfl, rfl⟩ rfl rfl rfl (Or.inl rfl) rfl rfl rfl rfl⟩

/-- The task leaves the queue, and room is reserved for it. -/
theorem DuesFit.taken (h : DuesFit p 0 (k :: rest) s) (hdue : k.startAt ≤ p.now) :
    DuesFit p 1 rest { s with taskQueue := s.taskQueue.removeTask k.id } where
  taskQueue := by
    show s.taskQueue.queue.eraseP _ = rest
    rw [h.taskQueue]
    exact List.eraseP_cons_of_pos (by simp)
  clock := h.clock
  state := h.state
  room := by
    have hroom := h.room
    rw [dueCount, List.countP_cons_of_pos (by simpa using hdue)] at hroom
    show s.runningTasks.length + 1 + dueCount p.now rest ≤ s.maxTasks
    rw [dueCount]
    omega
  waiting := h.waiting
  spooler := h.spooler
  mayStart := fun j hj => h.mayStart j (List.mem_cons_of_mem k hj)
  hasLocks := h.hasLocks
  isTemporary := h.isTemporary

theorem DuesFit.afterTaskToStart (h : DuesFit p reserved queue s) (a : Answers) (started : Bool) :
    DuesFit p reserved queue (s.afterTaskToStart a started) := by
  have hsame := sameQueue_afterTaskToStart a started s
  obtain ⟨_, _, _, _, hlocks, hwaiting, hs⟩ := s.afterTaskToStart_spec a started
  rw [hs] at hsame ⊢
  exact h.other hsame rfl rfl rfl (hwaiting h.waiting) rfl rfl hlocks rfl

/-- `task_to_start` returns the first task of the queue. -/
theorem taskToStart_due (ha : Unhindered p a) (hdue : k.startAt ≤ p.now) :
    Triple (DuesFit p 0 (k :: rest)) (taskToStart a)
      (fun task s => task.isSome = true ∧ DuesFit p 1 rest s) (fun _ _ => False) := by
  refine Triple.bind (Q := Chosen p k rest) ?_ fun c => ?_
  · intro s h
    obtain ⟨htask, hcause⟩ := chooseCandidate_task a (h.getTaskFromQueue hdue)
    exact ⟨htask, hcause, h.chooseCandidate a⟩
  refine Triple.bind (Q := Chosen p k rest) ?_ fun c => ?_
  · intro s h
    show Chosen p k rest (s.checkLocks a c).1 (s.checkLocks a c).2
    rw [checkLocks_unhindered ha c h.fits.hasLocks]
    exact h
  refine Triple.bind (Q := Chosen p k rest) ?_ fun c => ?_
  · intro s h
    exact h.checkProcess ha
  refine Triple.bind (Q := fun task s => task.isSome = true ∧ DuesFit p 1 rest s) ?_ fun task => ?_
  · intro s h
    rw [if_pos h.wanted, takeTask, h.task]
    exact ⟨rfl, (h.fits.taken hdue).other ⟨rfl, rfl, rfl⟩ rfl rfl rfl h.fits.waiting rfl rfl rfl rfl⟩
  · refine Triple.bind (Q := fun _ s => task.isSome = true ∧ DuesFit p 1 rest s)
      (Triple.modify fun s h => ⟨h.1, h.2.afterTaskToStart a _⟩) fun _ => ?_
    exact Triple.pure fun s h => h

/-- The task gets the room that is reserved for it. -/
theorem DuesFit.insertRunningTask (h : DuesFit p 1 queue s) (task : Task) :
    DuesFit p 0 queue (s.insertRunningTask task) := by
  have hsame := sameQueue_insertRunningTask task s
  have hwaiting : (s.insertRunningTask task).waitingForProcess = false ∨
      (s.insertRunningTask task).waitingForProcessTryAgain = true := Job.setState_waiting h.waiting
  have hlocks : (s.insertRunningTask task).lockRequestor.isSome = s.lockRequestor.isSome :=
    Job.setState_lockRequestor_isSome
  obtain ⟨_, _, _, _, _, hset⟩ := Job.setState_spec .running { s with
    repeatIsZero := true
    delayUntil := shortTerm
    runningTasks := task :: s.runningTasks }
  have hins : s.insertRunningTask task = { Job.setState .running { s with
      repeatIsZero := true
      delayUntil := shortTerm
      runningTasks := task :: s.runningTasks } with nextStartTime := never } := rfl
  rw [hset] at hins
  refine ⟨by rw [hsame.taskQueue, h.taskQueue], by rw [hsame.now, h.clock], ?_, ?_, hwaiting, ?_, ?_,
    hlocks.trans h.hasLocks, ?_⟩
  · rw [hins]
    exact Or.inr rfl
  · have hroom := h.room
    rw [hins]
    show s.runningTasks.length + 1 + 0 + dueCount p.now queue ≤ s.maxTasks
    omega
  · rw [hins]
    exact h.spooler
  · intro k hk hdue
    refine (h.mayStart k hk hdue).imp_right fun hperiod => ?_
    -- the delay is over now
    rw [hins]
    rw [Job.isInPeriod, Bool.and_eq_true, Bool.and_eq_true] at hperiod ⊢
    exact ⟨⟨decide_eq_true (Nat.zero_le _), hperiod.1.2⟩, hperiod.2⟩
  · rw [hins]
    exact h.isTemporary

/-- A task that does not stop its job keeps what the changes of a task and of the
    flag keep. -/
theorem quiet_taskEvent {I : Job → Prop} (id : Nat) {event : TaskEvent}
    (hq : Quiet p.temporary event) (hupdate : ∀ s id f, I s → I (s.updateTask id f))
    (hflag : ∀ s, I s → I s.checkMinTasks) (htemporary : ∀ s, I s → s.temporary = p.temporary) :
    Triple I (taskEvent id event) (fun _ => I) (fun _ _ => False) := by
  cases event with
  | setState new => exact Triple.modify fun s h => hupdate s id _ h
  | runningStateReached => exact Triple.modify fun s h => hupdate s id _ h
  | cmdEnd mode => exact Triple.modify fun s h => hupdate s id _ h
  | finish f =>
      obtain ⟨hno, htemp⟩ := hq f rfl
      refine Triple.get_bind_any fun s => ?_
      cases s.task? id with
      | none => exact Triple.pure fun _ h => h
      | some task =>
          refine Triple.get_bind_any fun s => ?_
          refine Triple.bind (Q := fun _ => I) (Triple.modify fun t h => ?_) fun _ => ?_
          · have hstop : t.stopAfterTask f = t := by
              rw [Job.stopAfterTask, hno, htemporary t h, htemp]
              rfl
            rw [hstop]
            exact h
          refine Triple.bind (Q := fun _ => I) (Triple.onlyIf (fun hc => ?_) fun _ _ h => h)
            fun _ => ?_
          · rw [hno] at hc
            cases hc.1
          refine Triple.bind (Q := fun _ => I) (Triple.modify fun t h => ?_) fun _ =>
            Triple.modify fun t h => hupdate t task.id _ h
          rw [Job.onTaskFinished]
          split
          · exact hflag t h
          · exact h

theorem DuesFit.updateTask (h : DuesFit p reserved queue s) (id : Nat) (f : Task → Task) :
    DuesFit p reserved queue (s.updateTask id f) :=
  h.other ⟨rfl, rfl, rfl⟩ rfl (List.length_map _) rfl h.waiting rfl rfl rfl rfl

/-- An attempt starts the first task of the queue. -/
theorem tryStartOneTask_due (ha : Unhindered p a) (hdue : k.startAt ≤ p.now) :
    Triple (DuesFit p 0 (k :: rest)) (tryStartOneTask a)
      (fun started s => started = true ∧ DuesFit p 0 rest s) (fun _ _ => False) := by
  have hcount : 0 < dueCount p.now (k :: rest) := by
    rw [dueCount, List.countP_cons_of_pos (by simpa using hdue)]
    exact Nat.succ_pos _
  have hlaunch : ∀ task, Triple (DuesFit p 1 rest) (launch a task)
      (fun _ => DuesFit p 0 rest) (fun _ _ => False) := by
    intro task
    have hevent : ∀ event ∈ a.doSomething, Triple (DuesFit p 0 rest) (taskEvent task.id event)
        (fun _ => DuesFit p 0 rest) (fun _ _ => False) := fun event hev =>
      quiet_taskEvent task.id (ha.quiet event hev) (fun _ id f h => h.updateTask id f)
        (fun _ h => h.other ⟨rfl, rfl, rfl⟩ rfl rfl rfl h.waiting rfl rfl rfl rfl)
        fun _ h => h.isTemporary
    refine Triple.bind (Q := fun _ => DuesFit p 0 rest)
      (Triple.modify fun s h => h.insertRunningTask task) fun _ => ?_
    refine Triple.bind (Q := fun _ => DuesFit p 0 rest)
      (Triple.modify fun s h => h.updateTask task.id _) fun _ => ?_
    refine Triple.bind (Q := fun _ => DuesFit p 0 rest)
      (Triple.require (fun _ _ h => h) fun hc => ?_) fun _ => ?_
    · rw [ha.init] at hc
      cases hc
    refine Triple.bind (Q := fun _ => DuesFit p 0 rest) (Triple.modify fun s h => ?_) fun _ => ?_
    · exact h.other ⟨rfl, rfl, rfl⟩ rfl rfl rfl h.waiting rfl rfl rfl rfl
    refine Triple.bind (Q := fun _ => DuesFit p 0 rest)
      (Triple.forEach hevent) fun _ => ?_
    refine Triple.bind (Q := fun _ => DuesFit p 0 rest)
      (Triple.require (fun _ _ h => h) fun hc => ?_) fun _ => Triple.modify fun s h => ?_
    · rw [ha.doSomething] at hc
      cases hc
    · exact h.other ⟨rfl, rfl, rfl⟩ rfl rfl rfl h.waiting rfl rfl rfl rfl
  have hstart : Triple (DuesFit p 0 (k :: rest)) (startOneTask a)
      (fun started s => started = true ∧ DuesFit p 0 rest s) (fun _ _ => False) := by
    refine (taskToStart_due ha hdue).bind fun task => ?_
    intro s hs
    obtain ⟨hsome, hfit⟩ := hs
    obtain ⟨task, rfl⟩ := Option.isSome_iff_exists.mp hsome
    exact ((hlaunch task).bind fun _ => Triple.pure fun _ h => ⟨rfl, h⟩) s hfit
  refine Triple.get_bind fun s => ?_
  refine Triple.bind (Q := fun started t => started = true ∧ DuesFit p 0 rest t) ?_ fun started => ?_
  · refine Triple.ite (fun _ => ?_) fun hnot => ?_
    · have hcatch : Triple (DuesFit p 0 (k :: rest)) (catchJobError (startOneTask a))
          (fun started s => started = true ∧ DuesFit p 0 rest s) (fun _ _ => False) :=
        hstart.tryCatch fun _ _ hfalse => hfalse.elim
      exact hcatch.consequence (fun _ h => h.2) (fun _ _ h => h) fun _ _ h => h
    · rintro t ⟨rfl, ht⟩
      exact absurd (ht.mayStartTask hcount) hnot
  · refine Triple.bind (Q := fun _ t => started = true ∧ DuesFit p 0 rest t)
      (Triple.onlyIf (fun hc => ?_) fun _ _ h => h) fun _ => Triple.pure fun _ h => h
    rintro t ⟨rfl, -⟩
    cases hc.1

/-! ## The call for the queue -/

/-- No task of the queue is due. -/
def NoDue (now : Time) (s : Job) : Prop :=
  s.now = now ∧ ∀ k ∈ s.taskQueue.queue, now < k.startAt

theorem noDue_ofQueue (now : Time) : OfQueue (NoDue now) := by
  rintro s s' ⟨hq, -, hn⟩ ⟨hnow, hahead⟩
  refine ⟨hn.trans hnow, ?_⟩
  rw [hq]
  exact hahead

theorem keeps_noDue (ha : Unhindered p a) (now : Time) :
    Keeps (NoDue now) (tryStartOneTask a) := by
  have hremove : ∀ s id, NoDue now s → NoDue now { s with taskQueue := s.taskQueue.removeTask id } :=
    fun s id h => ⟨h.1, fun k hk => h.2 k (List.eraseP_sublist.mem hk)⟩
  refine ((noDue_ofQueue now).keptByStart hremove).tryStartOneTask a fun id event hev => ?_
  refine (noDue_ofQueue now).keptWithoutError.taskEvent id event fun fin task hfin herror => ?_
  rw [((ha.quiet event hev) fin hfin).1] at herror
  cases herror

theorem DuesFit.noDue (h : DuesFit p reserved queue s) (hzero : dueCount p.now queue = 0) :
    NoDue p.now s := by
  refine ⟨h.clock, fun k hk => ?_⟩
  rw [h.taskQueue] at hk
  exact lt_of_not_ge (by simpa using List.countP_eq_zero.mp hzero k hk)

/-- The loop starts one due task after the other. -/
theorem tryStartTasksLoop_noDue {answers : Nat → Answers} (ha : ∀ n, Unhindered p (answers n))
    (n : Nat) (hs : DuesFit p 0 queue s) (hsorted : Sorted Task.startAt queue)
    (hn : dueCount p.now queue ≤ n) :
    NoDue p.now (final (tryStartTasksLoop answers n) s) := by
  induction n generalizing s queue with
  | zero => exact hs.noDue (Nat.le_zero.mp hn)
  | succ n ih =>
      by_cases hzero : dueCount p.now queue = 0
      · exact tryStartTasksLoop_keeps (fun m => keeps_noDue (ha m) p.now) (n + 1) s
          (hs.noDue hzero)
      · obtain ⟨j, hj, hdue⟩ := List.countP_pos_iff.mp (Nat.pos_of_ne_zero hzero)
        -- the queue is sorted, so its first task is due
        cases queue with
        | nil => cases hj
        | cons k rest =>
            have hhead : k.startAt ≤ j.startAt := by
              obtain rfl | hj := List.mem_cons.mp hj
              · exact le_refl _
              · exact (List.pairwise_cons.mp hsorted).1 j hj
            have hk : k.startAt ≤ p.now := hhead.trans (of_decide_eq_true hdue)
            have hrest : dueCount p.now (k :: rest) = dueCount p.now rest + 1 :=
              List.countP_cons_of_pos (by simpa using hk)
            have hstep := tryStartOneTask_due (ha n) hk s hs
            rcases hrun : tryStartOneTask (answers n) s with ⟨res, s'⟩
            rw [hrun] at hstep
            cases res with
            | error e => exact hstep.elim
            | ok started =>
                obtain ⟨rfl, hfit⟩ := hstep
                have hloop := ih hfit (List.pairwise_cons.mp hsorted).2 (by omega)
                rw [final, tryStartTasksLoop, bind_run, hrun]
                exact hloop

/-- The setting of a job. -/
def setting (s : Job) : Setting := ⟨s.lockRequestor.isSome, s.temporary, s.now⟩

/-- The due tasks of the queue can all be started when the call is executed. -/
def DuesStart (e : Environment) (s : Job) : Prop :=
  DuesFit (setting s) 0 s.taskQueue.queue s ∧ ∀ n, Unhindered (setting s) (e.attempts n)

theorem tryStartTasks_noDue {e : Environment} (h : DuesStart e s) :
    NoDue s.now (final (tryStartTasks e.attempts) s) := by
  have hroom := h.1.room
  exact tryStartTasksLoop_noDue h.2 (s.maxTasks + 1) h.1 s.taskQueue.sorted (by omega)

theorem callsKept_ofQueue : OfQueue CallsKept := by
  rintro s s' ⟨-, hc, hn⟩ h
  refine ⟨?_, ?_, ?_⟩
  · rw [hc]
    exact h.registered
  · rw [hc]
    exact h.isOpen
  · rw [hc, hn]
    exact h.executed

theorem keeps_callsKept (answers : Nat → Answers) : Keeps CallsKept (tryStartTasks answers) := by
  have hqueue : ∀ s q, CallsKept s → CallsKept { s with taskQueue := q } :=
    fun _ _ h => ⟨h.registered, h.isOpen, h.executed⟩
  have htasks : KeptByTasks CallsKept :=
    { toKeptWithoutError := callsKept_ofQueue.keptWithoutError
      pending := fun s h _ => callsKept_ofQueue s _ (sameQueue_setState .pending s) h
      enqueue := fun s _ h _ => (hqueue s _ h).callAtStart _
      delay := fun s _ h => callsKept_ofQueue s _ ⟨rfl, rfl, rfl⟩ h }
  exact tryStartTasks_keeps fun n => (callsKept_ofQueue.keptByStart fun s _ => hqueue s _).tryStartOneTask _
    fun id event _ => htasks.taskEvent id event

/-- When the call is executed, a call for the tasks that stay is registered. -/
theorem onStartQueuedTaskCall_waits (e : Environment) (h : CallsKept s)
    (hguard : (∀ k ∈ s.taskQueue.queue, ¬InFuture s k.startAt) ∨
      (∀ k ∈ s.taskQueue.queue, s.now < k.startAt) ∨ DuesStart e s) :
    Waits (final (onStartQueuedTaskCall e) s) := by
  have hahead : ∀ t, CallsKept t → (∀ k ∈ t.taskQueue.queue, t.now < k.startAt) →
      Waits (t.callAtStart t.taskQueue.nextStartTime) := by
    intro t ht hlt
    refine ht.waits_callAtStart fun k hk _ he => ?_
    exact absurd (ht.executed _ he) (not_le_of_gt (lt_nextStartTime hk hlt))
  simp only [onStartQueuedTaskCall, final, bind_run, get_run]
  by_cases ht : s.taskQueue.nextStartTime ≤ s.now
  · simp only [if_pos ht, bind_run, tryStartTasks_ok, get_run, onlyIf]
    have hkept := keeps_callsKept e.attempts s h
    have hnone : (∀ k ∈ s.taskQueue.queue, ¬InFuture s k.startAt) →
        Waits (final (if (final (tryStartTasks e.attempts) s).taskQueue.nextStartTime
          ≠ s.taskQueue.nextStartTime
          then modify (Job.callAtStart
            (final (tryStartTasks e.attempts) s).taskQueue.nextStartTime)
          else pure () : Method Unit) (final (tryStartTasks e.attempts) s)) := by
      intro hno
      have hwaits : Waits s := ⟨h, fun k hk hfuture => absurd hfuture (hno k hk)⟩
      have hwaits' := keeps_tryStartTasks e.attempts s hwaits
      split
      · exact hwaits'.toCallsKept.waits_callAtStart fun k hk hfuture =>
          hwaits'.not_executed (hwaits'.waits k hk hfuture)
      · exact hwaits'
    have hempty : (∀ k ∈ s.taskQueue.queue, s.now < k.startAt) →
        ∀ k ∈ s.taskQueue.queue, ¬InFuture s k.startAt := fun hlt k hk =>
      absurd ht (not_le_of_gt (lt_nextStartTime hk hlt))
    rcases hguard.imp_right (Or.imp_left hempty) with hno | hno | hstart
    · -- nothing lies in the future, before or after
      exact hnone hno
    · exact hnone hno
    · obtain ⟨hnow, hlt⟩ := tryStartTasks_noDue hstart
      have hlt' : ∀ k ∈ (final (tryStartTasks e.attempts) s).taskQueue.queue,
          (final (tryStartTasks e.attempts) s).now < k.startAt := by
        rw [hnow]
        exact hlt
      split
      · exact hahead _ hkept hlt'
      · rename_i hsame
        refine ⟨hkept, fun k hk _ => ?_⟩
        have hle : (final (tryStartTasks e.attempts) s).taskQueue.nextStartTime ≤ s.now :=
          (not_not.mp hsame).trans_le ht
        exact absurd hle (not_le_of_gt (lt_nextStartTime hk hlt))
  · rw [if_neg ht]
    exact hahead s h fun k hk => lt_of_lt_of_le (lt_of_not_ge ht) (nextStartTime_le _ hk)

/-! ## Runs -/

/-- When the operations keep the job awake: a task of the database that lies in
    the future finds a call registered, a task that lies in the future is not
    enqueued behind a due one whose call has been executed, and when the call is
    executed no due task stays in front of one that lies in the future. -/
def KeepsAwake (s : Job) (op : Environment × Op) : Prop :=
  match op.2 with
  | .loadTask _ startAt => InFuture s startAt → CalledUntil s startAt
  | .startTask _ startAt => InFuture s startAt →
      ¬Executed s.calls 0 startQueuedTaskCall s.taskQueue.nextStartTime
  | .call .startQueuedTask => (∀ k ∈ s.taskQueue.queue, ¬InFuture s k.startAt) ∨
      (∀ k ∈ s.taskQueue.queue, s.now < k.startAt) ∨ DuesStart op.1 s
  | _ => True

/-- The call is taken out of the queue before it is executed. -/
theorem CallsKept.executeMatureCall (h : CallsKept s) :
    CallsKept { s with calls := final (executeMatureCall s.now.millis) s.calls } where
  registered := by
    have hstep : TypedCallRegister.Step s.calls (.executeMatureCall s.now.millis)
        (final (TypedCallRegister.executeMatureCall s.now.millis) s.calls) := ⟨trivial, rfl⟩
    exact h.registered.step hstep
  isOpen := by
    show (s.calls.callQueue.popMature s.now.millis).2.closed = false
    rw [CallQueue.StandardCallQueue.popMature]
    split <;> exact h.isOpen
  executed := by
    intro t he
    rcases TypedCallRegister.executed_of_executeMatureCall he with hold | hdue
    · exact h.executed t hold
    · exact hdue

/-- A task of the database is put into the queue. -/
theorem loadTask_waits (e : Environment) (force : Bool) (startAt : Time) (h : Waits s)
    (hguard : InFuture s startAt → CalledUntil s startAt) :
    Waits (final (perform e (.loadTask force startAt)) s) := by
  have hcreate := createTask_spec (I := fun t => Waits t ∧ SameQueue s t) (fun t ht _ =>
    ⟨ht.1.same (sameQueue_setState .pending t), ht.2.trans (sameQueue_setState .pending t)⟩)
    e.taskId force startAt
  have hspec : Triple (fun t => Waits t ∧ SameQueue s t) (perform e (.loadTask force startAt))
      (fun _ => Waits) (fun _ => Waits) := by
    refine Triple.bind (hcreate.consequence (fun _ ht => ht) (fun _ _ ht => ht) fun _ _ ht => ht.1)
      fun task => Triple.modify ?_
    rintro t ⟨rfl, ht, hsame⟩
    refine ⟨⟨ht.registered, ht.isOpen, ht.executed⟩, fun k hk hfuture => ?_⟩
    obtain rfl | hk := mem_insertByKey.mp hk
    · have hcalled : CalledUntil s k.startAt := by
        refine hguard ?_
        rw [InFuture, ← hsame.now]
        exact hfuture
      show ∃ c ∈ t.calls.callQueue.queue, _
      rw [hsame.calls]
      exact hcalled
    · exact ht.waits k hk hfuture
  exact hspec.final ⟨h, .refl s⟩

/-- A step that meets the condition keeps the invariant. -/
theorem Waits.step {op : Environment × Op} (h : Waits s) (hguard : KeepsAwake s op)
    (hs : Step s op s') : Waits s' := by
  obtain ⟨e, op⟩ := op
  obtain ⟨henabled, rfl⟩ := hs
  cases op with
  | stateCmd cmd => exact keeps_setStateCmd e cmd s h
  | call c =>
      cases c with
      | startQueuedTask =>
          refine onStartQueuedTaskCall_waits e h.executeMatureCall ?_
          refine hguard.imp_right (Or.imp_right fun hstart => ⟨?_, hstart.2⟩)
          obtain ⟨hq, hnow, hst, hroom, hwait, hspooler, hmay, hlocks, htemp⟩ := hstart.1
          exact ⟨hq, hnow, hst, hroom, hwait, hspooler, hmay, hlocks, htemp⟩
      | _ => exact keeps_onCall e _ (by simp) s h
  | startTask force startAt =>
      refine (startTask_spec (I := fun t => Waits t ∧ SameQueue s t) ?_ (fun _ ht => ht.1)
        _ _ _ _ ?_).final ⟨h, .refl s⟩
      · intro t ht _
        exact ⟨ht.1.same (sameQueue_setState .pending t), ht.2.trans (sameQueue_setState .pending t)⟩
      · rintro t task ⟨ht, hsame⟩ rfl
        refine ht.enqueue task ?_
        rw [InFuture, hsame.now, hsame.calls, hsame.taskQueue]
        exact hguard
  | loadTask force startAt => exact loadTask_waits e force startAt h hguard
  | loaded => exact h.same (sameQueue_setState .loaded s)
  | activate => exact keeps_onActivate e s h
  | killQueuedTask id => exact h.killQueuedTask id
  | task id event => exact keptByTasks.taskEvent id event s h
  | notifyAProcessIsAvailable => exact h.same ⟨rfl, rfl, rfl⟩
  | scheduleModified => exact h.same (sameQueue_setNextStartTime e.schedule s)
  | stopSimply endAllTasks => exact h.same (sameQueue_stopSimply endAllTasks s)
  | endTasks => exact h.same ⟨rfl, rfl, rfl⟩
  | prepareToRemove =>
      have hs := sameQueue_stopSimply true s.endTasks
      exact (h.same (⟨rfl, rfl, rfl⟩ : SameQueue s s.endTasks)).same
        (hs.trans ⟨rfl, rfl, rfl⟩)
  | setSpoolerState new => exact h.same ⟨rfl, rfl, rfl⟩
  | tick now =>
      have hle : s.now ≤ now := of_decide_eq_true henabled
      refine ⟨⟨h.registered, h.isOpen, fun t he => (h.executed t he).trans hle⟩, ?_⟩
      intro k hk hfuture
      exact h.waits k hk ⟨lt_of_le_of_lt hle hfuture.1, hfuture.2⟩

theorem Waits.initial (h : Initial s) : Waits s where
  registered := by
    rw [h.calls]
    exact TypedCallRegister.registered_noCalls
  isOpen := by
    rw [h.calls]
    rfl
  executed := by
    rintro t ⟨c, hrem, -⟩
    rw [h.calls] at hrem
    cases hrem
  waits := by
    intro k hk
    rw [h.taskQueue] at hk
    cases hk

end JobQueueCall
