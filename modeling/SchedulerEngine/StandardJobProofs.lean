import SchedulerEngine.TypedCallRegisterProofs

/-! # A job and its tasks

    A `Standard_job` keeps the tasks that wait in its queue and the tasks that it
    has started.  Commands, events and calls change the job's state and start
    tasks; the schedule, the locks, the process classes and the order queues
    answer what the job asks them. -/

namespace StandardJob

open Execution Execution.Exec TypedCallRegister RunInvariant SortedInsert

/-! ## Tasks -/

/-- `Start_cause`. -/
inductive StartCause where
  | periodOnce | periodSingle | periodRepeat | queue | queueAt | directory
  | delayAfterError | order | wake | minTasks
deriving DecidableEq

/-- `Task_end_mode`. -/
inductive TaskEndMode where
  | none | normal | nice | killImmediately
deriving DecidableEq

/-- `Task::State`; from `ending` on the task is ending. -/
inductive TaskState where
  | none | loading | waitingForProcess | starting | opening | openingWaitingForLocks
  | running | runningDelayed | runningWaitingForLocks | runningWaitingForOrder
  | runningProcess | runningRemoteProcess | suspended
  | ending | endingWaitingForSubprocesses | onSuccess | onError | exit | release
  | killing | ended | deletingFiles | closed
deriving DecidableEq

/-- `_state >= s_ending`. -/
def TaskState.fromEnding : TaskState → Bool
  | .ending | .endingWaitingForSubprocesses | .onSuccess | .onError | .exit | .release
  | .killing | .ended | .deletingFiles | .closed => true
  | _ => false

structure Task where
  id : Nat
  forceStart : Bool
  startAt : Time
  cause : Option StartCause
  state : TaskState
  endMode : TaskEndMode
  runningStateReached : Bool
deriving DecidableEq

namespace Task

/-- `Task::ending`. -/
def ending (t : Task) : Bool := t.endMode ≠ .none || t.state.fromEnding

/-- `Task::is_idle`. -/
def isIdle (t : Task) : Bool := t.state = .runningWaitingForOrder && t.endMode = .none

/-- `Task::cmd_end`, which is not called with the mode `none`. -/
def cmdEnd (mode : TaskEndMode) (t : Task) : Task :=
  if mode = .none ∨ t.endMode = .killImmediately then t else { t with endMode := mode }

/-- `Task::set_state`; a task that is ending gets no earlier state again. -/
def setState (new : TaskState) (t : Task) : Task :=
  if t.state.fromEnding && !new.fromEnding then t else { t with state := new }

/-- What `sc_suspend` does with a task. -/
def suspend (t : Task) : Task :=
  if t.state ∈ [.running, .runningDelayed, .runningWaitingForOrder] then t.setState .suspended
  else t

/-- What `sc_continue` does with a task. -/
def resume (t : Task) : Task :=
  if t.state ∈ [.suspended, .runningDelayed, .runningWaitingForOrder] then t.setState .running
  else t

end Task

/-- `Task_queue`: the tasks in the order of their start times. -/
structure TaskQueue where
  queue : List Task
  sorted : Sorted Task.startAt queue

namespace TaskQueue

def empty : TaskQueue := ⟨[], List.Pairwise.nil⟩

/-- `Task_queue::enqueue_task`. -/
def enqueueTask (task : Task) (q : TaskQueue) : TaskQueue :=
  ⟨insertByKey Task.startAt task q.queue, q.sorted.insert task⟩

/-- `Task_queue::remove_task`. -/
def removeTask (id : Nat) (q : TaskQueue) : TaskQueue :=
  ⟨q.queue.eraseP fun k => k.id = id, q.sorted.sublist List.eraseP_sublist⟩

/-- `Task_queue::next_start_time`. -/
def nextStartTime (q : TaskQueue) : Time :=
  min ((q.queue.find? fun k => k.forceStart).elim never Task.startAt)
    ((q.queue.find? fun k => !k.forceStart).elim never Task.startAt)

end TaskQueue

/-! ## The job -/

/-- `Job::State`, in the order of the enumeration. -/
inductive State where
  | notInitialized | initialized | loaded | stopping | stopped | error | pending | running
deriving DecidableEq

/-- `_state < s_pending`. -/
def State.beforePending : State → Bool
  | .pending | .running => false
  | _ => true

/-- `_state > s_loaded`. -/
def State.afterLoaded : State → Bool
  | .notInitialized | .initialized | .loaded => false
  | _ => true

/-- `Spooler::State`, as far as a job asks for it. -/
inductive SpoolerState where
  | running | paused | stopping | stoppingLetRun
deriving DecidableEq

/-- An exception that a method throws. -/
inductive Xc where
  | scheduler143 | scheduler204 | scheduler230 | scheduler396
  | database
  | task
deriving DecidableEq

structure Job where
  state : State
  runningTasks : List Task
  /-- Tasks of the job that run without being in `_running_tasks`. -/
  wokenTasks : List Task
  taskQueue : TaskQueue
  minTasks : Nat
  maxTasks : Nat
  startMinTasks : Bool
  enabled : Bool
  isPermanentlyStopped : Bool
  isToBeRemoved : Bool
  temporary : Bool
  stopOnError : Bool
  delaysAfterError : Bool
  repeatIsZero : Bool
  waitingForProcess : Bool
  waitingForProcessTryAgain : Bool
  wakeWhenInPeriod : Bool
  startOnce : Bool
  startOnceForDirectory : Bool
  directoryChanged : Bool
  periodBegin : Time
  periodEnd : Time
  nextSingleStart : Time
  nextStartTime : Time
  delayUntil : Time
  /-- The lock requestor, and whether it is enqueued. -/
  lockRequestor : Option Bool
  spoolerState : SpoolerState
  now : Time
  /-- The call register of the job, as far as `Start_queued_task_call`s go. -/
  calls : Calls
  /-- `assert( not_ending_tasks_count() < _min_tasks )` has failed. -/
  assertionFailed : Bool

abbrev Method := Exec Job Xc

/-- What `_schedule_use` answers. -/
structure Schedule where
  isDefined : Bool
  periodBegin : Time
  periodEnd : Time
  periodIsSeamless : Bool
  once : Bool
  nextSingleStart : Time
  nextStartTime : Time
  periodFollows : Bool

/-- The type of the calls that are registered for the tasks of the queue. -/
def startQueuedTaskCall : String := "Start_queued_task_call"

namespace Job

/-- `not_ending_tasks_count`. -/
def notEndingTasksCount (s : Job) : Nat := s.runningTasks.countP fun t => !t.ending

/-- `below_min_tasks`. -/
def belowMinTasks (s : Job) : Bool := 0 < s.minTasks && s.notEndingTasksCount < s.minTasks

/-- `should_start_task_because_of_min_tasks`. -/
def shouldStartTaskBecauseOfMinTasks (s : Job) : Bool :=
  (s.state = .pending || s.state = .running) && s.belowMinTasks

/-- `is_in_period`. -/
def isInPeriod (s : Job) : Bool :=
  s.delayUntil ≤ s.now && s.periodBegin ≤ s.now && s.now < s.periodEnd

/-- `remove_waiting_job_from_process_list`. -/
def removeWaitingJobFromProcessList (s : Job) : Job :=
  { s with waitingForProcess := false, waitingForProcessTryAgain := false }

/-- `dequeue_lock_requests`. -/
def dequeueLockRequests (s : Job) : Job :=
  { s with lockRequestor := s.lockRequestor.map fun _ => false }

/-- `set_state`. -/
def setState (new : State) (s : Job) : Job :=
  if new = s.state then s
  else
    let s : Job := { s with
      state := new
      nextStartTime := if new ∈ [.stopped, .error] then never else s.nextStartTime
      isPermanentlyStopped := s.isPermanentlyStopped && new ∉ [.pending, .running] }
    (if s.waitingForProcess then s.removeWaitingJobFromProcessList else s).dequeueLockRequests

/-- `set_job_error`. -/
def setJobError (s : Job) : Job := s.setState .error

/-- `end_tasks`. -/
def endTasks (s : Job) : Job :=
  { s with runningTasks := s.runningTasks.map fun t => if t.ending then t else t.cmdEnd .normal }

/-- `stop_simply`. -/
def stopSimply (endAllTasks : Bool) (s : Job) : Job :=
  let s := s.setState (if s.runningTasks.isEmpty then .stopped else .stopping)
  let s := if endAllTasks then s.endTasks else s
  { s with startMinTasks := false }

/-- `stop`. -/
def stop (endAllTasks : Bool) (s : Job) : Job :=
  stopSimply endAllTasks { s with isPermanentlyStopped := true }

/-- `stop_after_task_error`. -/
def stopAfterTaskError (s : Job) : Job := if s.stopOnError then s.stop false else s

/-- `check_min_tasks`. -/
def checkMinTasks (s : Job) : Job :=
  { s with startMinTasks := !s.startMinTasks && s.shouldStartTaskBecauseOfMinTasks }

/-- `on_task_finished`. -/
def onTaskFinished (task : Task) (s : Job) : Job :=
  if !s.startMinTasks && (s.state = .pending || s.state = .running) && task.runningStateReached
  then s.checkMinTasks else s

/-- `select_period`. -/
def selectPeriod (sch : Schedule) (s : Job) : Job :=
  let s :=
    if !sch.isDefined then { s with periodBegin := never, periodEnd := never }
    else if s.periodEnd ≤ s.now ∨ s.periodBegin = never ∧ s.periodEnd = never then
      { s with
        wakeWhenInPeriod := s.wakeWhenInPeriod && sch.periodIsSeamless
        periodBegin := sch.periodBegin
        periodEnd := sch.periodEnd }
    else s
  { s with startOnce := sch.isDefined && sch.once }

/-- `set_next_start_time`; the times are the schedule's. -/
def setNextStartTime (sch : Schedule) (s : Job) : Job :=
  let s := s.selectPeriod sch
  if !s.state.beforePending && sch.isDefined then
    { s with nextSingleStart := sch.nextSingleStart, nextStartTime := sch.nextStartTime }
  else { s with nextSingleStart := never, nextStartTime := never }

/-- Change a task that has been started. -/
def updateTask (id : Nat) (f : Task → Task) (s : Job) : Job :=
  let g := fun t => if t.id = id then f t else t
  { s with runningTasks := s.runningTasks.map g, wokenTasks := s.wokenTasks.map g }

/-- A task that has been started. -/
def task? (s : Job) (id : Nat) : Option Task :=
  (s.runningTasks ++ s.wokenTasks).find? fun t => t.id = id

/-- `remove_running_task`, called by `Task_subsystem::remove_task`. -/
def removeRunningTask (sch : Schedule) (id : Nat) (s : Job) : Job :=
  let s := { s with
    runningTasks := s.runningTasks.eraseP fun t => t.id = id
    wokenTasks := s.wokenTasks.eraseP fun t => t.id = id }
  if s.runningTasks.isEmpty then
    match s.state with
    | .stopping => s.setState .stopped
    | .running => (s.setState .pending).setNextStartTime sch
    | _ => s
  else s

/-- `_call_register.call_at<Start_queued_task_call>(t)`. -/
def callAtStart (t : Time) (s : Job) : Job :=
  { s with calls := final (callAt 0 startQueuedTaskCall t) s.calls }

/-- The task gets into the queue and the call is registered. -/
def enqueue (task : Task) (s : Job) : Job :=
  let s := { s with taskQueue := s.taskQueue.enqueueTask task }
  s.callAtStart s.taskQueue.nextStartTime

/-- `get_task_from_queue`. -/
def getTaskFromQueue (s : Job) : Option Task :=
  if s.state = .error then none
  else s.taskQueue.queue.find? fun k => k.startAt ≤ s.now && (k.forceStart || s.isInPeriod)

/-- `kill_queued_task`. -/
def killQueuedTask (id : Nat) (s : Job) : Job :=
  if s.taskQueue.queue.any fun k => k.id = id then
    let s := { s with taskQueue := s.taskQueue.removeTask id }
    s.callAtStart s.taskQueue.nextStartTime
  else s

end Job

/-! ## Creating and finishing tasks -/

/-- The `switch` on the state in `create_task`. -/
def leaveStopped (force : Bool) : Method Unit := do
  let s ← get
  match s.state with
  | .error => throw .scheduler204
  | .stopped => onlyIf (force ∧ s.spoolerState ≠ .stopping) (modify (Job.setState .pending))
  | .notInitialized => throw .scheduler396
  | _ => pure ()

/-- `create_task`; `id` is what the database gives. -/
def createTask (id : Option Nat) (force : Bool) (startAt : Time) : Method Task := do
  let id ← Exec.ofExcept (id.elim (.error .database) .ok)
  let s ← get
  require (!s.isToBeRemoved) .scheduler230
  leaveStopped force
  let forceStart := if startAt = shortTerm then false else force
  pure ⟨id, forceStart, startAt, none, .none, .none, false⟩

/-- `enqueue_task`. -/
def enqueueTask (periodFollows : Bool) (task : Task) : Method Unit := do
  let s ← get
  require (!s.state.afterLoaded || task.forceStart || periodFollows) .scheduler143
  modify (Job.enqueue task)

/-- `start_task`. -/
def startTask (id : Option Nat) (periodFollows : Bool) (force : Bool) (startAt : Time) :
    Method Unit := do
  let task ← createTask id force startAt
  enqueueTask periodFollows task

/-- How a task finishes: with an error or not, and what happens when the job
    delays after errors. -/
structure Finish where
  hasError : Bool
  /-- The instant until which the job is delayed; `none` stops it. -/
  delayUntil : Option Time
  retryId : Option Nat
  periodFollows : Bool

/-- The delay after an error, in `Task::finish`. -/
def delayAfterError (f : Finish) (task : Task) : Method Unit :=
  match f.delayUntil with
  | none => modify (Job.stop false)
  | some t => do
      modify fun s => { s with delayUntil := t }
      onlyIf (task.cause = some .queue) <|
        tryCatch (startTask f.retryId f.periodFollows true shortTerm) fun _ => do
          modify fun s => { s with delayUntil := shortTerm }
          modify Job.stopAfterTaskError

/-- How a finished task stops the job. -/
def Job.stopAfterTask (f : Finish) (s : Job) : Job :=
  if f.hasError && s.repeatIsZero && !s.delaysAfterError then s.stopAfterTaskError
  else if s.temporary && s.repeatIsZero then s.stop false
  else s

/-- `Task::finish`; then the task is closed. -/
def finish (f : Finish) (task : Task) : Method Unit := do
  let s ← get
  modify (Job.stopAfterTask f)
  onlyIf (f.hasError ∧ s.delaysAfterError ∧ s.repeatIsZero) (delayAfterError f task)
  modify (Job.onTaskFinished task)
  modify (Job.updateTask task.id (Task.setState .closed))

/-- What `Task::do_something` and the commands to a task do. -/
inductive TaskEvent where
  | setState (new : TaskState)
  | runningStateReached
  | cmdEnd (mode : TaskEndMode)
  | finish (f : Finish)

def taskEvent (id : Nat) : TaskEvent → Method Unit
  | .setState new => modify (Job.updateTask id (Task.setState new))
  | .runningStateReached =>
      modify (Job.updateTask id fun t => { t with runningStateReached := true })
  | .cmdEnd mode => modify (Job.updateTask id (Task.cmdEnd mode))
  | .finish f => do
      let s ← get
      match s.task? id with
      | some task => finish f task
      | none => pure ()

/-! ## Starting tasks -/

/-- What the job is told while it tries to start one task. -/
structure Answers where
  requestOrder : Bool
  fetchOrder : Bool
  triggerFiles : Bool
  locksAreAvailable : Bool
  ignoreProcessClasses : Bool
  /-- The default process class, and whether it has a process. -/
  processAvailable : Option Bool
  /-- The task of this job that `try_to_free_process` ends, if it is idle. -/
  freedTask : Option Nat
  taskId : Option Nat
  initThrows : Bool
  /-- What the new task does in its first `do_something`. -/
  doSomething : List TaskEvent
  doSomethingThrows : Bool

/-- Whether a task shall be started, and why. -/
structure Candidate where
  task : Option Task
  cause : Option StartCause
  hasOrder : Bool

namespace Candidate

/-- `cause || has_order`. -/
def wanted (c : Candidate) : Bool := c.cause.isSome || c.hasOrder

def dropped : Candidate := ⟨none, none, false⟩

end Candidate

namespace Job

/-- The once-only look at the watched directories. -/
def lookAtDirectory (a : Answers) (s : Job) : Job :=
  if s.startOnceForDirectory then
    { s with startOnceForDirectory := false, directoryChanged := s.directoryChanged || a.triggerFiles }
  else s

/-- The cause that a pending job has in its period. -/
def causeWhenPending (cause : Option StartCause) (s : Job) : Option StartCause :=
  if s.directoryChanged then some .directory
  else if s.startOnce then some .periodOnce
  else if s.nextStartTime ≤ s.now then
    if s.delayUntil ≠ shortTerm ∧ s.delayUntil ≤ s.now then some .delayAfterError
    else some .periodRepeat
  else cause

/-- The state of a job without tasks that may start one. -/
def pendingWithTasks (s : Job) : Bool := s.state = .pending && 0 < s.maxTasks

/-- `assert( not_ending_tasks_count() < _min_tasks )`, if `_start_min_tasks`. -/
def assertBelowMinTasks (s : Job) : Job :=
  { s with assertionFailed := s.assertionFailed ||
      s.startMinTasks && !decide (s.notEndingTasksCount < s.minTasks) }

/-- `_wake_when_in_period` starts a task. -/
def wakes (s : Job) : Bool :=
  s.wakeWhenInPeriod && (s.state = .pending || s.state = .running) &&
    s.runningTasks.length < s.maxTasks

/-- The cause that a job has in its period; a later one of the source replaces
    the earlier ones. -/
def causeInPeriod (cause : Option StartCause) (s : Job) : Option StartCause :=
  if s.startMinTasks then some .minTasks
  else if s.wakes then some .wake
  else if s.pendingWithTasks then s.causeWhenPending cause
  else cause

/-- The first part of `task_to_start`: is there a task, or a cause to start one? -/
def chooseCandidate (a : Answers) (s : Job) : Candidate × Job :=
  let task := s.getTaskFromQueue
  let cause := task.map fun k => if k.startAt = shortTerm then StartCause.queue else .queueAt
  if s.pendingWithTasks && s.nextSingleStart ≤ s.now then
    (⟨task, some .periodSingle, a.requestOrder⟩, s)
  else if s.isInPeriod then
    let s := if s.pendingWithTasks then s.lookAtDirectory a else s
    (⟨task, s.causeInPeriod cause, a.requestOrder⟩, s.assertBelowMinTasks)
  else (⟨task, cause, false⟩, s)

/-- The second part: no task is started without the locks. -/
def checkLocks (a : Answers) (c : Candidate) (s : Job) : Candidate × Job :=
  match s.lockRequestor with
  | some _ =>
      if c.wanted && !a.locksAreAvailable then (.dropped, { s with lockRequestor := some true })
      else (c, s)
  | none => (c, s)

/-- `Task_subsystem::try_to_free_process`, as far as it reaches this job. -/
def tryToFreeProcess (freed : Option Nat) (s : Job) : Job :=
  match freed with
  | some id => s.updateTask id fun t => if t.isIdle then t.cmdEnd .nice else t
  | none => s

/-- The third part: no task is started without a process. -/
def checkProcess (a : Answers) (c : Candidate) (s : Job) : Candidate × Job :=
  if c.wanted && !a.ignoreProcessClasses then
    match a.processAvailable with
    | some true => (c, s.removeWaitingJobFromProcessList)
    | some false =>
        if c.cause ≠ some .minTasks ∧ (!s.waitingForProcess || s.waitingForProcessTryAgain) then
          (.dropped, tryToFreeProcess a.freedTask
            { s with waitingForProcess := true, waitingForProcessTryAgain := false })
        else (.dropped, s)
    | none => (.dropped, { s with waitingForProcess := true })
  else (c, s)

/-- The last part, after the task has been taken or created. -/
def afterTaskToStart (a : Answers) (started : Bool) (s : Job) : Job :=
  let s := if started then s.dequeueLockRequests else s
  let s := if s.waitingForProcess && a.processAvailable = some true
    then s.removeWaitingJobFromProcessList else s
  { s with startOnce := s.startOnce && !started }

/-- `_running_tasks.insert(task)`. -/
def insertRunningTask (task : Task) (s : Job) : Job :=
  let s := { s with
    repeatIsZero := true
    delayUntil := shortTerm
    runningTasks := task :: s.runningTasks }
  { s.setState .running with nextStartTime := never }

/-- The condition of `try_start_one_task`. -/
def mayStartTask (s : Job) : Bool :=
  (s.pendingWithTasks || s.state = .running && s.runningTasks.length < s.maxTasks) &&
    (!s.waitingForProcess || s.waitingForProcessTryAgain) &&
    s.spoolerState ≠ .paused && s.spoolerState ≠ .stoppingLetRun

end Job

/-- Take the task out of the queue. -/
def taskFromQueue (c : Candidate) (task : Task) : Method (Option Task) := do
  modify fun s => { s with taskQueue := s.taskQueue.removeTask task.id }
  pure (some { task with cause := c.cause })

/-- Create a task, and fetch an order for it. -/
def newTask (a : Answers) (c : Candidate) : Method (Option Task) := do
  let task ← createTask a.taskId false shortTerm
  -- `order->obj_name()` is not modelled: it only goes to the log
  pure (if c.hasOrder && !a.fetchOrder && c.cause.isNone then none
    else some { task with cause := some (c.cause.getD .order) })

/-- The fourth part of `task_to_start`. -/
def takeTask (a : Answers) (c : Candidate) : Method (Option Task) := do
  let task ← c.task.elim (newTask a c) (taskFromQueue c)
  modify fun s => { s with
    directoryChanged := s.directoryChanged && task.isNone
    nextSingleStart := if s.nextSingleStart ≤ s.now then never else s.nextSingleStart }
  pure task

/-- `task_to_start`. -/
def taskToStart (a : Answers) : Method (Option Task) := do
  let c ← modifyGet (Job.chooseCandidate a)
  let c ← modifyGet (Job.checkLocks a c)
  let c ← modifyGet (Job.checkProcess a c)
  let task ← (if c.wanted then takeTask a c else pure none : Method (Option Task))
  modify (Job.afterTaskToStart a task.isSome)
  pure task

/-- What `try_start_one_task` does with the task it got. -/
def launch (a : Answers) (task : Task) : Method Unit := do
  modify (Job.insertRunningTask task)
  modify (Job.updateTask task.id (Task.setState .loading))
  require (!a.initThrows) .task
  modify fun s => { s with startMinTasks := s.startMinTasks && s.notEndingTasksCount < s.minTasks }
  forEach (taskEvent task.id) a.doSomething
  require (!a.doSomethingThrows) .task
  modify fun s => { s with wakeWhenInPeriod := false }

/-- The `try` block of `try_start_one_task`. -/
def startOneTask (a : Answers) : Method Bool := do
  match ← taskToStart a with
  | some task => do
      launch a task
      pure true
  | none => pure false

/-- An exception is an error of the job. -/
def catchJobError (m : Method Bool) : Method Bool :=
  tryCatch m fun _ => do
    modify Job.setJobError
    pure false

/-- `try_start_one_task`. -/
def tryStartOneTask (a : Answers) : Method Bool := do
  let s ← get
  let started ←
    (if s.mayStartTask then catchJobError (startOneTask a) else pure false : Method Bool)
  onlyIf (!started ∧ a.locksAreAvailable) (modify Job.dequeueLockRequests)
  pure started

/-- The loop of `try_start_tasks`, for a number of attempts. -/
def tryStartTasksLoop (answers : Nat → Answers) : Nat → Method Unit
  | 0 => pure ()
  | n + 1 => do
      let started ← tryStartOneTask (answers n)
      onlyIf started (tryStartTasksLoop answers n)

/-- `try_start_tasks`: one attempt more than tasks may run. -/
def tryStartTasks (answers : Nat → Answers) : Method Unit := do
  let s ← get
  tryStartTasksLoop answers (s.maxTasks + 1)

/-! ## Commands and calls -/

/-- What the job is told during one operation. -/
structure Environment where
  attempts : Nat → Answers
  schedule : Schedule
  taskId : Option Nat
  /-- What a task does that waits for an order and fetches one. -/
  orders : Nat → Option (List TaskEvent)
  /-- `check_for_changed_directory`. -/
  directoryChanged : Bool

/-- `State_cmd`. -/
inductive StateCmd where
  | stop | disable | unstop | enable | «end» | suspend | «continue» | wake
  | wakeWhenInPeriod | start
deriving DecidableEq

/-- What `sc_unstop` and `sc_enable` do first. -/
def Job.unstopOrEnable (cmd : StateCmd) (s : Job) : Job :=
  if cmd = .unstop then s.setState .pending else { s with enabled := true }

/-- The commands that set a stopped or stopping job going again. -/
def unstop (e : Environment) (cmd : StateCmd) : Method Unit := do
  let s ← get
  onlyIf (s.state ∈ [.stopping, .stopped, .error] ∧ !s.isToBeRemoved) do
    modify (Job.unstopOrEnable cmd)
    modify Job.checkMinTasks
    modify (Job.setNextStartTime e.schedule)
    tryStartTasks e.attempts

/-- `sc_wake`: a task that does not get into `_running_tasks`. -/
def wake (e : Environment) : Method Unit := do
  let s ← get
  onlyIf (s.state ∈ [.pending, .stopped] ∧ !s.isToBeRemoved) do
    let task ← createTask e.taskId false shortTerm
    modify (Job.setState .pending)
    modify Job.checkMinTasks
    modify fun s => { s with
      wokenTasks := { task with cause := some .wake, state := .loading } :: s.wokenTasks }
    tryStartTasks e.attempts

/-- `set_state_cmd`. -/
def setStateCmd (e : Environment) (cmd : StateCmd) : Method Unit := do
  let s ← get
  match cmd with
  | .stop => onlyIf (s.state ∉ [.stopping, .stopped]) (modify (Job.stop true))
  | .disable => onlyIf (s.state ∉ [.stopping, .stopped]) (modify fun s =>
      { s.stop true with enabled := false })
  | .unstop => unstop e .unstop
  | .enable => unstop e .enable
  | .«end» => modify fun s => { s with runningTasks := s.runningTasks.map (Task.cmdEnd .normal) }
  | .suspend => onlyIf (s.state = .running) (modify fun s =>
      { s with runningTasks := s.runningTasks.map Task.suspend })
  | .«continue» => do
      modify fun s => { s with runningTasks := s.runningTasks.map Task.resume }
      modify (Job.setState (if s.runningTasks.isEmpty then .pending else .running))
      modify Job.checkMinTasks
      tryStartTasks e.attempts
  | .wake => wake e
  | .wakeWhenInPeriod => onlyIf s.isInPeriod do
      modify fun s => { s with wakeWhenInPeriod := true }
      onlyIf (s.state ∈ [.pending, .running]) (tryStartTasks e.attempts)
  | .start => do
      startTask e.taskId e.schedule.periodFollows true s.now
      let _ ← tryStartOneTask (e.attempts 0)
      pure ()

/-- `continue_tasks_waiting_for_order`. -/
def continueTasksWaitingForOrder (e : Environment) : Method Unit := do
  let s ← get
  forEach (fun id => do
      let s ← get
      onlyIf (s.runningTasks.any fun t => t.id = id && t.state = .runningWaitingForOrder)
        (forEach (taskEvent id) ((e.orders id).getD [])))
    (s.runningTasks.map Task.id)

/-- `process_orders`. -/
def processOrders (e : Environment) : Method Unit := do
  continueTasksWaitingForOrder e
  tryStartTasks e.attempts

/-- The calls that a job executes. -/
inductive Call where
  | stateCmd (cmd : StateCmd)
  | periodBegin
  | periodEnd (setNextStartTime : Bool)
  | startQueuedTask
  | calculatedNextTimeDoSomething
  | orderTimed
  | orderPossiblyAvailable
  | processAvailable
  | belowMinTasks
  | belowMaxTasks
  | locksAvailable
  | taskClosed (id : Nat)
  | startWhenDirectoryChanged

/-- `on_call(const Start_queued_task_call&)`. -/
def onStartQueuedTaskCall (e : Environment) : Method Unit := do
  let s ← get
  let t := s.taskQueue.nextStartTime
  if t ≤ s.now then do
    tryStartTasks e.attempts
    let s ← get
    let next := s.taskQueue.nextStartTime
    onlyIf (next ≠ t) (modify (Job.callAtStart next))
  else modify (Job.callAtStart t)

/-- `on_call`. -/
def onCall (e : Environment) : Call → Method Unit
  | .stateCmd cmd => setStateCmd e cmd
  | .periodBegin => tryStartTasks e.attempts
  | .periodEnd setNext => do
      modify (Job.selectPeriod e.schedule)
      onlyIf setNext (modify (Job.setNextStartTime e.schedule))
  | .startQueuedTask => onStartQueuedTaskCall e
  | .calculatedNextTimeDoSomething => tryStartTasks e.attempts
  | .orderTimed => processOrders e
  | .orderPossiblyAvailable => processOrders e
  | .processAvailable => tryStartTasks e.attempts
  | .belowMinTasks => tryStartTasks e.attempts
  | .belowMaxTasks => tryStartTasks e.attempts
  | .locksAvailable => tryStartTasks e.attempts
  | .taskClosed id => do
      modify (Job.removeRunningTask e.schedule id)
      let s ← get
      onlyIf (!s.temporary) (tryStartTasks e.attempts)
  | .startWhenDirectoryChanged => onlyIf e.directoryChanged do
      modify fun s => { s with directoryChanged := true }
      let _ ← tryStartOneTask (e.attempts 0)
      pure ()

/-! ## Runs -/

/-- `on_activate`. -/
def onActivate (e : Environment) : Method Unit := do
  let s ← get
  onlyIf s.state.beforePending do
    modify (Job.setState (if s.isPermanentlyStopped then .stopped else .pending))
    modify fun s => { s with delayUntil := shortTerm }
    modify Job.checkMinTasks
    modify fun s => { s with startOnceForDirectory := s.startOnceForDirectory || e.directoryChanged }
    modify (Job.setNextStartTime e.schedule)

/-- What happens to a job. -/
inductive Op where
  | stateCmd (cmd : StateCmd)
  | call (c : Call)
  | startTask (force : Bool) (startAt : Time)
  /-- A task of the database is put into the queue before the job is loaded. -/
  | loadTask (force : Bool) (startAt : Time)
  | loaded
  | activate
  | killQueuedTask (id : Nat)
  | task (id : Nat) (event : TaskEvent)
  | notifyAProcessIsAvailable
  | scheduleModified
  /-- The scheduler stops, or what the job needs is removed. -/
  | stopSimply (endAllTasks : Bool)
  | endTasks
  | prepareToRemove
  | setSpoolerState (new : SpoolerState)
  /-- Time passes. -/
  | tick (now : Time)

def perform (e : Environment) : Op → Method Unit
  | .stateCmd cmd => setStateCmd e cmd
  | .call .startQueuedTask => do
      modify fun s => { s with calls := final (executeMatureCall s.now.millis) s.calls }
      onCall e .startQueuedTask
  | .call c => onCall e c
  | .startTask force startAt => startTask e.taskId e.schedule.periodFollows force startAt
  | .loadTask force startAt => do
      let task ← createTask e.taskId force startAt
      modify fun s => { s with taskQueue := s.taskQueue.enqueueTask task }
  | .loaded => modify (Job.setState .loaded)
  | .activate => onActivate e
  | .killQueuedTask id => modify (Job.killQueuedTask id)
  | .task id event => taskEvent id event
  | .notifyAProcessIsAvailable => modify fun s => { s with waitingForProcessTryAgain := true }
  | .scheduleModified => modify (Job.setNextStartTime e.schedule)
  | .stopSimply endAllTasks => modify (Job.stopSimply endAllTasks)
  | .endTasks => modify Job.endTasks
  | .prepareToRemove => modify fun s => { s.endTasks.stopSimply true with isToBeRemoved := true }
  | .setSpoolerState new => modify fun s => { s with spoolerState := new }
  | .tick now => modify fun s => { s with now := now }

/-- A `Start_queued_task_call` is due. -/
def startCallIsDue (s : Job) : Bool :=
  (s.calls.callQueue.popMature s.now.millis).1.any fun c =>
    c.register = 0 && c.type = startQueuedTaskCall

/-- When an operation may happen: a call is executed when it is due, a task is
    closed before its call, a job is loaded once, and time does not go back. -/
def enabled (s : Job) : Op → Bool
  | .call .startQueuedTask => startCallIsDue s
  | .call (.taskClosed id) => (s.runningTasks ++ s.wokenTasks).any fun t =>
      t.id = id && t.state = .closed
  | .loadTask _ _ => s.state = .initialized
  | .loaded => s.state = .initialized
  | .tick now => s.now ≤ now
  | _ => true

def Step (s : Job) (op : Environment × Op) (s' : Job) : Prop :=
  enabled s op.2 = true ∧ s' = final (perform op.1 op.2) s

/-- One operation, if it may happen. -/
def attempt (s : Job) (op : Environment × Op) : Option Job :=
  if enabled s op.2 then some (final (perform op.1 op.2) s) else none

theorem attempt_step (s : Job) (op : Environment × Op) (s' : Job) (h : attempt s op = some s') :
    Step s op s' := by
  rw [attempt] at h
  split at h
  · rename_i he
    exact ⟨he, (Option.some.inj h).symm⟩
  · cases h

/-- A job that has been configured and not yet loaded. -/
structure Initial (s : Job) : Prop where
  state : s.state = .initialized
  runningTasks : s.runningTasks = []
  wokenTasks : s.wokenTasks = []
  taskQueue : s.taskQueue.queue = []
  startMinTasks : s.startMinTasks = false
  calls : s.calls = noCalls
  assertionFailed : s.assertionFailed = false

def Reachable : Job → Prop := Reach Initial Step

/-- A job that may run the given numbers of tasks and has just been configured,
    at an instant. -/
def configured (minTasks maxTasks : Nat) (now : Time) : Job where
  state := .initialized
  runningTasks := []
  wokenTasks := []
  taskQueue := .empty
  minTasks
  maxTasks
  startMinTasks := false
  enabled := true
  isPermanentlyStopped := false
  isToBeRemoved := false
  temporary := false
  stopOnError := true
  delaysAfterError := false
  repeatIsZero := true
  waitingForProcess := false
  waitingForProcessTryAgain := false
  wakeWhenInPeriod := false
  startOnce := false
  startOnceForDirectory := false
  directoryChanged := false
  periodBegin := never
  periodEnd := never
  nextSingleStart := never
  nextStartTime := never
  delayUntil := shortTerm
  lockRequestor := none
  spoolerState := .running
  now
  calls := noCalls
  assertionFailed := false

theorem initial_configured (minTasks maxTasks : Nat) (now : Time) :
    Initial (configured minTasks maxTasks now) :=
  ⟨rfl, rfl, rfl, rfl, rfl, rfl, rfl⟩

/-- An environment in which tasks start at once, and only those of the queue;
    the period lasts from `periodBegin` to `periodEnd`. -/
def quiet (periodBegin periodEnd : Time) (taskId : Nat) : Environment where
  attempts := fun _ =>
    { requestOrder := false
      fetchOrder := false
      triggerFiles := false
      locksAreAvailable := true
      ignoreProcessClasses := true
      processAvailable := none
      freedTask := none
      taskId := some taskId
      initThrows := false
      doSomething := []
      doSomethingThrows := false }
  schedule :=
    { isDefined := true
      periodBegin
      periodEnd
      periodIsSeamless := true
      once := false
      nextSingleStart := never
      nextStartTime := never
      periodFollows := true }
  taskId := some taskId
  orders := fun _ => none
  directoryChanged := false

/-! ## What the methods leave alone -/

variable {s : Job} {new : State}

namespace Job

/-- `set_state` changes the state, the instants and flags that go with it, and
    nothing else. -/
theorem setState_spec (new : State) (s : Job) :
    ∃ t b w r l, s.setState new = { s with
      state := new
      nextStartTime := t
      isPermanentlyStopped := b
      waitingForProcess := w
      waitingForProcessTryAgain := r
      lockRequestor := l } := by
  rw [setState]
  by_cases h : new = s.state
  · rw [if_pos h, h]
    exact ⟨_, _, _, _, _, rfl⟩
  · rw [if_neg h]
    cases hw : s.waitingForProcess with
    | true => exact ⟨_, _, _, _, _, rfl⟩
    | false => exact ⟨_, _, _, _, _, rfl⟩

@[simp] theorem setState_state : (s.setState new).state = new := by
  obtain ⟨_, _, _, _, _, h⟩ := setState_spec new s
  rw [h]

@[simp] theorem setState_runningTasks : (s.setState new).runningTasks = s.runningTasks := by
  obtain ⟨_, _, _, _, _, h⟩ := setState_spec new s
  rw [h]

@[simp] theorem setState_maxTasks : (s.setState new).maxTasks = s.maxTasks := by
  obtain ⟨_, _, _, _, _, h⟩ := setState_spec new s
  rw [h]

@[simp] theorem setState_minTasks : (s.setState new).minTasks = s.minTasks := by
  obtain ⟨_, _, _, _, _, h⟩ := setState_spec new s
  rw [h]

@[simp] theorem setState_startMinTasks : (s.setState new).startMinTasks = s.startMinTasks := by
  obtain ⟨_, _, _, _, _, h⟩ := setState_spec new s
  rw [h]

@[simp] theorem setState_assertionFailed :
    (s.setState new).assertionFailed = s.assertionFailed := by
  obtain ⟨_, _, _, _, _, h⟩ := setState_spec new s
  rw [h]

theorem setState_lockRequestor_isSome :
    (s.setState new).lockRequestor.isSome = s.lockRequestor.isSome := by
  rw [setState]
  split
  · rfl
  · simp only [dequeueLockRequests, Option.isSome_map]
    split <;> rfl

/-- A job that does not wait for a process, or may try again, does so after
    `set_state`. -/
theorem setState_waiting (h : s.waitingForProcess = false ∨ s.waitingForProcessTryAgain = true) :
    (s.setState new).waitingForProcess = false ∨
      (s.setState new).waitingForProcessTryAgain = true := by
  rw [setState]
  split
  · exact h
  · cases hw : s.waitingForProcess with
    | true => exact Or.inl rfl
    | false => exact Or.inl rfl

theorem selectPeriod_spec (sch : Schedule) (s : Job) :
    ∃ b p q o, s.selectPeriod sch = { s with
      wakeWhenInPeriod := b
      periodBegin := p
      periodEnd := q
      startOnce := o } := by
  rw [selectPeriod]
  split
  · exact ⟨_, _, _, _, rfl⟩
  · split <;> exact ⟨_, _, _, _, rfl⟩

/-- `set_next_start_time` changes the instants of the schedule and nothing else. -/
theorem setNextStartTime_spec (sch : Schedule) (s : Job) :
    ∃ b p q o t u, s.setNextStartTime sch = { s with
      wakeWhenInPeriod := b
      periodBegin := p
      periodEnd := q
      startOnce := o
      nextSingleStart := t
      nextStartTime := u } := by
  obtain ⟨_, _, _, _, hsel⟩ := selectPeriod_spec sch s
  simp only [setNextStartTime, hsel]
  split <;> exact ⟨_, _, _, _, _, _, rfl⟩

end Job

/-- The end of `task_to_start` forgets that the job waits. -/
theorem Job.afterTaskToStart_spec (a : Answers) (started : Bool) (s : Job) :
    ∃ w r l o, l.isSome = s.lockRequestor.isSome ∧
      (s.waitingForProcess = false ∨ s.waitingForProcessTryAgain = true → w = false ∨ r = true) ∧
      s.afterTaskToStart a started = { s with
        waitingForProcess := w
        waitingForProcessTryAgain := r
        lockRequestor := l
        startOnce := o } := by
  have hwait : ∀ t : Job, ∃ w r,
      (t.waitingForProcess = false ∨ t.waitingForProcessTryAgain = true → w = false ∨ r = true) ∧
      (if t.waitingForProcess && a.processAvailable = some true
        then t.removeWaitingJobFromProcessList else t)
      = { t with waitingForProcess := w, waitingForProcessTryAgain := r } := by
    intro t
    split
    · exact ⟨_, _, fun _ => Or.inl rfl, rfl⟩
    · exact ⟨_, _, id, rfl⟩
  rw [Job.afterTaskToStart]
  cases started with
  | true =>
      obtain ⟨_, _, hw, h⟩ := hwait s.dequeueLockRequests
      exact ⟨_, _, _, _, Option.isSome_map, hw,
        congrArg (fun t : Job => { t with startOnce := t.startOnce && !true }) h⟩
  | false =>
      obtain ⟨_, _, hw, h⟩ := hwait s
      exact ⟨_, _, _, _, rfl, hw,
        congrArg (fun t : Job => { t with startOnce := t.startOnce && !false }) h⟩

/-! ## What the tasks may do -/

variable {f : Task → Task} {I : Job → Prop}

/-- A task that is ending stays so. -/
def EndingStays (f : Task → Task) : Prop := ∀ t, t.ending = true → (f t).ending = true

theorem endingStays_cmdEnd (mode : TaskEndMode) : EndingStays (Task.cmdEnd mode) := by
  intro t ht
  rw [Task.cmdEnd]
  split
  · exact ht
  · rename_i h
    have hmode : mode ≠ .none := fun hm => h (Or.inl hm)
    simp [Task.ending, hmode]

theorem endingStays_setState (new : TaskState) : EndingStays (Task.setState new) := by
  intro t ht
  rw [Task.setState]
  split
  · exact ht
  · rename_i h
    by_cases hend : t.endMode = .none
    · have hfrom : t.state.fromEnding = true := by simpa [Task.ending, hend] using ht
      have hnew : new.fromEnding = true := by simpa [hfrom] using h
      simp [Task.ending, hnew]
    · simp [Task.ending, hend]

theorem EndingStays.ite {p : Task → Prop} [DecidablePred p] {g : Task → Task}
    (hf : EndingStays f) (hg : EndingStays g) :
    EndingStays fun t => if p t then f t else g t := by
  intro t ht
  show (if p t then f t else g t).ending = true
  split
  · exact hf t ht
  · exact hg t ht

theorem endingStays_id : EndingStays fun t => t := fun _ ht => ht

theorem endingStays_suspend : EndingStays Task.suspend :=
  (endingStays_setState .suspended).ite endingStays_id

theorem endingStays_resume : EndingStays Task.resume :=
  (endingStays_setState .running).ite endingStays_id

/-- Everything that a task may do to its job without failing keeps the
    predicate. -/
structure KeptWithoutError (I : Job → Prop) : Prop where
  stop : ∀ s, I s → I (s.stop false)
  checkMinTasks : ∀ s, I s → I s.checkMinTasks
  update : ∀ s id f, EndingStays f → I s → I (s.updateTask id f)

/-- Everything that a task may do to its job keeps the predicate. -/
structure KeptByTasks (I : Job → Prop) : Prop extends KeptWithoutError I where
  pending : ∀ s, I s → s.state = .stopped → I (s.setState .pending)
  enqueue : ∀ s task, I s → task.startAt = shortTerm → I (s.enqueue task)
  delay : ∀ s t, I s → I { s with delayUntil := t }

theorem leaveStopped_keeps (hI : ∀ s, I s → s.state = .stopped → I (s.setState .pending))
    (force : Bool) : Keeps I (leaveStopped force) := by
  refine Keeps.get_bind ?_
  intro s h
  cases hst : s.state with
  | stopped =>
      have hpending := hI s h hst
      simp only [final, onlyIf]
      split
      · exact hpending
      · exact h
  | _ => exact h

/-- A created task has the given start time. -/
theorem createTask_spec (hI : ∀ s, I s → s.state = .stopped → I (s.setState .pending))
    (id : Option Nat) (force : Bool) (startAt : Time) :
    Triple I (createTask id force startAt) (fun task s => task.startAt = startAt ∧ I s)
      (fun _ => I) := by
  refine Triple.bind (Keeps.ofExcept _).triple fun id => ?_
  refine Triple.get_bind_any fun s => ?_
  refine Triple.bind (Keeps.require _ _).triple fun _ => ?_
  refine Triple.bind (leaveStopped_keeps hI force).triple fun _ => ?_
  exact Triple.pure fun s h => ⟨rfl, h⟩

theorem createTask_keeps (hI : ∀ s, I s → s.state = .stopped → I (s.setState .pending))
    (id : Option Nat) (force : Bool) (startAt : Time) : Keeps I (createTask id force startAt) :=
  Keeps.of_triple ((createTask_spec hI id force startAt).consequence (fun _ h => h)
    (fun _ _ h => h.2) fun _ _ h => h)

/-- A task is created and enqueued, unless the job refuses it. -/
theorem startTask_spec {J : Job → Prop}
    (hpending : ∀ s, I s → s.state = .stopped → I (s.setState .pending)) (hIJ : ∀ s, I s → J s)
    (id : Option Nat) (periodFollows force : Bool) (startAt : Time)
    (henqueue : ∀ s task, I s → task.startAt = startAt → J (s.enqueue task)) :
    Triple I (startTask id periodFollows force startAt) (fun _ => J) (fun _ => J) := by
  refine Triple.bind ((createTask_spec hpending id force startAt).consequence (fun _ h => h)
    (fun _ _ h => h) fun _ s h => hIJ s h) fun task => ?_
  refine Triple.get_bind_any fun s => ?_
  refine Triple.bind (Q := fun _ t => task.startAt = startAt ∧ I t)
    (Triple.require (fun _ _ h => h) fun _ t h => hIJ t h.2) fun _ => ?_
  exact Triple.modify fun t h => henqueue t task h.2 h.1

theorem startTask_keeps (hpending : ∀ s, I s → s.state = .stopped → I (s.setState .pending))
    (id : Option Nat) (periodFollows force : Bool) (startAt : Time)
    (henqueue : ∀ s task, I s → task.startAt = startAt → I (s.enqueue task)) :
    Keeps I (startTask id periodFollows force startAt) :=
  Keeps.of_triple
    (startTask_spec hpending (fun _ h => h) id periodFollows force startAt henqueue)

namespace KeptWithoutError

variable (h : KeptWithoutError I)

include h

theorem stopAfterTaskError : ∀ s, I s → I s.stopAfterTaskError := by
  intro s hs
  rw [Job.stopAfterTaskError]
  split
  · exact h.stop s hs
  · exact hs

theorem stopAfterTask (fin : Finish) : ∀ s, I s → I (s.stopAfterTask fin) := by
  intro s hs
  rw [Job.stopAfterTask]
  split
  · exact h.stopAfterTaskError s hs
  · split
    · exact h.stop s hs
    · exact hs

theorem onTaskFinished (task : Task) : ∀ s, I s → I (s.onTaskFinished task) := by
  intro s hs
  rw [Job.onTaskFinished]
  split
  · exact h.checkMinTasks s hs
  · exact hs

/-- A task finishes; only after an error the job may be delayed. -/
theorem finish (fin : Finish) (task : Task)
    (hdelay : fin.hasError = true → Keeps I (StandardJob.delayAfterError fin task)) :
    Keeps I (StandardJob.finish fin task) := by
  refine Keeps.get_bind fun s hs => ?_
  refine Keeps.bind (Keeps.modify (h.stopAfterTask fin)) (fun _ => ?_) s hs
  refine Keeps.bind (Keeps.onlyIf fun hc => hdelay hc.1) fun _ => ?_
  refine Keeps.bind (Keeps.modify (h.onTaskFinished task)) fun _ => ?_
  exact Keeps.modify fun s => h.update s task.id _ (endingStays_setState .closed)

/-- What a task does, if the job may be delayed should it finish with an error. -/
theorem taskEvent (id : Nat) (event : TaskEvent)
    (hdelay : ∀ fin task, event = .finish fin → fin.hasError = true →
      Keeps I (StandardJob.delayAfterError fin task)) :
    Keeps I (StandardJob.taskEvent id event) := by
  cases event with
  | setState new => exact Keeps.modify fun s => h.update s id _ (endingStays_setState new)
  | runningStateReached => exact Keeps.modify fun s => h.update s id _ fun _ ht => ht
  | cmdEnd mode => exact Keeps.modify fun s => h.update s id _ (endingStays_cmdEnd mode)
  | finish fin =>
      refine Keeps.get_bind fun s hs => ?_
      cases s.task? id with
      | none => exact hs
      | some task => exact h.finish fin task (hdelay fin task rfl) s hs

end KeptWithoutError

namespace KeptByTasks

variable (h : KeptByTasks I)

include h

theorem delayAfterError (fin : Finish) (task : Task) :
    Keeps I (StandardJob.delayAfterError fin task) := by
  rw [StandardJob.delayAfterError]
  cases fin.delayUntil with
  | none => exact Keeps.modify h.stop
  | some t =>
      refine Keeps.bind (Keeps.modify fun s => h.delay s t) fun _ => Keeps.onlyIf fun _ => ?_
      refine Keeps.tryCatch (startTask_keeps h.pending _ _ _ _ h.enqueue) fun _ => ?_
      refine Keeps.bind (Keeps.modify fun s => h.delay s shortTerm) fun _ => ?_
      exact Keeps.modify h.stopAfterTaskError

theorem taskEvent (id : Nat) (event : TaskEvent) : Keeps I (StandardJob.taskEvent id event) :=
  h.toKeptWithoutError.taskEvent id event fun fin task _ _ => h.delayAfterError fin task

/-- The tasks that wait for an order go on. -/
theorem continueTasksWaitingForOrder (e : Environment) :
    Keeps I (StandardJob.continueTasksWaitingForOrder e) := by
  refine Keeps.get_bind fun s hs => ?_
  refine Keeps.forEach (fun id _ => ?_) s hs
  refine Keeps.get_bind fun s hs => ?_
  refine Keeps.onlyIf (fun _ => ?_) s hs
  exact Keeps.forEach fun event _ => h.taskEvent id event

end KeptByTasks

/-! ## What choosing a task may do -/

/-- Every part of `task_to_start` keeps the predicate. -/
structure KeptByChoice (I : Job → Prop) : Prop where
  choose : ∀ s a, I s → I (s.chooseCandidate a).2
  locks : ∀ s a c, I s → I (s.checkLocks a c).2
  process : ∀ s a c, I s → I (s.checkProcess a c).2
  pending : ∀ s, I s → s.state = .stopped → I (s.setState .pending)
  remove : ∀ s id, I s → I { s with taskQueue := s.taskQueue.removeTask id }
  taken : ∀ s b t, I s → I { s with directoryChanged := b, nextSingleStart := t }
  after : ∀ s a b, I s → I (s.afterTaskToStart a b)

theorem KeptByChoice.takeTask (h : KeptByChoice I) (a : Answers) (c : Candidate) :
    Keeps I (StandardJob.takeTask a c) := by
  refine Keeps.bind ?_ fun task => ?_
  · cases c.task with
    | some task =>
        exact Keeps.bind (Keeps.modify fun s hs => h.remove s task.id hs) fun _ => Keeps.pure _
    | none =>
        exact Keeps.bind (createTask_keeps h.pending _ _ _) fun _ => Keeps.pure _
  · exact Keeps.bind (Keeps.modify fun s hs => h.taken s _ _ hs) fun _ => Keeps.pure _

theorem KeptByChoice.taskToStart (h : KeptByChoice I) (a : Answers) :
    Keeps I (StandardJob.taskToStart a) := by
  refine Keeps.bind (Keeps.modifyGet fun s hs => h.choose s a hs) fun c => ?_
  refine Keeps.bind (Keeps.modifyGet fun s hs => h.locks s a c hs) fun c => ?_
  refine Keeps.bind (Keeps.modifyGet fun s hs => h.process s a c hs) fun c => ?_
  refine Keeps.bind ?_ fun task => ?_
  · exact Keeps.ite (fun _ => h.takeTask a c) fun _ => Keeps.pure none
  exact Keeps.bind (Keeps.modify fun s hs => h.after s a _ hs) fun _ => Keeps.pure _

/-- Everything that `try_start_one_task` does itself keeps the predicate. -/
structure KeptByStart (I : Job → Prop) : Prop extends KeptByChoice I where
  insert : ∀ s task, I s → I (s.insertRunningTask task)
  loading : ∀ s id, I s → I (s.updateTask id (Task.setState .loading))
  flag : ∀ s b, I s → I { s with startMinTasks := b }
  woken : ∀ s, I s → I { s with wakeWhenInPeriod := false }
  error : ∀ s, I s → I s.setJobError
  dequeue : ∀ s, I s → I s.dequeueLockRequests

/-- So the attempt keeps it, if the new task does. -/
theorem KeptByStart.tryStartOneTask (h : KeptByStart I) (a : Answers)
    (htask : ∀ id, ∀ event ∈ a.doSomething, Keeps I (taskEvent id event)) :
    Keeps I (StandardJob.tryStartOneTask a) := by
  have hlaunch : ∀ task, Keeps I (launch a task) := by
    intro task
    refine Keeps.bind (Keeps.modify fun s => h.insert s task) fun _ => ?_
    refine Keeps.bind (Keeps.modify fun s => h.loading s task.id) fun _ => ?_
    refine Keeps.bind (Keeps.require _ _) fun _ => ?_
    refine Keeps.bind (Keeps.modify fun s => h.flag s _) fun _ => ?_
    refine Keeps.bind (Keeps.forEach (htask task.id)) fun _ => ?_
    exact Keeps.bind (Keeps.require _ _) fun _ => Keeps.modify h.woken
  have hstart : Keeps I (startOneTask a) := by
    refine Keeps.bind (h.taskToStart a) fun task => ?_
    cases task with
    | none => exact Keeps.pure false
    | some task => exact Keeps.bind (hlaunch task) fun _ => Keeps.pure true
  have hcatch : Keeps I (catchJobError (startOneTask a)) :=
    Keeps.tryCatch hstart fun _ => Keeps.bind (Keeps.modify h.error) fun _ => Keeps.pure false
  refine Keeps.get_bind fun s hs => ?_
  refine Keeps.bind (Keeps.ite (fun _ => hcatch) fun _ => Keeps.pure false) (fun started => ?_) s hs
  exact Keeps.bind (Keeps.onlyIf fun _ => Keeps.modify h.dequeue) fun _ => Keeps.pure started

/-- What one attempt to start a task keeps, the loop keeps. -/
theorem tryStartTasksLoop_keeps {answers : Nat → Answers}
    (h : ∀ n, Keeps I (tryStartOneTask (answers n))) (n : Nat) :
    Keeps I (tryStartTasksLoop answers n) := by
  induction n with
  | zero => exact Keeps.pure ()
  | succ n ih => exact Keeps.bind (h n) fun _ => Keeps.onlyIf fun _ => ih

theorem tryStartTasks_keeps {answers : Nat → Answers}
    (h : ∀ n, Keeps I (tryStartOneTask (answers n))) : Keeps I (tryStartTasks answers) :=
  Keeps.get_bind fun s hs => tryStartTasksLoop_keeps h (s.maxTasks + 1) s hs

/-- `try_start_one_task` catches every exception. -/
theorem tryStartOneTask_noThrow (a : Answers) :
    Triple (fun _ => True) (tryStartOneTask a) (fun _ _ => True) (fun _ _ => False) := by
  have hcatch : Triple (fun _ => True) (catchJobError (startOneTask a))
      (fun _ _ => True) (fun _ _ => False) := by
    refine Triple.tryCatch (F := fun _ _ => True) Triple.trivial fun _ => ?_
    exact Triple.bind (Q := fun _ _ => True) (Triple.modify fun _ h => h) fun _ =>
      Triple.pure fun _ h => h
  refine Triple.get_bind_any fun s => ?_
  refine Triple.bind (Q := fun _ _ => True) ?_ fun started => ?_
  · exact Triple.ite (fun _ => hcatch) fun _ => Triple.pure fun _ h => h
  · refine Triple.bind (Q := fun _ _ => True) ?_ fun _ => Triple.pure fun _ h => h
    exact Triple.onlyIf (fun _ => Triple.modify fun _ h => h) fun _ _ h => h

/-- So `try_start_tasks` ends normally. -/
theorem tryStartTasks_ok (answers : Nat → Answers) (s : Job) :
    tryStartTasks answers s = (.ok (), final (tryStartTasks answers) s) := by
  have hloop : ∀ n, Triple (fun _ => True) (tryStartTasksLoop answers n)
      (fun _ _ => True) (fun _ _ => False) := by
    intro n
    induction n with
    | zero => exact Triple.pure fun _ h => h
    | succ n ih =>
        refine (tryStartOneTask_noThrow _).bind fun started => ?_
        exact Triple.onlyIf (fun _ => ih) fun _ _ h => h
  have h := hloop (s.maxTasks + 1) s trivial
  show tryStartTasksLoop answers (s.maxTasks + 1) s
    = (.ok (), (tryStartTasksLoop answers (s.maxTasks + 1) s).2)
  rcases hrun : tryStartTasksLoop answers (s.maxTasks + 1) s with ⟨res, s'⟩
  rw [hrun] at h
  cases res with
  | ok _ => rfl
  | error e => exact h.elim

end StandardJob
