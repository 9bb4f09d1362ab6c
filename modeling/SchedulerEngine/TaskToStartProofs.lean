import SchedulerEngine.StandardJobProofs
import SchedulerEngine.LockAcquisitionProofs
import SchedulerEngine.LockWakeUpProofs

/-! # The task to start

    `task_to_start` with the order that it fetches and the locks that it takes.
    An order that was promised may be gone when it is fetched; then a new task
    that has another cause, too, is named after an order that is missing. -/

set_option linter.unusedSectionVars false

namespace TaskToStart

open FileBased Execution Execution.Exec TypedCallRegister StandardJob LockState LockSubsystem

variable {H R : Type} [DecidableEq H] [DecidableEq R]

/-! ## The job with its locks -/

/-- The job and the locks.  The flag in `job.lockRequestor` follows the
    requestor's `_is_enqueued`. -/
structure World (H R : Type) where
  job : Job
  locks : Locks H R

inductive Failure where
  | job (xc : Xc)
  | lock (failure : FileBased.Failure)
  /-- A method of an order is called that does not exist. -/
  | missingOrder
deriving DecidableEq

abbrev Method (H R : Type) := Exec (World H R) Failure

def onJob {α : Type} (m : StandardJob.Method α) : Method H R α :=
  onPart World.job (fun job w => { w with job }) Failure.job m

def onLocks {α : Type} (m : LockSubsystem.Call H R α) : Method H R α :=
  onPart World.locks (fun locks w => { w with locks }) Failure.lock m

/-- A task that shall start. -/
structure Started where
  task : Task
  /-- The order that it has occupied, by its name. -/
  order : Option String
  /-- It comes from the queue. -/
  queued : Bool
deriving DecidableEq

/-- What is answered to the job; `locksAreAvailable` and `fetchOrder` are not
    asked here. -/
structure Offer where
  answers : Answers
  /-- What `fetch_and_occupy_order` returns: an order, or none. -/
  fetched : Except Xc (Option String)

/-! ## `task_to_start` -/

/-- No task is started without the locks. -/
def checkLocks (requestor : Option R) (c : Candidate) : Method H R Candidate :=
  match requestor with
  | none => pure c
  | some r => do
      let w ← get
      if c.wanted && !w.locks.locksAreAvailable r then do
        onlyIf (!w.locks.isEnqueued r) (onLocks do
          let _ ← enqueueLockRequests r none
          pure ())
        modify fun w => { w with job.lockRequestor := some (w.locks.isEnqueued r) }
        pure .dropped
      else pure c

/-- `order->obj_name()`. -/
def objName : Option String → Method H R String
  | some name => pure name
  | none => throw .missingOrder

/-- Take the task out of the queue. -/
def taskFromQueue (c : Candidate) (task : Task) : Method H R (Option Started) := do
  onJob (modify fun s => { s with taskQueue := s.taskQueue.removeTask task.id })
  pure (some ⟨{ task with cause := c.cause }, none, true⟩)

/-- Create a task, and fetch an order for it.  The name of the order goes to the
    log. -/
def newTask (o : Offer) (c : Candidate) : Method H R (Option Started) := do
  let task ← onJob (createTask o.answers.taskId false shortTerm)
  if c.hasOrder then do
    let order ← Exec.ofExcept (o.fetched.mapError Failure.job)
    if order.isNone && c.cause.isNone then pure none
    else do
      let _ ← objName order
      pure (some ⟨{ task with cause := some (c.cause.getD .order) }, order, false⟩)
  else pure (some ⟨{ task with cause := c.cause }, none, false⟩)

def takeTask (o : Offer) (c : Candidate) : Method H R (Option Started) := do
  let task ← c.task.elim (newTask o c) (taskFromQueue c)
  onJob (modify fun s => { s with
    directoryChanged := s.directoryChanged && task.isNone
    nextSingleStart := if s.nextSingleStart ≤ s.now then never else s.nextSingleStart })
  pure task

/-- The new task's lock holder takes the locks of the job. -/
def holdLocksFor (requestor : Option R) (lockHolder : Nat → H) (task : Option Started) :
    Method H R Unit :=
  match task, requestor with
  | some task, some r => onLocks do
      addRequestor (lockHolder task.task.id) r
      holdLocks (lockHolder task.task.id) r
      dequeueLockRequests r
  | _, _ => pure ()

/-- `Standard_job::task_to_start`. -/
def taskToStart (requestor : Option R) (lockHolder : Nat → H) (o : Offer) :
    Method H R (Option Started) := do
  let c ← onJob (modifyGet (Job.chooseCandidate o.answers))
  let c ← checkLocks requestor c
  let c ← onJob (modifyGet (Job.checkProcess o.answers c))
  let task ← (if c.wanted then takeTask o c else pure none : Method H R (Option Started))
  holdLocksFor requestor lockHolder task
  onJob (modify (Job.afterTaskToStart o.answers task.isSome))
  pure task

/-! ## What is to be started -/

/-- What is left to start after the locks and the processes have been asked. -/
def candidate (requestor : Option R) (o : Offer) (w : World H R) : Candidate :=
  let (c, job) := w.job.chooseCandidate o.answers
  let c := if requestor.any fun r => c.wanted && !w.locks.locksAreAvailable r then .dropped else c
  (job.checkProcess o.answers c).1

/-- `create_task` succeeds. -/
def creates (o : Offer) (job : Job) : Bool :=
  o.answers.taskId.isSome && !job.isToBeRemoved && job.state ≠ .error &&
    job.state ≠ .notInitialized

/-- The order that was promised is gone, and a new task has another cause, too. -/
def Vanishes (requestor : Option R) (o : Offer) (w : World H R) : Prop :=
  (candidate requestor o w).task = none ∧ (candidate requestor o w).cause.isSome = true ∧
    (candidate requestor o w).hasOrder = true ∧ creates o w.job = true ∧ o.fetched = .ok none

/-- What `task_to_start` leaves when it returns no task. -/
structure NothingTaken (w w' : World H R) : Prop where
  queue : w'.job.taskQueue = w.job.taskQueue
  locks : ∀ h u, w'.locks.holdsUse h u = w.locks.holdsUse h u

/-- What it leaves when it returns a task. -/
structure Taken (requestor : Option R) (lockHolder : Nat → H) (w : World H R) (st : Started)
    (w' : World H R) : Prop where
  /-- A task of the queue is taken out, else the queue stays. -/
  queue : if st.queued then (∃ k ∈ w.job.taskQueue.queue, k.id = st.task.id) ∧
      w'.job.taskQueue = w.job.taskQueue.removeTask st.task.id
    else w'.job.taskQueue = w.job.taskQueue
  locks : ∀ r, requestor = some r →
    w'.locks.isHoldingAllOf (lockHolder st.task.id) r = true

/-- Starting a task is safe. -/
structure Safe (requestor : Option R) (lockHolder : Nat → H) (o : Offer) (w : World H R) :
    Prop where
  noMissingOrder : (taskToStart requestor lockHolder o w).1 ≠ .error .missingOrder
  /-- If the promised order is not delivered, a new task is dropped, or starts
      without an order for its other cause. -/
  undelivered : (candidate requestor o w).task = none → (candidate requestor o w).hasOrder = true →
    creates o w.job = true → o.fetched = .ok none →
    ((candidate requestor o w).cause = none →
      (taskToStart requestor lockHolder o w).1 = .ok none) ∧
    ∀ cause, (candidate requestor o w).cause = some cause →
      ∃ st, (taskToStart requestor lockHolder o w).1 = .ok (some st) ∧ st.order = none ∧
        st.task.cause = some cause
  nothingTaken : (∀ st, (taskToStart requestor lockHolder o w).1 ≠ .ok (some st)) →
    NothingTaken w (taskToStart requestor lockHolder o w).2
  taken : ∀ st, (taskToStart requestor lockHolder o w).1 = .ok (some st) →
    Taken requestor lockHolder w st (taskToStart requestor lockHolder o w).2

/-! ## The locks -/

variable {s : Locks H R} {h : H} {r : R} {u : Use R} {w : World H R} {requestor : Option R}
  {lockHolder : Nat → H} {o : Offer} {c : Candidate}

theorem holdsUse_dequeueUse (v : Use R) (h : H) (u : Use R) :
    (s.dequeueUse v).holdsUse h u = s.holdsUse h u := by
  rw [Locks.dequeueUse]
  cases hl : s.locks v.lockPath with
  | none => rfl
  | some l =>
      rw [Locks.holdsUse, Locks.holdsUse]
      by_cases hp : u.lockPath = v.lockPath
      · rw [hp, setLock_locks_self, hl]
        rfl
      · rw [setLock_locks_ne hp]

theorem useList_dequeueUse (v : Use R) : (s.dequeueUse v).useList = s.useList := by
  rw [Locks.dequeueUse]
  cases s.locks v.lockPath with
  | none => rfl
  | some l => rfl

/-- Leaving the queues does not fail, and gives no lock away. -/
theorem dequeueLockRequests_run (s : Locks H R) (r : R) :
    ∃ s', dequeueLockRequests r s = (.ok (), s') ∧ s'.useList = s.useList ∧
      ∀ h u, s'.holdsUse h u = s.holdsUse h u := by
  have hfold : ∀ (l : List (Use R)) (s : Locks H R),
      (l.foldl (fun s u => s.dequeueUse u) s).useList = s.useList ∧
      ∀ h u, (l.foldl (fun s u => s.dequeueUse u) s).holdsUse h u = s.holdsUse h u := by
    intro l
    induction l with
    | nil => exact fun s => ⟨rfl, fun _ _ => rfl⟩
    | cons v l ih =>
        intro s
        obtain ⟨h1, h2⟩ := ih (s.dequeueUse v)
        exact ⟨h1.trans (useList_dequeueUse v),
          fun h u => (h2 h u).trans (holdsUse_dequeueUse v h u)⟩
  by_cases he : s.isEnqueued r = true
  · obtain ⟨h1, h2⟩ := hfold (s.useList r) s
    refine ⟨{ (s.useList r).foldl (fun s u => s.dequeueUse u) s with
      isEnqueued := Function.update
        ((s.useList r).foldl (fun s u => s.dequeueUse u) s).isEnqueued r false }, ?_, h1, h2⟩
    rw [dequeueLockRequests]
    simp only [bind_run, get_run, if_pos he, forEach_modify, modify_run]
  · refine ⟨s, ?_, rfl, fun _ _ => rfl⟩
    rw [dequeueLockRequests]
    simp only [bind_run, get_run, if_neg he]
    rfl

/-- Nobody holds other locks than before. -/
def SameHolds (s₀ s : Locks H R) : Prop := ∀ h u, s.holdsUse h u = s₀.holdsUse h u

/-- Getting into the queues gives no lock away. -/
theorem enqueueLockRequests_keeps (s₀ : Locks H R) (holder : Option H) :
    Keeps (SameHolds s₀) (enqueueLockRequests r holder) := by
  refine Keeps.get_bind fun s hs => ?_
  refine Keeps.bind (Keeps.require _ _) (fun _ => ?_) s hs
  refine Keeps.ite (fun _ => ?_) fun _ => Keeps.pure _
  refine Keeps.bind (Keeps.modify fun s hs => hs) fun _ => ?_
  refine Keeps.bind (Keeps.forEach fun u _ => ?_) fun _ => Keeps.pure _
  intro s hs
  refine final_lock_bind hs fun l hl => ?_
  have hset : SameHolds s₀ (s.setLock u.lockPath (l.enqueueLockUse u).2) := by
    intro h v
    rw [← hs h v, Locks.holdsUse, Locks.holdsUse]
    by_cases hp : v.lockPath = u.lockPath
    · rw [hp, setLock_locks_self, hl]
      rfl
    · rw [setLock_locks_ne hp]
  show SameHolds s₀ (final (if holder.all fun h => !l.isHeldBy h u then
    modify (·.setLock u.lockPath (l.enqueueLockUse u).2) else pure () : Call H R Unit) s)
  split
  · exact hset
  · exact hs

/-! ## Up to the choice of a task -/

/-- What is known when the causes, the locks and the processes have been looked at. -/
structure Prepared (requestor : Option R) (o : Offer) (w : World H R) (c : Candidate)
    (w' : World H R) : Prop where
  candidate : c = candidate requestor o w
  queue : w'.job.taskQueue = w.job.taskQueue
  state : w'.job.state = w.job.state
  removed : w'.job.isToBeRemoved = w.job.isToBeRemoved
  holds : SameHolds w.locks w'.locks
  locks : c.wanted = true → w'.locks = w.locks ∧
    ∀ r, requestor = some r → w.locks.locksAreAvailable r = true
  member : ∀ k, c.task = some k → k ∈ w.job.taskQueue.queue

theorem chooseCandidate_frame (a : Answers) (job : Job) :
    ((job.chooseCandidate a).2.taskQueue = job.taskQueue ∧
      (job.chooseCandidate a).2.state = job.state ∧
      (job.chooseCandidate a).2.isToBeRemoved = job.isToBeRemoved) ∧
    (job.chooseCandidate a).1.task = job.getTaskFromQueue := by
  have hlook : ∀ job : Job, (job.lookAtDirectory a).taskQueue = job.taskQueue ∧
      (job.lookAtDirectory a).state = job.state ∧
      (job.lookAtDirectory a).isToBeRemoved = job.isToBeRemoved := by
    intro job
    rw [Job.lookAtDirectory]
    split <;> exact ⟨rfl, rfl, rfl⟩
  rw [Job.chooseCandidate]
  simp only
  split
  · exact ⟨⟨rfl, rfl, rfl⟩, rfl⟩
  · split
    · refine ⟨?_, rfl⟩
      show (Job.assertBelowMinTasks _).taskQueue = _ ∧ (Job.assertBelowMinTasks _).state = _ ∧
        (Job.assertBelowMinTasks _).isToBeRemoved = _
      rw [Job.assertBelowMinTasks]
      split
      · exact hlook job
      · exact ⟨rfl, rfl, rfl⟩
    · exact ⟨⟨rfl, rfl, rfl⟩, rfl⟩

theorem checkProcess_frame (a : Answers) (c : Candidate) (job : Job) :
    ((job.checkProcess a c).2.taskQueue = job.taskQueue ∧
      (job.checkProcess a c).2.state = job.state ∧
      (job.checkProcess a c).2.isToBeRemoved = job.isToBeRemoved) ∧
    ((job.checkProcess a c).1 = c ∨ (job.checkProcess a c).1 = .dropped) := by
  have hfree : ∀ (freed : Option Nat) (job : Job),
      (job.tryToFreeProcess freed).taskQueue = job.taskQueue ∧
      (job.tryToFreeProcess freed).state = job.state ∧
      (job.tryToFreeProcess freed).isToBeRemoved = job.isToBeRemoved := by
    intro freed job
    cases freed with
    | none => exact ⟨rfl, rfl, rfl⟩
    | some id => exact ⟨rfl, rfl, rfl⟩
  rw [Job.checkProcess]
  split
  · cases a.processAvailable with
    | none => exact ⟨⟨rfl, rfl, rfl⟩, Or.inr rfl⟩
    | some b =>
        cases b with
        | true => exact ⟨⟨rfl, rfl, rfl⟩, Or.inl rfl⟩
        | false =>
            simp only
            split
            · exact ⟨hfree _ _, Or.inr rfl⟩
            · exact ⟨⟨rfl, rfl, rfl⟩, Or.inr rfl⟩
  · exact ⟨⟨rfl, rfl, rfl⟩, Or.inl rfl⟩

/-- Which candidate is left does not depend on the job. -/
theorem checkProcess_candidate (a : Answers) (c : Candidate) (job job' : Job) :
    (job.checkProcess a c).1 = (job'.checkProcess a c).1 := by
  rw [Job.checkProcess, Job.checkProcess]
  split
  · cases a.processAvailable with
    | none => rfl
    | some b =>
        cases b with
        | true => rfl
        | false =>
            simp only
            split <;> split <;> rfl
  · rfl

theorem checkProcess_dropped (a : Answers) (job : Job) :
    (job.checkProcess a .dropped).1 = .dropped := by
  rcases (checkProcess_frame a .dropped job).2 with h | h <;> exact h

theorem mem_of_getTaskFromQueue {job : Job} {k : Task} (h : job.getTaskFromQueue = some k) :
    k ∈ job.taskQueue.queue := by
  rw [Job.getTaskFromQueue] at h
  split at h
  · cases h
  · exact List.mem_of_find?_eq_some h

/-- What is known of a world when an exception ends the function. -/
structure Thrown (requestor : Option R) (o : Offer) (w : World H R) (e : Failure)
    (w' : World H R) : Prop where
  nothing : NothingTaken w w'
  missing : e = .missingOrder ↔ Vanishes requestor o w
  delivered : (candidate requestor o w).task = none → (candidate requestor o w).hasOrder = true →
    creates o w.job = true → o.fetched = .ok none → Vanishes requestor o w

theorem thrown_of_dropped {e : Failure} {w' : World H R}
    (hc : candidate requestor o w = .dropped) (he : e ≠ .missingOrder) (hn : NothingTaken w w') :
    Thrown requestor o w e w' := by
  have hno : ¬(candidate requestor o w).hasOrder = true := by
    rw [hc]
    exact Bool.false_ne_true
  refine ⟨hn, ⟨fun h => absurd h he, fun h => absurd h.2.2.1 hno⟩, ?_⟩
  intro _ hord
  exact absurd hord hno

/-- What is known when the locks have been looked at. -/
structure Looked (requestor : Option R) (w : World H R) (c c' : Candidate) (w' : World H R) :
    Prop where
  candidate : c' = if requestor.any fun r => c.wanted && !w.locks.locksAreAvailable r then
    .dropped else c
  queue : w'.job.taskQueue = w.job.taskQueue
  state : w'.job.state = w.job.state
  removed : w'.job.isToBeRemoved = w.job.isToBeRemoved
  holds : SameHolds w.locks w'.locks
  locks : c'.wanted = true → w'.locks = w.locks ∧
    ∀ r, requestor = some r → w.locks.locksAreAvailable r = true

theorem checkLocks_spec {job : Job} (hq : job.taskQueue = w.job.taskQueue)
    (hst : job.state = w.job.state) (hrem : job.isToBeRemoved = w.job.isToBeRemoved)
    (hc : (requestor.any fun r => c.wanted && !w.locks.locksAreAvailable r) = true →
      candidate requestor o w = .dropped) :
    Triple (fun w' => w' = { w with job }) (checkLocks requestor c) (Looked requestor w c)
      (Thrown requestor o w) := by
  cases requestor with
  | none =>
      rintro _ rfl
      refine ⟨rfl, hq, hst, hrem, fun _ _ => rfl, fun _ => ⟨rfl, ?_⟩⟩
      intro r hr
      cases hr
  | some r =>
      refine Triple.get_bind_at ?_
      refine Triple.ite (fun hwant => ?_) fun hwant => ?_
      · have hany : ((some r).any fun r => c.wanted && !w.locks.locksAreAvailable r) = true := hwant
        refine Triple.bind (Q := fun _ w' => w'.job.taskQueue = w.job.taskQueue ∧
          w'.job.state = w.job.state ∧ w'.job.isToBeRemoved = w.job.isToBeRemoved ∧
          SameHolds w.locks w'.locks) ?_ fun _ => ?_
        · refine Triple.onlyIf (fun _ => Triple.onPart ?_) fun _ => ?_
          · rintro _ rfl
            have hkeep : Keeps (SameHolds w.locks) (do
                let _ ← enqueueLockRequests r (none : Option H)
                pure () : Call H R Unit) :=
              (enqueueLockRequests_keeps w.locks none).bind fun _ => Keeps.pure _
            refine hkeep.triple.consequence ?_ (fun _ t ht => ⟨hq, hst, hrem, ht⟩) ?_
            · rintro _ rfl
              exact fun _ _ => rfl
            · intro e t ht
              exact thrown_of_dropped (hc hany) (fun h => by cases h) ⟨hq, ht⟩
          · rintro _ rfl
            exact ⟨hq, hst, hrem, fun _ _ => rfl⟩
        · refine Triple.bind (Q := fun _ w' => w'.job.taskQueue = w.job.taskQueue ∧
            w'.job.state = w.job.state ∧ w'.job.isToBeRemoved = w.job.isToBeRemoved ∧
            SameHolds w.locks w'.locks) (Triple.modify fun t ht => ht) fun _ => ?_
          refine Triple.pure fun t ht => ?_
          exact ⟨(if_pos hany).symm, ht.1, ht.2.1, ht.2.2.1, ht.2.2.2, fun h => by cases h⟩
      · have hany : ¬((some r).any fun r => c.wanted && !w.locks.locksAreAvailable r) = true :=
          hwant
        refine Triple.pure ?_
        rintro _ rfl
        refine ⟨(if_neg hany).symm, hq, hst, hrem, fun _ _ => rfl, fun hw => ⟨rfl, ?_⟩⟩
        intro r' hr'
        cases hr'
        by_contra hav
        refine hwant ?_
        rw [Bool.and_eq_true, Bool.not_eq_true']
        exact ⟨hw, Bool.eq_false_iff.mpr hav⟩

/-- The causes, the locks and the processes are looked at. -/
theorem prepare_spec {α : Type} {m : Candidate → Method H R α} {Q : α → World H R → Prop}
    (hm : ∀ c, Triple (Prepared requestor o w c) (m c) Q (Thrown requestor o w)) :
    Triple (fun w' => w' = w) (do
      let c ← onJob (modifyGet (Job.chooseCandidate o.answers))
      let c ← checkLocks requestor c
      let c ← onJob (modifyGet (Job.checkProcess o.answers c))
      m c) Q (Thrown requestor o w) := by
  obtain ⟨⟨hq, hst, hrem⟩, htask⟩ := chooseCandidate_frame o.answers w.job
  refine Triple.bind (Q := fun c w' => c = (w.job.chooseCandidate o.answers).1 ∧
    w' = { w with job := (w.job.chooseCandidate o.answers).2 }) ?_ fun c => ?_
  · rintro _ rfl
    exact ⟨rfl, rfl⟩
  refine Triple.at_state ?_
  rintro _ ⟨rfl, rfl⟩
  refine Triple.bind (Q := Looked requestor w (w.job.chooseCandidate o.answers).1)
    (checkLocks_spec hq hst hrem ?_) fun c' => ?_
  · intro hany
    rw [candidate]
    simp only [if_pos hany]
    exact checkProcess_dropped _ _
  refine Triple.bind (Q := Prepared requestor o w) ?_ hm
  rintro w' ⟨rfl, hq', hst', hrem', hsame, hlocks⟩
  obtain ⟨⟨h1, h2, h3⟩, h4⟩ := checkProcess_frame o.answers (if requestor.any fun r =>
    (w.job.chooseCandidate o.answers).1.wanted && !w.locks.locksAreAvailable r then
      .dropped else (w.job.chooseCandidate o.answers).1) w'.job
  refine ⟨checkProcess_candidate _ _ _ _, h1.trans hq', h2.trans hst', h3.trans hrem', hsame, ?_, ?_⟩
  · intro hw
    rcases h4 with h4 | h4
    · rw [h4] at hw
      exact hlocks hw
    · rw [h4] at hw
      cases hw
  · intro k hk
    rcases h4 with h4 | h4
    · rw [h4] at hk
      split at hk
      · cases hk
      · rw [htask] at hk
        exact mem_of_getTaskFromQueue hk
    · rw [h4] at hk
      cases hk

/-! ## Taking the task -/

/-- A promised order is not delivered, and no task of the queue can start instead. -/
def Undelivered (requestor : Option R) (o : Offer) (w : World H R) : Prop :=
  (candidate requestor o w).task = none ∧ (candidate requestor o w).hasOrder = true ∧
    creates o w.job = true ∧ o.fetched = .ok none

/-- What is known when a task has been taken or not. -/
structure Chosen (requestor : Option R) (o : Offer) (w : World H R) (res : Option Started)
    (w' : World H R) : Prop where
  present : ¬Vanishes requestor o w
  undelivered : Undelivered requestor o w → res = none
  holds : SameHolds w.locks w'.locks
  locks : res.isSome = true → w'.locks = w.locks ∧
    ∀ r, requestor = some r → w.locks.locksAreAvailable r = true
  nothing : res = none → w'.job.taskQueue = w.job.taskQueue
  taken : ∀ st, res = some st → if st.queued then
      (∃ k ∈ w.job.taskQueue.queue, k.id = st.task.id) ∧
        w'.job.taskQueue = w.job.taskQueue.removeTask st.task.id
    else w'.job.taskQueue = w.job.taskQueue ∧ o.answers.taskId = some st.task.id

theorem createTask_run (o : Offer) (job : Job) :
    (creates o job = false ∧ ∃ xc, createTask o.answers.taskId false shortTerm job
      = (.error xc, job)) ∨
    (creates o job = true ∧ ∃ task, createTask o.answers.taskId false shortTerm job
      = (.ok task, job) ∧ o.answers.taskId = some task.id) := by
  rw [creates]
  cases hid : o.answers.taskId with
  | none => exact Or.inl ⟨rfl, .database, rfl⟩
  | some id =>
      cases hrem : job.isToBeRemoved with
      | true =>
          refine Or.inl ⟨rfl, .scheduler230, ?_⟩
          simp only [createTask, Option.elim, bind_run, ofExcept_run, get_run, require_run, hrem]
          rfl
      | false =>
          have hrun : createTask (some id) false shortTerm job
              = (do
                leaveStopped false
                pure ⟨id, false, shortTerm, none, .none, .none, false⟩ : StandardJob.Method Task)
                  job := by
            simp only [createTask, Option.elim, bind_run, ofExcept_run, get_run, require_run, hrem]
            rfl
          rw [hrun]
          cases hst : job.state with
          | error =>
              refine Or.inl ⟨rfl, .scheduler204, ?_⟩
              simp only [leaveStopped, bind_run, get_run, hst, throw_run]
          | notInitialized =>
              refine Or.inl ⟨rfl, .scheduler396, ?_⟩
              simp only [leaveStopped, bind_run, get_run, hst, throw_run]
          | _ =>
              refine Or.inr ⟨rfl, ⟨id, false, shortTerm, none, .none, .none, false⟩, ?_, rfl⟩
              simp [leaveStopped, hst, onlyIf]

/-- Whether a task is created does not depend on what has been looked at. -/
theorem Prepared.creates {w' : World H R} (h : Prepared requestor o w c w') :
    creates o w'.job = creates o w.job := by
  rw [TaskToStart.creates, TaskToStart.creates, h.state, h.removed]

/-- Only the queue and the locks matter. -/
theorem Chosen.congr {res : Option Started} {w' w'' : World H R} (h : Chosen requestor o w res w')
    (hq : w''.job.taskQueue = w'.job.taskQueue) (hl : w''.locks = w'.locks) :
    Chosen requestor o w res w'' where
  present := h.present
  undelivered := h.undelivered
  holds := by
    rw [hl]
    exact h.holds
  locks := by
    rw [hl]
    exact h.locks
  nothing := fun hr => hq.trans (h.nothing hr)
  taken := by
    intro st hst
    rw [hq]
    exact h.taken st hst

theorem triple_onJob_modify {f : Job → Job} {P : World H R → Prop} {Q : Unit → World H R → Prop}
    {E : Failure → World H R → Prop} (h : ∀ w, P w → Q () { w with job := f w.job }) :
    Triple P (onJob (modify f)) Q E :=
  fun w hw => h w hw

/-- Without a task of the queue a new one is created. -/
theorem newTask_spec {w' : World H R} (hp : Prepared requestor o w c w') (hw : c.wanted = true)
    (htask : c.task = none) :
    Triple (fun t => t = w') (newTask o c) (Chosen requestor o w) (Thrown requestor o w) := by
  obtain ⟨hlocks, havail⟩ := hp.locks hw
  have hcand := hp.candidate
  have hnothing : NothingTaken w w' := ⟨hp.queue, hp.holds⟩
  rcases createTask_run o w'.job with ⟨hno, xc, hrun⟩ | ⟨hyes, task, hrun, hid⟩
  · rintro _ rfl
    have hno : ¬creates o w.job = true := by
      rw [← hp.creates, hno]
      exact Bool.false_ne_true
    rw [newTask, bind_run, onJob, onPart, hrun]
    refine ⟨hnothing, ⟨(fun h => by cases h), fun h => absurd h.2.2.2.1 hno⟩, ?_⟩
    intro _ _ hc
    exact absurd hc hno
  · rw [hp.creates] at hyes
    have hstart : ∀ (order : Option String) (cause : Option StartCause),
        ¬Vanishes requestor o w → ¬Undelivered requestor o w → Chosen requestor o w
          (some ⟨{ task with cause := cause }, order, false⟩) w' := by
      intro order cause hnv hnu
      refine ⟨hnv, fun h => absurd h hnu, hp.holds, fun _ => ⟨hlocks, havail⟩, ?_, ?_⟩
      · intro h
        cases h
      · intro st hst
        cases hst
        exact ⟨hp.queue, hid⟩
    intro t ht
    obtain rfl : w' = t := ht.symm
    rw [newTask, bind_run, onJob, onPart, hrun]
    cases hord : c.hasOrder with
    | false =>
        have hno : ¬(candidate requestor o w).hasOrder = true := by
          rw [← hcand, hord]
          exact Bool.false_ne_true
        exact hstart none c.cause (fun h => hno h.2.2.1) fun h => hno h.2.1
    | true =>
        simp only [if_true, bind_run, ofExcept_run]
        cases hf : o.fetched with
        | error xc =>
            have hne : ¬o.fetched = .ok none := by
              rw [hf]
              exact fun h => by cases h
            refine ⟨hnothing, ⟨(fun h => by cases h), fun h => absurd h.2.2.2.2 hne⟩, ?_⟩
            intro _ _ _ h
            exact absurd h hne
        | ok order =>
            cases order with
            | some name =>
                have hne : ¬o.fetched = .ok none := by
                  rw [hf]
                  exact fun h => by cases h
                exact hstart (some name) _ (fun h => hne h.2.2.2.2) fun h => hne h.2.2.2
            | none =>
                cases hcause : c.cause with
                | none =>
                    have hno : ¬(candidate requestor o w).cause.isSome = true := by
                      rw [← hcand, hcause]
                      exact Bool.false_ne_true
                    refine ⟨fun h => hno h.2.1, fun _ => rfl, hp.holds, ?_, fun _ => hp.queue, ?_⟩
                    · intro h
                      cases h
                    · intro st hst
                      cases hst
                | some cause =>
                    have hv : Vanishes requestor o w := by
                      refine ⟨?_, ?_, ?_, hyes, hf⟩
                      · rw [← hcand, htask]
                      · rw [← hcand, hcause]
                        rfl
                      · rw [← hcand, hord]
                    exact ⟨hnothing, ⟨fun _ => hv, fun _ => rfl⟩, fun _ _ _ _ => hv⟩

theorem takeTask_spec (hw : c.wanted = true) :
    Triple (Prepared requestor o w c) (takeTask o c) (Chosen requestor o w)
      (Thrown requestor o w) := by
  refine Triple.at_state fun w' hp => ?_
  refine Triple.bind (Q := Chosen requestor o w) ?_ fun res => ?_
  · cases htask : c.task with
    | none => exact newTask_spec hp hw htask
    | some k =>
        have hno : ¬(candidate requestor o w).task = none := by
          rw [← hp.candidate, htask]
          exact fun h => by cases h
        intro t ht
        obtain rfl : w' = t := ht.symm
        refine ⟨fun h => hno h.1, fun h => absurd h.1 hno, hp.holds, fun _ => hp.locks hw, ?_, ?_⟩
        · intro h
          cases h
        · intro st hst
          cases hst
          refine ⟨⟨k, hp.member k htask, rfl⟩, ?_⟩
          show w'.job.taskQueue.removeTask k.id = _
          rw [hp.queue]
  · refine Triple.bind (Q := fun _ => Chosen requestor o w res) ?_ fun _ => Triple.pure fun _ h => h
    exact triple_onJob_modify fun t ht => ht.congr rfl rfl

/-! ## Holding the locks -/

/-- What is known at the end. -/
structure Finished (requestor : Option R) (lockHolder : Nat → H) (o : Offer) (w : World H R)
    (res : Option Started) (w' : World H R) : Prop where
  present : ¬Vanishes requestor o w
  undelivered : Undelivered requestor o w → res = none
  nothing : res = none → NothingTaken w w'
  taken : ∀ st, res = some st → Taken requestor lockHolder w st w'

theorem Finished.congr {res : Option Started} {w' w'' : World H R}
    (h : Finished requestor lockHolder o w res w') (hq : w''.job.taskQueue = w'.job.taskQueue)
    (hl : w''.locks = w'.locks) : Finished requestor lockHolder o w res w'' where
  present := h.present
  undelivered := h.undelivered
  nothing := fun hr => ⟨hq.trans (h.nothing hr).queue, by rw [hl]; exact (h.nothing hr).locks⟩
  taken := by
    intro st hst
    refine ⟨?_, ?_⟩
    · rw [hq]
      exact (h.taken st hst).queue
    · rw [hl]
      exact (h.taken st hst).locks

/-- A holder that knows no requestor yet takes the locks that are available to
    nobody in particular. -/
theorem holdLocks_of_fresh (hr : Reachable s) (hfresh : s.requestorSet h = [])
    (havail : s.locksAreAvailableForHolder r none = true) :
    ∃ s', (do
      addRequestor h r
      holdLocks h r
      dequeueLockRequests r : Call H R Unit) s = (.ok (), s') ∧ s'.isHoldingAllOf h r = true := by
  have hnot : s.isKnownRequestor h r = false := by
    rw [Locks.isKnownRequestor, hfresh]
    rfl
  obtain ⟨s', hadd, hlocks, huse, hset⟩ : ∃ s', addRequestor h r s = (.ok (), s') ∧
      s'.locks = s.locks ∧ s'.useList = s.useList ∧ s'.requestorSet h = [r] := by
    refine ⟨{ s with requestorSet := Function.update s.requestorSet h (s.requestorSet h ++ [r]) },
      ?_, rfl, rfl, ?_⟩
    · simp only [addRequestor, bind_run, get_run, require_run, hnot, Bool.not_false, if_true,
        modify_run]
    · simp only [Function.update_self, hfresh, List.nil_append]
  have hreach : Reachable (final (LockSubsystem.perform (.addRequestor h r)) s) := hr.next rfl
  rw [final, LockSubsystem.perform, hadd] at hreach
  have hknown : s'.isKnownRequestor h r = true := by
    rw [Locks.isKnownRequestor, hset]
    simp
  have havail' : s'.locksAreAvailableForHolder r (some h) = true := by
    rw [Locks.locksAreAvailableForHolder, huse, LockWakeUp.availableLoop_congr hlocks]
    exact LockWakeUp.availableLoop_of_none (some h) (fun ht => ht) havail
  obtain ⟨s₁, hrun, hall⟩ := LockAcquisition.holdLocks_run (inv_of_reachable hreach) hknown havail'
  obtain ⟨s₂, hdeq, huse, hholds⟩ := dequeueLockRequests_run s₁ r
  refine ⟨s₂, ?_, ?_⟩
  · simp only [bind_run, hadd, hrun, hdeq]
  · rw [Locks.isHoldingAllOf, huse, Bool.and_eq_true]
    rw [Locks.isHoldingAllOf, Bool.and_eq_true] at hall
    refine ⟨hall.1, List.all_eq_true.mpr fun u hu => ?_⟩
    rw [hholds]
    exact List.all_eq_true.mp hall.2 u hu

theorem holdLocksFor_spec (hr : Reachable w.locks)
    (hown : ∀ r, requestor = some r → w.locks.ownHolder r = none)
    (hfresh : ∀ id, (∃ k ∈ w.job.taskQueue.queue, k.id = id) ∨ o.answers.taskId = some id →
      w.locks.requestorSet (lockHolder id) = []) (res : Option Started) :
    Triple (Chosen requestor o w res) (holdLocksFor requestor lockHolder res)
      (fun _ => Finished requestor lockHolder o w res) (Thrown requestor o w) := by
  intro w' hc
  cases res with
  | none =>
      refine ⟨hc.present, hc.undelivered, fun _ => ⟨hc.nothing rfl, hc.holds⟩, ?_⟩
      intro st hst
      cases hst
  | some st =>
      have htaken := hc.taken st rfl
      have hqueue : if st.queued then (∃ k ∈ w.job.taskQueue.queue, k.id = st.task.id) ∧
          w'.job.taskQueue = w.job.taskQueue.removeTask st.task.id
        else w'.job.taskQueue = w.job.taskQueue := by
        split at htaken
        · rw [if_pos (by assumption)]
          exact htaken
        · rw [if_neg (by assumption)]
          exact htaken.1
      have hnone : ∀ {w'' : World H R}, w''.job = w'.job →
          (∀ r, requestor = some r → w''.locks.isHoldingAllOf (lockHolder st.task.id) r = true) →
          Finished requestor lockHolder o w (some st) w'' := by
        intro w'' hjob hlocks
        refine ⟨hc.present, hc.undelivered, ?_, ?_⟩
        · intro h
          cases h
        · intro st' hst
          cases hst
          refine ⟨?_, hlocks⟩
          rw [hjob]
          exact hqueue
      cases requestor with
      | none => exact hnone rfl fun r hr => by cases hr
      | some r =>
          obtain ⟨hlocks, havail⟩ := hc.locks rfl
          have havail := havail r rfl
          rw [Locks.locksAreAvailable, hown r rfl] at havail
          have hid : (∃ k ∈ w.job.taskQueue.queue, k.id = st.task.id) ∨
              o.answers.taskId = some st.task.id := by
            split at htaken
            · exact Or.inl htaken.1
            · exact Or.inr htaken.2
          obtain ⟨s', hrun, hall⟩ := holdLocks_of_fresh hr (hfresh _ hid) havail
          rw [holdLocksFor, onLocks, onPart, hlocks, hrun]
          refine hnone rfl fun r' hr' => ?_
          cases hr'
          exact hall

theorem afterTaskToStart_queue (a : Answers) (started : Bool) (job : Job) :
    (job.afterTaskToStart a started).taskQueue = job.taskQueue := by
  obtain ⟨_, _, _, _, -, -, h⟩ := Job.afterTaskToStart_spec a started job
  rw [h]

/-- What `task_to_start` does, from a state in which nobody waits for the job. -/
theorem taskToStart_spec (hr : Reachable w.locks)
    (hown : ∀ r, requestor = some r → w.locks.ownHolder r = none)
    (hfresh : ∀ id, (∃ k ∈ w.job.taskQueue.queue, k.id = id) ∨ o.answers.taskId = some id →
      w.locks.requestorSet (lockHolder id) = []) :
    Triple (fun w' => w' = w) (taskToStart requestor lockHolder o)
      (Finished requestor lockHolder o w) (Thrown requestor o w) := by
  refine prepare_spec fun c => ?_
  refine Triple.bind (Q := Chosen requestor o w) ?_ fun res => ?_
  · refine Triple.ite takeTask_spec fun hw => ?_
    refine Triple.pure fun w' hp => ?_
    -- nothing is wanted, so no order is
    have hcand := hp.candidate
    rw [Candidate.wanted, Bool.or_eq_true, not_or] at hw
    have hord : ¬(candidate requestor o w).hasOrder = true := by
      rw [← hcand]
      exact hw.2
    refine ⟨fun h => hord h.2.2.1, fun h => absurd h.2.1 hord, hp.holds, ?_, fun _ => hp.queue, ?_⟩
    · intro h
      cases h
    · intro st hst
      cases hst
  refine Triple.bind (holdLocksFor_spec hr hown hfresh res) fun _ => ?_
  refine Triple.bind (Q := fun _ => Finished requestor lockHolder o w res) ?_ fun _ =>
    Triple.pure fun _ h => h
  refine triple_onJob_modify fun t ht => ht.congr (afterTaskToStart_queue _ _ _) rfl

/-- The instant at which the job is asked. -/
def noon : Time := ⟨1200, by decide⟩

/-- A job with a repeated start that is due. -/
def dueJob : Job := { configured 0 1 noon with
  state := .pending
  periodBegin := shortTerm
  nextStartTime := noon }

/-- The job uses a lock that is free. -/
def oneLock : Locks Nat Nat := LockWakeUp.noLocks.run [
  .addLock "a" "Lock a", .activateBase "a" .active, .addLockUse 7 "a" .exclusive]

theorem oneLock_reachable : Reachable oneLock :=
  reachable_run LockWakeUp.noLocks_reachable _

def due : World Nat Nat := ⟨dueJob, oneLock⟩

/-- An order is promised, and when it is fetched it is this one. -/
def offering (order : Option String) : Offer where
  answers := { (quiet shortTerm never 1).attempts 0 with requestOrder := true }
  fetched := .ok order

/-- The same job with the order: the task starts for its two causes, and it holds
    the lock. -/
example : ((taskToStart (some 7) (fun id => id) (offering (some "order")) due).1.toOption.map
    fun st => st.map fun st => (st.task.cause, st.order, st.queued)) =
      some (some (some .periodRepeat, some "order", false)) := by
  decide

end TaskToStart
