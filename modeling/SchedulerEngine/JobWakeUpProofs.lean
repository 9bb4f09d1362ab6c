import SchedulerEngine.JobQueueCallProofs

/-! # Waking up for the tasks of the queue

    When the call for the queue is executed, the tasks with `force_start` that
    are due are started as long as the job may start tasks; and in the runs that
    keep the call registered the job wakes up for every task of its queue. -/

namespace JobWakeUp

open Execution Execution.Exec RunInvariant StandardJob JobQueueCall
open TypedCallRegister (Time never shortTerm Executed)

variable {s s' : Job} {k : Task} {p : Setting} {a : Answers} {m n : Nat}

/-! ## An attempt that starts no task -/

/-- No task with `force_start` is due. -/
def NoForcedDue (s : Job) : Prop :=
  ∀ k ∈ s.taskQueue.queue, k.forceStart = true → s.now < k.startAt

theorem noForcedDue_ofQueue : OfQueue NoForcedDue := by
  rintro s s' ⟨hq, -, hn⟩ h k hk hforce
  rw [hn]
  exact h k (hq ▸ hk) hforce

theorem noForcedDue_keptByStart : KeptByStart NoForcedDue :=
  noForcedDue_ofQueue.keptByStart fun _ _ h k hk => h k (List.eraseP_sublist.mem hk)

/-- A job that finds no task in its queue has no forced one that is due. -/
theorem noForcedDue_of_getTaskFromQueue (hst : s.state ≠ .error)
    (h : s.getTaskFromQueue = none) : NoForcedDue s := by
  intro k hk hforce
  rw [Job.getTaskFromQueue, if_neg hst] at h
  have hnot := List.find?_eq_none.mp h k hk
  simpa [hforce] using hnot

/-- What the candidate tells about the queue. -/
structure Candid (p : Setting) (c : Candidate) (s : Job) : Prop where
  none : c.task = none → NoForcedDue s
  wanted : c.task.isSome = true → c.wanted = true
  locks : s.lockRequestor.isSome = p.locks

theorem candid_chooseCandidate (hst : s.state ≠ .error) (hlocks : s.lockRequestor.isSome = p.locks)
    (a : Answers) : Candid p (s.chooseCandidate a).1 (s.chooseCandidate a).2 where
  none := by
    intro hnone
    refine noForcedDue_ofQueue s _ (sameQueue_chooseCandidate a s) ?_
    refine noForcedDue_of_getTaskFromQueue hst ?_
    cases hk : s.getTaskFromQueue with
    | none => rfl
    | some k =>
        rw [(chooseCandidate_task a hk).1] at hnone
        cases hnone
  wanted := by
    intro hsome
    cases hk : s.getTaskFromQueue with
    | none =>
        have hnone : (s.chooseCandidate a).1.task = none := by
          simp only [Job.chooseCandidate, hk]
          split
          · rfl
          · split <;> rfl
        rw [hnone] at hsome
        cases hsome
    | some k =>
        rw [Candidate.wanted, (chooseCandidate_task a hk).2]
        rfl
  locks := by
    have hlook : (s.lookAtDirectory a).lockRequestor = s.lockRequestor := by
      rw [Job.lookAtDirectory]
      split <;> rfl
    simp only [Job.chooseCandidate]
    split
    · exact hlocks
    · split
      · split
        · exact (congrArg Option.isSome hlook).trans hlocks
        · exact hlocks
      · exact hlocks

theorem Candid.checkProcess {c : Candidate} (h : Candid p c s) (ha : Unhindered p a) :
    Candid p (s.checkProcess a c).1 (s.checkProcess a c).2 := by
  rcases checkProcess_unhindered ha c s with hcheck | hcheck
  · rw [hcheck]
    exact h
  · rw [hcheck]
    exact ⟨h.none, h.wanted, h.locks⟩

/-- `task_to_start` returns no task only if no forced task is due. -/
theorem taskToStart_none (ha : Unhindered p a) :
    Triple (fun s => s.state ≠ .error ∧ s.lockRequestor.isSome = p.locks) (taskToStart a)
      (fun task s => task = none → NoForcedDue s) (fun _ _ => True) := by
  refine Triple.bind (Q := Candid p) ?_ fun c => ?_
  · intro s h
    exact candid_chooseCandidate h.1 h.2 a
  refine Triple.bind (Q := Candid p) ?_ fun c => ?_
  · intro s h
    show Candid p (s.checkLocks a c).1 (s.checkLocks a c).2
    rw [checkLocks_unhindered ha c h.locks]
    exact h
  refine Triple.bind (Q := Candid p) ?_ fun c => ?_
  · intro s h
    exact h.checkProcess ha
  refine Triple.bind (Q := fun task s => task = none → NoForcedDue s) ?_ fun task => ?_
  · refine Triple.ite (fun _ => ?_) fun hnot => Triple.pure fun s h _ => h.none ?_
    · have hkeep : Triple NoForcedDue (takeTask a c)
          (fun task s => task = none → NoForcedDue s) (fun _ _ => True) :=
        (noForcedDue_keptByStart.takeTask a c).triple.consequence (fun _ ht => ht)
          (fun _ _ ht _ => ht) fun _ _ _ => trivial
      intro s h
      cases htask : c.task with
      | some k =>
          rw [takeTask, htask]
          intro hnone
          cases hnone
      | none => exact hkeep s (h.none htask)
    · cases htask : c.task with
      | none => rfl
      | some k => exact absurd (h.wanted (by rw [htask]; rfl)) hnot
  · refine Triple.bind (Q := fun _ s => task = none → NoForcedDue s)
      (Triple.modify fun s h hnone => ?_) fun _ => Triple.pure fun _ h => h
    exact noForcedDue_ofQueue s _ (sameQueue_afterTaskToStart a _ s) (h hnone)

/-- After an attempt that started no task, the job may start no task, or no
    forced task is due. -/
theorem tryStartOneTask_none (ha : Unhindered p a) (hlocks : s.lockRequestor.isSome = p.locks) :
    Triple (fun t => t = s) (tryStartOneTask a)
      (fun started t => started = false → t.mayStartTask = true → NoForcedDue t)
      (fun _ _ => True) := by
  have hstart : s.mayStartTask = true → Triple (fun t => t = s) (startOneTask a)
      (fun started t => started = false → NoForcedDue t) (fun _ _ => True) := by
    intro hmay
    have hst : s.state ≠ .error := by
      intro herror
      simp [Job.mayStartTask, Job.pendingWithTasks, herror] at hmay
    refine Triple.bind ((taskToStart_none ha).consequence ?_ (fun _ _ h => h) fun _ _ h => h)
      fun task => ?_
    · rintro _ rfl
      exact ⟨hst, hlocks⟩
    · cases task with
      | none => exact Triple.pure fun t h _ => h rfl
      | some task =>
          refine Triple.bind (Q := fun _ _ => True) Triple.trivial fun _ => Triple.pure ?_
          intro _ _ hfalse
          cases hfalse
  have herror : ∀ t : Job, t.setJobError.mayStartTask = false := by
    intro t
    have hstate : t.setJobError.state = .error := Job.setState_state
    simp [Job.mayStartTask, Job.pendingWithTasks, hstate]
  refine Triple.get_bind_at ?_
  refine Triple.bind (Q := fun started t =>
    started = false → t.mayStartTask = true → NoForcedDue t) ?_ fun started => ?_
  · refine Triple.ite (fun hmay => ?_) fun hnot => Triple.pure ?_
    · refine Triple.tryCatch ((hstart hmay).consequence (fun _ h => h)
        (fun _ _ h hno _ => h hno) fun _ _ h => h) fun _ => ?_
      refine Triple.bind (Q := fun _ t => t.mayStartTask = false)
        (Triple.modify fun t _ => herror t) fun _ => Triple.pure fun t h _ hmay => ?_
      rw [h] at hmay
      cases hmay
    · rintro _ rfl _ hmay
      exact absurd hmay hnot
  · refine Triple.bind (Q := fun _ t =>
      started = false → t.mayStartTask = true → NoForcedDue t) ?_ fun _ => Triple.pure fun _ h => h
    refine Triple.onlyIf (fun _ => Triple.modify fun t h hno hmay => ?_) fun _ _ h => h
    exact noForcedDue_ofQueue t _ ⟨rfl, rfl, rfl⟩ (h hno hmay)

/-! ## An attempt that starts a task -/

/-- The number of running tasks, beside what does not change. -/
structure Counted (p : Setting) (m n : Nat) (s : Job) : Prop where
  running : s.runningTasks.length = n
  maxTasks : s.maxTasks = m
  locks : s.lockRequestor.isSome = p.locks
  temporary : s.temporary = p.temporary

theorem Counted.setState (h : Counted p m n s) (new : State) : Counted p m n (s.setState new) := by
  obtain ⟨_, _, _, _, _, hs⟩ := Job.setState_spec new s
  refine ⟨?_, ?_, Job.setState_lockRequestor_isSome.trans h.locks, ?_⟩
  · rw [hs]
    exact h.running
  · rw [hs]
    exact h.maxTasks
  · rw [hs]
    exact h.temporary

theorem Counted.updateTask (h : Counted p m n s) (id : Nat) (f : Task → Task) :
    Counted p m n (s.updateTask id f) :=
  ⟨(List.length_map _).trans h.running, h.maxTasks, h.locks, h.temporary⟩

theorem Counted.chooseCandidate (h : Counted p m n s) (a : Answers) :
    Counted p m n (s.chooseCandidate a).2 := by
  have hlook : Counted p m n (s.lookAtDirectory a) := by
    rw [Job.lookAtDirectory]
    split
    · exact ⟨h.running, h.maxTasks, h.locks, h.temporary⟩
    · exact h
  have hassert : ∀ t, Counted p m n t → Counted p m n t.assertBelowMinTasks :=
    fun t ht => ⟨ht.running, ht.maxTasks, ht.locks, ht.temporary⟩
  simp only [Job.chooseCandidate]
  split
  · exact h
  · split
    · refine hassert _ ?_
      split
      · exact hlook
      · exact h
    · exact h

theorem Counted.checkLocks (h : Counted p m n s) (a : Answers) (c : Candidate) :
    Counted p m n (s.checkLocks a c).2 := by
  rw [Job.checkLocks]
  cases hl : s.lockRequestor with
  | none => exact h
  | some _ =>
      dsimp only
      split
      · refine ⟨h.running, h.maxTasks, ?_, h.temporary⟩
        rw [← h.locks, hl]
        rfl
      · exact h

theorem Counted.checkProcess (h : Counted p m n s) (a : Answers) (c : Candidate) :
    Counted p m n (s.checkProcess a c).2 := by
  have hother : ∀ w r, Counted p m n
      { s with waitingForProcess := w, waitingForProcessTryAgain := r } :=
    fun w r => ⟨h.running, h.maxTasks, h.locks, h.temporary⟩
  rw [Job.checkProcess]
  split
  · split
    · exact hother false false
    · split
      · cases a.freedTask with
        | none => exact hother true false
        | some id => exact (hother true false).updateTask id _
      · exact h
    · exact hother true _
  · exact h

theorem Counted.afterTaskToStart (h : Counted p m n s) (a : Answers) (started : Bool) :
    Counted p m n (s.afterTaskToStart a started) := by
  obtain ⟨_, _, _, _, hlocks, -, hs⟩ := s.afterTaskToStart_spec a started
  rw [hs]
  exact ⟨h.running, h.maxTasks, hlocks.trans h.locks, h.temporary⟩

theorem counted_keptByChoice : KeptByChoice (Counted p m n) where
  choose := fun _ a h => h.chooseCandidate a
  locks := fun _ a c h => h.checkLocks a c
  process := fun _ a c h => h.checkProcess a c
  pending := fun _ h _ => h.setState .pending
  remove := fun _ _ h => ⟨h.running, h.maxTasks, h.locks, h.temporary⟩
  taken := fun _ _ _ h => ⟨h.running, h.maxTasks, h.locks, h.temporary⟩
  after := fun _ a b h => h.afterTaskToStart a b

theorem Counted.insertRunningTask (h : Counted p m n s) (task : Task) :
    Counted p m (n + 1) (s.insertRunningTask task) ∧
      (s.insertRunningTask task).state = .running := by
  have hinsert : Counted p m (n + 1) { s with
      repeatIsZero := true
      delayUntil := shortTerm
      runningTasks := task :: s.runningTasks } :=
    ⟨congrArg Nat.succ h.running, h.maxTasks, h.locks, h.temporary⟩
  have hset := hinsert.setState .running
  exact ⟨⟨hset.running, hset.maxTasks, hset.locks, hset.temporary⟩, Job.setState_state⟩

/-- The started task is counted, and the job runs. -/
theorem launch_counted (ha : Unhindered p a) (task : Task) :
    Triple (Counted p m n) (launch a task)
      (fun _ s => Counted p m (n + 1) s ∧ s.state = .running) (fun _ _ => False) := by
  have hevent : ∀ event ∈ a.doSomething,
      Triple (fun s => Counted p m (n + 1) s ∧ s.state = .running) (taskEvent task.id event)
        (fun _ s => Counted p m (n + 1) s ∧ s.state = .running) (fun _ _ => False) :=
    fun event hev => quiet_taskEvent task.id (ha.quiet event hev)
      (fun _ id f h => ⟨h.1.updateTask id f, h.2⟩)
      (fun _ h => ⟨⟨h.1.running, h.1.maxTasks, h.1.locks, h.1.temporary⟩, h.2⟩)
      fun _ h => h.1.temporary
  refine Triple.bind (Q := fun _ s => Counted p m (n + 1) s ∧ s.state = .running)
    (Triple.modify fun s h => h.insertRunningTask task) fun _ => ?_
  refine Triple.bind (Q := fun _ s => Counted p m (n + 1) s ∧ s.state = .running)
    (Triple.modify fun s h => ⟨h.1.updateTask task.id _, h.2⟩) fun _ => ?_
  refine Triple.bind (Q := fun _ s => Counted p m (n + 1) s ∧ s.state = .running)
    (Triple.require (fun _ _ h => h) fun hc => ?_) fun _ => ?_
  · rw [ha.init] at hc
    cases hc
  refine Triple.bind (Q := fun _ s => Counted p m (n + 1) s ∧ s.state = .running)
    (Triple.modify fun s h => ?_) fun _ => ?_
  · exact ⟨⟨h.1.running, h.1.maxTasks, h.1.locks, h.1.temporary⟩, h.2⟩
  refine Triple.bind (Q := fun _ s => Counted p m (n + 1) s ∧ s.state = .running)
    (Triple.forEach hevent) fun _ => ?_
  refine Triple.bind (Q := fun _ s => Counted p m (n + 1) s ∧ s.state = .running)
    (Triple.require (fun _ _ h => h) fun hc => ?_) fun _ => Triple.modify fun s h => ?_
  · rw [ha.doSomething] at hc
    cases hc
  · exact ⟨⟨h.1.running, h.1.maxTasks, h.1.locks, h.1.temporary⟩, h.2⟩

/-- An attempt that starts a task counts it. -/
theorem tryStartOneTask_counted (ha : Unhindered p a) :
    Triple (Counted p m n) (tryStartOneTask a)
      (fun started s => started = true → Counted p m (n + 1) s ∧ s.state = .running)
      (fun _ _ => True) := by
  have hstart : Triple (Counted p m n) (startOneTask a)
      (fun started s => started = true → Counted p m (n + 1) s ∧ s.state = .running)
      (fun _ _ => True) := by
    refine Triple.bind ((counted_keptByChoice.taskToStart a).triple.consequence (fun _ h => h)
      (fun _ _ h => h) fun _ _ _ => trivial) fun task => ?_
    cases task with
    | none =>
        refine Triple.pure fun s _ hstarted => ?_
        cases hstarted
    | some task =>
        refine Triple.bind ((launch_counted ha task).consequence (fun _ h => h) (fun _ _ h => h)
          fun _ _ h => h.elim) fun _ => ?_
        exact Triple.pure fun s h _ => h
  refine Triple.get_bind_any fun s => ?_
  refine Triple.bind (Q := fun started t =>
    started = true → Counted p m (n + 1) t ∧ t.state = .running) ?_ fun started => ?_
  · refine Triple.ite (fun _ => ?_) fun _ => Triple.pure fun _ _ hfalse => ?_
    · refine Triple.tryCatch hstart fun _ => ?_
      refine Triple.bind (Q := fun _ _ => True) Triple.trivial fun _ => Triple.pure ?_
      intro _ _ hfalse
      cases hfalse
    · cases hfalse
  · refine Triple.bind (Q := fun _ t =>
      started = true → Counted p m (n + 1) t ∧ t.state = .running) ?_ fun _ => Triple.pure fun _ h => h
    refine Triple.onlyIf (fun hc => Triple.modify fun t _ hstarted => ?_) fun _ _ h => h
    rw [hstarted] at hc
    cases hc.1

/-! ## The loop -/

/-- The loop ends when no forced task is due or no task may be started, or every
    attempt has started a task. -/
theorem tryStartTasksLoop_forced {answers : Nat → Answers} (ha : ∀ n, Unhindered p (answers n))
    (rounds : Nat) (hs : Counted p m n s) :
    ((final (tryStartTasksLoop answers rounds) s).mayStartTask = true →
      NoForcedDue (final (tryStartTasksLoop answers rounds) s)) ∨
    Counted p m (n + rounds) (final (tryStartTasksLoop answers rounds) s) ∧
      (final (tryStartTasksLoop answers rounds) s = s ∧ rounds = 0 ∨
        (final (tryStartTasksLoop answers rounds) s).state = .running) := by
  induction rounds generalizing s n with
  | zero => exact Or.inr ⟨hs, Or.inl ⟨rfl, rfl⟩⟩
  | succ rounds ih =>
      have hnone := tryStartOneTask_none (ha rounds) hs.locks s rfl
      have hcounted := tryStartOneTask_counted (ha rounds) s hs
      have hok := tryStartOneTask_noThrow (answers rounds) s trivial
      rcases hrun : tryStartOneTask (answers rounds) s with ⟨res, s'⟩
      rw [hrun] at hnone hcounted hok
      cases res with
      | error e => exact hok.elim
      | ok started =>
          cases started with
          | false =>
              have hfinal : final (tryStartTasksLoop answers (rounds + 1)) s = s' := by
                rw [final, tryStartTasksLoop, bind_run, hrun]
                rfl
              rw [hfinal]
              exact Or.inl (hnone rfl)
          | true =>
              have hfinal : final (tryStartTasksLoop answers (rounds + 1)) s
                  = final (tryStartTasksLoop answers rounds) s' := by
                rw [final, tryStartTasksLoop, bind_run, hrun]
                rfl
              rw [hfinal]
              obtain ⟨hcount, hrunning⟩ := hcounted rfl
              refine (ih hcount).imp_right ?_
              rintro ⟨hcount', hstate⟩
              refine ⟨by rw [← Nat.add_right_comm, Nat.add_assoc] at hcount'; exact hcount', Or.inr ?_⟩
              rcases hstate with ⟨heq, -⟩ | hstate
              · rw [heq]
                exact hrunning
              · exact hstate

/-- The attempts suffice: when the job could start one more task, no forced task
    of its queue is due. -/
theorem tryStartTasks_forced {e : Environment}
    (ha : ∀ n, Unhindered (setting s) (e.attempts n))
    (hmay : (final (tryStartTasks e.attempts) s).mayStartTask = true) :
    NoForcedDue (final (tryStartTasks e.attempts) s) := by
  have hs : Counted (setting s) s.maxTasks s.runningTasks.length s := ⟨rfl, rfl, rfl, rfl⟩
  rcases tryStartTasksLoop_forced ha (s.maxTasks + 1) hs with hnone | ⟨hcount, hstate⟩
  · exact hnone hmay
  · -- more tasks than `_max_tasks` would be running
    exfalso
    have hstate' : (final (tryStartTasks e.attempts) s).state = .running := by
      rcases hstate with ⟨-, hzero⟩ | hstate
      · cases hzero
      · exact hstate
    have hrunning : (final (tryStartTasks e.attempts) s).runningTasks.length
        = s.runningTasks.length + (s.maxTasks + 1) := hcount.running
    have hmax : (final (tryStartTasks e.attempts) s).maxTasks = s.maxTasks := hcount.maxTasks
    simp only [Job.mayStartTask, Job.pendingWithTasks, hstate', hrunning, hmax, Bool.and_eq_true,
      Bool.or_eq_true, decide_eq_true_eq] at hmay
    obtain ⟨⟨⟨hpending | hlt, -⟩, -⟩, -⟩ := hmay
    · exact absurd hpending.1 (by decide)
    · omega

/-- When the call for the queue has been executed, a job that could start one
    more task has left no forced task that is due. -/
theorem onStartQueuedTaskCall_forced {e : Environment}
    (ha : ∀ n, Unhindered (setting s) (e.attempts n))
    (hmay : (final (onStartQueuedTaskCall e) s).mayStartTask = true) :
    NoForcedDue (final (onStartQueuedTaskCall e) s) := by
  simp only [onStartQueuedTaskCall, final, bind_run, get_run] at hmay ⊢
  by_cases ht : s.taskQueue.nextStartTime ≤ s.now
  · simp only [if_pos ht, bind_run, tryStartTasks_ok, get_run, onlyIf] at hmay ⊢
    have hforced := tryStartTasks_forced ha
    split at hmay
    · rename_i hnext
      rw [if_pos hnext]
      exact hforced hmay
    · rename_i hnext
      rw [if_neg hnext]
      exact hforced hmay
  · rw [if_neg ht]
    -- no task at all is due
    exact fun k hk _ => lt_of_lt_of_le (lt_of_not_ge ht) (nextStartTime_le s.taskQueue hk)

/-! ## The law of the queue -/

/-- All due calls have been handled. -/
def NoneDue (s : Job) : Prop := ∀ c ∈ s.calls.callQueue.queue, s.now < c.time

/-- Every task of the queue that lies in the future is waited for. -/
def WakesUp (s : Job) : Prop :=
  NoneDue s → s.state = .pending ∨ s.state = .running →
    ∀ k ∈ s.taskQueue.queue, InFuture s k.startAt → CalledUntil s k.startAt

/-- When the call is executed and nothing hinders the job, its forced tasks that
    are due are started as long as the job may start tasks. -/
def StartsForced (s : Job) : Prop :=
  ∀ e s', Step s (e, .call .startQueuedTask) s' →
    (∀ n, Unhindered (setting s) (e.attempts n)) → s'.mayStartTask = true → NoForcedDue s'

theorem startsForced (s : Job) : StartsForced s := by
  rintro e s' ⟨-, rfl⟩ ha hmay
  exact onStartQueuedTaskCall_forced (s := { s with
    calls := final (TypedCallRegister.executeMatureCall s.now.millis) s.calls }) ha hmay

/-- The job's period begins at the given instant and does not end. -/
def periodFrom (periodBegin : Time) : Environment := quiet periodBegin never 1

/-- The instant at which the job is configured. -/
def morning : Time := ⟨1001, by decide⟩

/-- A job for one task. -/
def oneTask : Job := configured 0 1 morning

theorem initial_oneTask : Initial oneTask := initial_configured 0 1 _

/-- A task with `force_start` is started for a later instant. -/
def startLater : Environment × Op := (periodFrom ⟨5000, by decide⟩, .startTask true ⟨2000, by decide⟩)

/-- The job is loaded and activated. -/
def activated : Job :=
  final (perform (periodFrom ⟨5000, by decide⟩) .activate)
    (final (perform (periodFrom ⟨5000, by decide⟩) .loaded) oneTask)

def withLaterTask : Job := final (perform startLater.1 startLater.2) activated

theorem withLaterTask_reach : Reach Initial (Guarded KeepsAwake Step) withLaterTask := by
  have hloaded : Reach Initial (Guarded KeepsAwake Step)
      (final (perform (periodFrom ⟨5000, by decide⟩) .loaded) oneTask) :=
    (Reach.start initial_oneTask).next (o := (periodFrom ⟨5000, by decide⟩, .loaded))
      ⟨trivial, rfl, rfl⟩
  have hactivated : Reach Initial (Guarded KeepsAwake Step) activated :=
    hloaded.next (o := (periodFrom ⟨5000, by decide⟩, .activate)) ⟨trivial, rfl, rfl⟩
  refine hactivated.next (o := startLater) ⟨fun _ => ?_, rfl, rfl⟩
  -- no call has been executed yet
  rintro ⟨c, hrem, -⟩
  cases hrem

/-- A task without a start time waits for the period, its call is executed, and
    then a forced task is enqueued behind it. -/
def behindBlockedTask : List (Environment × Op) :=
  [(periodFrom ⟨5000, by decide⟩, .loaded), (periodFrom ⟨5000, by decide⟩, .activate),
    (periodFrom ⟨5000, by decide⟩, .startTask false shortTerm),
    (periodFrom ⟨5000, by decide⟩, .call .startQueuedTask), startLater]

/-- A forced task is in the database when the job is loaded. -/
def fromDatabase : List (Environment × Op) :=
  [(periodFrom ⟨5000, by decide⟩, .loadTask true ⟨2000, by decide⟩),
    (periodFrom ⟨5000, by decide⟩, .loaded), (periodFrom ⟨5000, by decide⟩, .activate)]

/-- A pending job without any call has a forced task that lies in the future. -/
def forgotten (s : Job) : Bool :=
  s.state = .pending && s.calls.callQueue.queue.isEmpty &&
    s.taskQueue.queue.any fun k => k.forceStart && s.now < k.startAt && k.startAt ≠ never

theorem not_wakesUp_of_forgotten (h : forgotten s = true) : ¬WakesUp s := by
  simp only [forgotten, Bool.and_eq_true, decide_eq_true_eq, List.isEmpty_iff, List.any_eq_true] at h
  obtain ⟨⟨hpending, hnil⟩, k, hk, ⟨-, hlt⟩, hnever⟩ := h
  intro hwakes
  have hnone : NoneDue s := by
    intro c hc
    rw [hnil] at hc
    cases hc
  obtain ⟨c, hc, -⟩ := hwakes hnone (Or.inl hpending) k hk ⟨hlt, hnever⟩
  rw [hnil] at hc
  cases hc

theorem forgotten_runs : (runAll attempt oneTask behindBlockedTask).any forgotten = true ∧
    (runAll attempt oneTask fromDatabase).any forgotten = true := by
  constructor <;> decide +kernel

end JobWakeUp
