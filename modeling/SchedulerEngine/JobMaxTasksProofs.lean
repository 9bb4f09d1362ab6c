import SchedulerEngine.StandardJobProofs

/-! # The state of a job and its running tasks

    `try_start_one_task` knows from the state whether tasks are running, so the
    state has to agree with `_running_tasks`.  It does in all runs in which no
    stopping or failed job is unstopped, or activated again, while tasks run. -/

namespace JobMaxTasks

open Execution Execution.Exec RunInvariant StandardJob
open TypedCallRegister (Time shortTerm never)

variable {s s' : Job} {f : Task → Task} {new : State}

/-! ## The invariant -/

/-- The state agrees with the running tasks. -/
structure Agrees (s : Job) : Prop where
  size : s.runningTasks.length ≤ s.maxTasks
  idle : s.runningTasks ≠ [] → s.state ∈ [State.running, .stopping, .error]
  busy : s.state ∈ [State.running, .stopping] → s.runningTasks ≠ []
  asserted : s.assertionFailed = false

/-- `_start_min_tasks` is set only below `_min_tasks`, unless the job has failed. -/
def BelowMin (s : Job) : Prop :=
  s.startMinTasks = true → s.state ≠ .error →
    s.state ∈ [State.pending, .running] ∧ s.notEndingTasksCount < s.minTasks

/-- What holds between the operations. -/
structure Good (s : Job) : Prop extends Agrees s where
  belowMin : BelowMin s

/-- What holds of a job that may start one more task. -/
structure Ready (s : Job) : Prop extends Good s where
  room : s.state = .pending ∧ 0 < s.maxTasks ∨
    s.state = .running ∧ s.runningTasks.length < s.maxTasks

/-! ## Pure changes -/

/-- No more tasks are running on. -/
theorem countP_map_le (hf : EndingStays f) (l : List Task) :
    (l.map f).countP (fun t => !t.ending) ≤ l.countP fun t => !t.ending := by
  rw [List.countP_map]
  refine List.countP_mono_left ?_
  intro t _ ht
  by_contra hend
  have hend' : t.ending = true := by simpa using hend
  simp [hf t hend'] at ht

theorem Agrees.mapTasks (h : Agrees s) (f : Task → Task) (w : List Task) :
    Agrees { s with runningTasks := s.runningTasks.map f, wokenTasks := w } where
  size := by
    show (s.runningTasks.map f).length ≤ _
    rw [List.length_map]
    exact h.size
  idle := fun hne => h.idle fun hnil => hne (List.map_eq_nil_iff.mpr hnil)
  busy := fun hst hnil => h.busy hst (List.map_eq_nil_iff.mp hnil)
  asserted := h.asserted

/-- A change of the running tasks that does not make an ending task go on. -/
theorem Good.mapTasks (h : Good s) (hf : EndingStays f) (w : List Task) :
    Good { s with runningTasks := s.runningTasks.map f, wokenTasks := w } where
  toAgrees := h.toAgrees.mapTasks f w
  belowMin := by
    intro hflag hst
    obtain ⟨hstate, hlt⟩ := h.belowMin hflag hst
    exact ⟨hstate, lt_of_le_of_lt (countP_map_le hf _) hlt⟩

theorem Good.updateTask (h : Good s) (hf : EndingStays f) (id : Nat) :
    Good (s.updateTask id f) :=
  h.mapTasks (hf.ite endingStays_id) _

/-- A new state that agrees with the running tasks. -/
theorem Agrees.setState (h : Agrees s)
    (hidle : s.runningTasks ≠ [] → new ∈ [State.running, .stopping, .error])
    (hbusy : new ∈ [State.running, .stopping] → s.runningTasks ≠ []) :
    Agrees (s.setState new) where
  size := by
    rw [Job.setState_runningTasks, Job.setState_maxTasks]
    exact h.size
  idle := by
    rw [Job.setState_runningTasks, Job.setState_state]
    exact hidle
  busy := by
    rw [Job.setState_runningTasks, Job.setState_state]
    exact hbusy
  asserted := by
    rw [Job.setState_assertionFailed]
    exact h.asserted

/-- The state of a job that starts no tasks. -/
theorem Agrees.setState_idle (h : Agrees s) (hnil : s.runningTasks = [])
    (hnew : new ∉ [State.running, .stopping]) : Agrees (s.setState new) :=
  h.setState (fun hne => absurd hnil hne) fun hst => absurd hst hnew

/-- A state for a job without tasks and one for a job with tasks. -/
theorem Agrees.setState_ifEmpty (h : Agrees s) {a b : State}
    (ha : a ∉ [State.running, .stopping]) (hb : b ∈ [State.running, .stopping]) :
    Agrees (s.setState (if s.runningTasks.isEmpty then a else b)) := by
  by_cases hnil : s.runningTasks.isEmpty
  · rw [if_pos hnil]
    exact h.setState_idle (List.isEmpty_iff.mp hnil) ha
  · rw [if_neg hnil]
    refine h.setState (fun _ => ?_) fun _ hempty => hnil (List.isEmpty_iff.mpr hempty)
    have hb' : b = .running ∨ b = .stopping := by simpa using hb
    rcases hb' with rfl | rfl <;> simp

/-- `check_min_tasks` repairs the flag. -/
theorem Agrees.checkMinTasks (h : Agrees s) : Good s.checkMinTasks where
  size := h.size
  idle := h.idle
  busy := h.busy
  asserted := h.asserted
  belowMin := by
    intro hflag _
    have hflag' : (!s.startMinTasks && s.shouldStartTaskBecauseOfMinTasks) = true := hflag
    simp only [Job.shouldStartTaskBecauseOfMinTasks, Job.belowMinTasks, Bool.and_eq_true,
      Bool.or_eq_true, decide_eq_true_eq] at hflag'
    obtain ⟨_, hstate, _, hlt⟩ := hflag'
    refine ⟨?_, hlt⟩
    show s.state ∈ _
    rcases hstate with hst | hst <;> simp [hst]

theorem Agrees.setJobError (h : Agrees s) : Good s.setJobError where
  toAgrees := by
    refine h.setState (fun _ => by simp) ?_
    intro hst
    simp at hst
  belowMin := by
    intro _ hst
    exact absurd Job.setState_state hst

theorem Good.stopSimply (h : Good s) (endAllTasks : Bool) : Good (s.stopSimply endAllTasks) := by
  have hset : Agrees (s.setState (if s.runningTasks.isEmpty then .stopped else .stopping)) :=
    h.toAgrees.setState_ifEmpty (by simp) (by simp)
  -- the flag is cleared, so its clause is met
  have hgood : Good { s.setState (if s.runningTasks.isEmpty then .stopped else .stopping) with
      startMinTasks := false } :=
    { size := hset.size
      idle := hset.idle
      busy := hset.busy
      asserted := hset.asserted
      belowMin := by
        intro hflag
        cases hflag }
  cases endAllTasks with
  | false => exact hgood
  | true =>
      have hmap := hgood.mapTasks (f := fun t => if t.ending then t else t.cmdEnd .normal)
        (endingStays_id.ite (endingStays_cmdEnd .normal))
        (s.setState (if s.runningTasks.isEmpty then .stopped else .stopping)).wokenTasks
      exact hmap

theorem Good.stop (h : Good s) (endAllTasks : Bool) : Good (s.stop endAllTasks) := by
  have hperm : Good { s with isPermanentlyStopped := true } :=
    ⟨⟨h.size, h.idle, h.busy, h.asserted⟩, h.belowMin⟩
  exact hperm.stopSimply endAllTasks

theorem Good.endTasks (h : Good s) : Good s.endTasks :=
  h.mapTasks (endingStays_id.ite (endingStays_cmdEnd .normal)) s.wokenTasks

theorem Good.setNextStartTime (h : Good s) (sch : Schedule) : Good (s.setNextStartTime sch) := by
  obtain ⟨_, _, _, _, _, _, hs⟩ := s.setNextStartTime_spec sch
  rw [hs]
  exact ⟨⟨h.size, h.idle, h.busy, h.asserted⟩, h.belowMin⟩

theorem Good.selectPeriod (h : Good s) (sch : Schedule) : Good (s.selectPeriod sch) := by
  obtain ⟨_, _, _, _, hs⟩ := s.selectPeriod_spec sch
  rw [hs]
  exact ⟨⟨h.size, h.idle, h.busy, h.asserted⟩, h.belowMin⟩

theorem Good.callAtStart (h : Good s) (t : Time) : Good (s.callAtStart t) :=
  ⟨⟨h.size, h.idle, h.busy, h.asserted⟩, h.belowMin⟩

theorem Good.enqueue (h : Good s) (task : Task) : Good (s.enqueue task) :=
  ⟨⟨h.size, h.idle, h.busy, h.asserted⟩, h.belowMin⟩

theorem Good.killQueuedTask (h : Good s) (id : Nat) : Good (s.killQueuedTask id) := by
  rw [Job.killQueuedTask]
  split
  · exact ⟨⟨h.size, h.idle, h.busy, h.asserted⟩, h.belowMin⟩
  · exact h

/-- The running tasks after one has been erased. -/
def erased (id : Nat) (s : Job) : Job := { s with
  runningTasks := s.runningTasks.eraseP fun t => t.id = id
  wokenTasks := s.wokenTasks.eraseP fun t => t.id = id }

theorem erased_belowMin (h : BelowMin s) (id : Nat) : BelowMin (erased id s) := by
  intro hflag hst
  obtain ⟨hstate, hlt⟩ := h hflag hst
  exact ⟨hstate, lt_of_le_of_lt (List.eraseP_sublist.countP_le) hlt⟩

/-- When the last task has gone, a new state keeps the flag's clause if the old
    one is not left for a state without tasks to start. -/
theorem Good.setState_erased (h : Good s) (id : Nat) (hnil : (erased id s).runningTasks = [])
    (hnew : new ∉ [State.running, .stopping])
    (hflag : s.startMinTasks = true → new ≠ .error →
      s.state ≠ .error ∧ (s.state ∈ [State.pending, .running] → new = .pending)) :
    Good ((erased id s).setState new) where
  size := by
    rw [Job.setState_runningTasks, hnil]
    exact Nat.zero_le _
  idle := by
    intro hne
    rw [Job.setState_runningTasks] at hne
    exact absurd hnil hne
  busy := by
    intro hst
    rw [Job.setState_state] at hst
    exact absurd hst hnew
  asserted := by
    rw [Job.setState_assertionFailed]
    exact h.asserted
  belowMin := by
    intro hf hst
    rw [Job.setState_startMinTasks] at hf
    rw [Job.setState_state] at hst
    obtain ⟨hne, hpending⟩ := hflag hf hst
    obtain ⟨hstate, hlt⟩ := erased_belowMin h.belowMin id hf hne
    rw [Job.setState_state, hpending hstate, Job.notEndingTasksCount,
      Job.setState_runningTasks, Job.setState_minTasks]
    exact ⟨by simp, hlt⟩

theorem Good.removeRunningTask (h : Good s) (sch : Schedule) (id : Nat) :
    Good (s.removeRunningTask sch id) := by
  show Good (if (erased id s).runningTasks.isEmpty then _ else erased id s)
  have hsize : (erased id s).runningTasks.length ≤ s.maxTasks :=
    le_trans List.eraseP_sublist.length_le h.size
  have hidle : (erased id s).runningTasks ≠ [] → s.state ∈ [State.running, .stopping, .error] := by
    intro hne
    refine h.idle fun hnil => hne ?_
    show s.runningTasks.eraseP _ = []
    rw [hnil]
    rfl
  by_cases hempty : (erased id s).runningTasks.isEmpty
  · rw [if_pos hempty]
    have hnil := List.isEmpty_iff.mp hempty
    -- only a running or stopping job has lost its last task
    split
    · rename_i hstopping
      have hst : s.state = .stopping := hstopping
      refine h.setState_erased id hnil (by simp) fun hflag _ => ⟨by simp [hst], ?_⟩
      intro hin
      simp [hst] at hin
    · rename_i hrunning
      have hst : s.state = .running := hrunning
      refine (h.setState_erased id hnil (by simp) fun _ _ => ⟨by simp [hst], fun _ => rfl⟩)
        |>.setNextStartTime sch
    · rename_i hstopping hrunning
      refine ⟨⟨hsize, hidle, ?_, h.asserted⟩, erased_belowMin h.belowMin id⟩
      intro hst
      have hst' : s.state = .running ∨ s.state = .stopping := by simpa [erased] using hst
      rcases hst' with hst' | hst'
      · exact absurd hst' hrunning
      · exact absurd hst' hstopping
  · rw [if_neg hempty]
    refine ⟨⟨hsize, hidle, ?_, h.asserted⟩, erased_belowMin h.belowMin id⟩
    intro _ hnil
    exact hempty (List.isEmpty_iff.mpr hnil)

/-! ## Creating and finishing tasks -/

/-- A stopped job may be set pending. -/
theorem Good.pending_of_stopped (h : Good s) (hst : s.state = .stopped) :
    Good (s.setState .pending) where
  toAgrees := by
    refine h.toAgrees.setState_idle ?_ (by simp)
    by_contra hne
    simpa [hst] using h.idle hne
  belowMin := by
    intro hflag _
    rw [Job.setState_startMinTasks] at hflag
    simpa [hst] using (h.belowMin hflag (by simp [hst])).1

/-- Nothing that a task does makes the state disagree with the running tasks. -/
theorem keptByTasks : KeptByTasks Good where
  pending := fun _ h hst => h.pending_of_stopped hst
  enqueue := fun _ task h _ => h.enqueue task
  stop := fun _ h => h.stop false
  delay := fun _ _ h => ⟨⟨h.size, h.idle, h.busy, h.asserted⟩, h.belowMin⟩
  checkMinTasks := fun _ h => h.toAgrees.checkMinTasks
  update := fun _ id _ hf h => h.updateTask hf id

/-! ## Starting tasks -/

/-- Changes of other fields. -/
theorem Ready.lookAtDirectory (h : Ready s) (a : Answers) : Ready (s.lookAtDirectory a) := by
  rw [Job.lookAtDirectory]
  split
  · exact ⟨⟨⟨h.size, h.idle, h.busy, h.asserted⟩, h.belowMin⟩, h.room⟩
  · exact h

/-- The assertion of `task_to_start` holds. -/
theorem Ready.assertBelowMinTasks (h : Ready s) : Ready s.assertBelowMinTasks := by
  have hok : (s.startMinTasks && !decide (s.notEndingTasksCount < s.minTasks)) = false := by
    cases hflag : s.startMinTasks with
    | false => rfl
    | true =>
        have hst : s.state ≠ .error := by
          rcases h.room with hroom | hroom <;> simp [hroom.1]
        simp [(h.belowMin hflag hst).2]
  refine ⟨⟨⟨h.size, h.idle, h.busy, ?_⟩, h.belowMin⟩, h.room⟩
  show (s.assertionFailed || _) = false
  rw [hok, h.asserted]
  rfl

theorem Ready.chooseCandidate (h : Ready s) (a : Answers) : Ready (s.chooseCandidate a).2 := by
  simp only [Job.chooseCandidate]
  split
  · exact h
  · split
    · refine Ready.assertBelowMinTasks ?_
      split
      · exact h.lookAtDirectory a
      · exact h
    · exact h

theorem Ready.checkLocks (h : Ready s) (a : Answers) (c : Candidate) :
    Ready (s.checkLocks a c).2 := by
  rw [Job.checkLocks]
  split
  · split
    · exact ⟨⟨⟨h.size, h.idle, h.busy, h.asserted⟩, h.belowMin⟩, h.room⟩
    · exact h
  · exact h

theorem Ready.updateTask (h : Ready s) (hf : EndingStays f) (id : Nat) :
    Ready (s.updateTask id f) := by
  refine ⟨h.toGood.updateTask hf id, ?_⟩
  refine h.room.imp_right fun hroom => ⟨hroom.1, ?_⟩
  show (s.runningTasks.map _).length < s.maxTasks
  rw [List.length_map]
  exact hroom.2

theorem Ready.checkProcess (h : Ready s) (a : Answers) (c : Candidate) :
    Ready (s.checkProcess a c).2 := by
  have hother : ∀ w r, Ready { s with waitingForProcess := w, waitingForProcessTryAgain := r } :=
    fun w r => ⟨⟨⟨h.size, h.idle, h.busy, h.asserted⟩, h.belowMin⟩, h.room⟩
  have hfree : ∀ freed, Ready (Job.tryToFreeProcess freed
      { s with waitingForProcess := true, waitingForProcessTryAgain := false }) := by
    intro freed
    cases freed with
    | none => exact hother true false
    | some id =>
        refine (hother true false).updateTask ?_ id
        exact (endingStays_cmdEnd .nice).ite endingStays_id
  rw [Job.checkProcess]
  split
  · split
    · exact hother false false
    · split
      · exact hfree a.freedTask
      · exact h
    · exact hother true s.waitingForProcessTryAgain
  · exact h

theorem Ready.afterTaskToStart (h : Ready s) (a : Answers) (started : Bool) :
    Ready (s.afterTaskToStart a started) := by
  obtain ⟨_, _, _, _, -, -, hs⟩ := s.afterTaskToStart_spec a started
  rw [hs]
  exact ⟨⟨⟨h.size, h.idle, h.busy, h.asserted⟩, h.belowMin⟩, h.room⟩

/-- A pending or running job is not stopped. -/
theorem Ready.not_stopped (h : Ready s) : s.state ≠ .stopped := by
  rcases h.room with hroom | hroom <;> simp [hroom.1]

/-- Choosing a task leaves the room for it. -/
theorem keptByChoice : KeptByChoice Ready where
  choose := fun _ a h => h.chooseCandidate a
  locks := fun _ a c h => h.checkLocks a c
  process := fun _ a c h => h.checkProcess a c
  pending := fun _ h hst => absurd hst h.not_stopped
  remove := fun _ _ h => ⟨⟨⟨h.size, h.idle, h.busy, h.asserted⟩, h.belowMin⟩, h.room⟩
  taken := fun _ _ _ h => ⟨⟨⟨h.size, h.idle, h.busy, h.asserted⟩, h.belowMin⟩, h.room⟩
  after := fun _ a b h => h.afterTaskToStart a b

/-- There is room for the task, and then the job runs. -/
theorem Ready.insertRunningTask (h : Ready s) (task : Task) :
    Agrees (s.insertRunningTask task) ∧ (s.insertRunningTask task).state = .running := by
  have hsize : s.runningTasks.length < s.maxTasks := by
    rcases h.room with ⟨hst, hmax⟩ | ⟨_, hlt⟩
    · have hnil : s.runningTasks = [] := by
        by_contra hne
        simpa [hst] using h.idle hne
      rw [hnil]
      exact hmax
    · exact hlt
  refine ⟨⟨?_, ?_, ?_, ?_⟩, ?_⟩
  · show (Job.setState _ _).runningTasks.length ≤ (Job.setState _ _).maxTasks
    rw [Job.setState_runningTasks, Job.setState_maxTasks]
    exact hsize
  · intro _
    show (Job.setState _ _).state ∈ _
    rw [Job.setState_state]
    simp
  · intro _
    show (Job.setState _ _).runningTasks ≠ []
    rw [Job.setState_runningTasks]
    exact List.cons_ne_nil _ _
  · show (Job.setState _ _).assertionFailed = false
    rw [Job.setState_assertionFailed]
    exact h.asserted
  · show (Job.setState _ _).state = _
    rw [Job.setState_state]

/-- The flag is cleared when enough tasks run. -/
theorem launch_spec (a : Answers) (task : Task) :
    Triple Ready (launch a task) (fun _ => Good) (fun _ => Agrees) := by
  have hloaded : Triple (fun s => Agrees s ∧ s.state = .running)
      (modify (Job.updateTask task.id (Task.setState .loading)) : Method Unit)
      (fun _ s => Agrees s ∧ s.state = .running) (fun _ => Agrees) :=
    Triple.modify fun s h => ⟨h.1.mapTasks _ _, h.2⟩
  refine Triple.bind (Q := fun _ s => Agrees s ∧ s.state = .running)
    (Triple.modify fun s h => h.insertRunningTask task) fun _ => ?_
  refine Triple.bind hloaded fun _ => ?_
  refine Triple.bind (Q := fun _ s => Agrees s ∧ s.state = .running)
    (Triple.require (fun _ s h => h) fun _ s h => h.1) fun _ => ?_
  refine Triple.bind (Q := fun _ => Good) (Triple.modify fun s h => ?_) fun _ => ?_
  · refine ⟨⟨h.1.size, h.1.idle, h.1.busy, h.1.asserted⟩, ?_⟩
    intro hflag _
    have hflag' : (s.startMinTasks && decide (s.notEndingTasksCount < s.minTasks)) = true := hflag
    rw [Bool.and_eq_true, decide_eq_true_eq] at hflag'
    refine ⟨?_, hflag'.2⟩
    show s.state ∈ _
    rw [h.2]
    simp
  have hrest : Keeps Good (do
      forEach (taskEvent task.id) a.doSomething
      require (!a.doSomethingThrows) .task
      modify fun s => { s with wakeWhenInPeriod := false } : Method Unit) := by
    refine Keeps.bind (Keeps.forEach fun event _ => keptByTasks.taskEvent task.id event) fun _ => ?_
    refine Keeps.bind (Keeps.require _ _) fun _ => Keeps.modify fun s h => ?_
    exact ⟨⟨h.size, h.idle, h.busy, h.asserted⟩, h.belowMin⟩
  exact hrest.triple.consequence (fun _ h => h) (fun _ _ h => h) fun _ _ h => h.toAgrees

theorem startOneTask_spec (a : Answers) :
    Triple Ready (startOneTask a) (fun _ => Good) (fun _ => Agrees) := by
  have htask : Triple Ready (taskToStart a) (fun _ => Ready) (fun _ => Agrees) :=
    (keptByChoice.taskToStart a).triple.consequence (fun _ h => h) (fun _ _ h => h)
      fun _ _ h => h.toAgrees
  refine htask.bind fun task => ?_
  cases task with
  | none => exact Triple.pure fun s h => h.toGood
  | some task => exact (launch_spec a task).bind fun _ => Triple.pure fun s h => h

/-- The condition of `try_start_one_task` says that there is room. -/
theorem Good.ready (h : Good s) (hmay : s.mayStartTask = true) : Ready s := by
  refine ⟨h, ?_⟩
  simp only [Job.mayStartTask, Job.pendingWithTasks, Bool.and_eq_true, Bool.or_eq_true,
    decide_eq_true_eq] at hmay
  exact hmay.1.1.1

theorem Good.dequeueLockRequests (h : Good s) : Good s.dequeueLockRequests :=
  ⟨⟨h.size, h.idle, h.busy, h.asserted⟩, h.belowMin⟩

theorem keeps_tryStartOneTask (a : Answers) : Keeps Good (tryStartOneTask a) := by
  refine Keeps.of_triple (Triple.get_bind fun s => ?_)
  refine Triple.bind (Q := fun _ => Good) ?_ fun started => ?_
  · refine Triple.ite (fun hmay => ?_) fun _ => Triple.pure fun t h => h.2
    have hcatch : Triple Ready (catchJobError (startOneTask a)) (fun _ => Good) (fun _ => Good) :=
      (startOneTask_spec a).tryCatch fun _ => Triple.bind (Q := fun _ => Good)
        (Triple.modify fun t h => h.setJobError) fun _ => Triple.pure fun t h => h
    exact hcatch.consequence (fun t h => h.2.ready (h.1 ▸ hmay)) (fun _ _ h => h) fun _ _ h => h
  · refine Triple.bind (Q := fun _ => Good) ?_ fun _ => Triple.pure fun t h => h
    exact Triple.onlyIf (fun _ => Triple.modify fun t h => h.dequeueLockRequests) fun _ t h => h

theorem keeps_tryStartTasks (answers : Nat → Answers) : Keeps Good (tryStartTasks answers) :=
  tryStartTasks_keeps fun n => keeps_tryStartOneTask (answers n)

/-! ## Commands and calls -/

/-- The job is not unstopped while it is stopping, or has failed, with tasks
    running. -/
def UnstopsIdle (s : Job) (cmd : StateCmd) : Prop :=
  cmd = .unstop → s.state ∈ [State.stopping, .error] → s.isToBeRemoved = false →
    s.runningTasks = []

/-- A job that neither runs nor stops nor has failed has no running tasks. -/
theorem Agrees.runningTasks_nil (h : Agrees s)
    (hst : s.state ∉ [State.running, .stopping, .error]) : s.runningTasks = [] := by
  by_contra hne
  exact hst (h.idle hne)

theorem Good.unstopOrEnable (h : Good s) (cmd : StateCmd)
    (hst : s.state ∈ [State.stopping, .stopped, .error]) (hremove : s.isToBeRemoved = false)
    (hidle : UnstopsIdle s cmd) : Agrees (s.unstopOrEnable cmd) := by
  rw [Job.unstopOrEnable]
  split
  · rename_i hcmd
    refine h.toAgrees.setState_idle ?_ (by simp)
    by_cases hstopped : s.state = .stopped
    · exact h.toAgrees.runningTasks_nil (by simp [hstopped])
    · refine hidle hcmd ?_ hremove
      simpa [hstopped] using hst
  · exact ⟨h.size, h.idle, h.busy, h.asserted⟩

theorem unstop_good (e : Environment) (cmd : StateCmd) (h : Good s) (hidle : UnstopsIdle s cmd) :
    Good (final (unstop e cmd) s) := by
  have hgo : Keeps Good (do
      modify (Job.setNextStartTime e.schedule)
      tryStartTasks e.attempts : Method Unit) :=
    Keeps.bind (Keeps.modify fun t ht => ht.setNextStartTime e.schedule) fun _ =>
      keeps_tryStartTasks e.attempts
  show Good (final (onlyIf _ _) s)
  simp only [onlyIf]
  split
  · rename_i hc
    exact hgo _ (h.unstopOrEnable cmd hc.1 (by simpa using hc.2) hidle).checkMinTasks
  · exact h

theorem wake_good (e : Environment) (h : Good s) : Good (final (wake e) s) := by
  -- the job is pending or stopped, and creating the task leaves it so
  have hcreate : Keeps (fun t => Good t ∧ t.runningTasks = [])
      (createTask e.taskId false shortTerm) := by
    refine createTask_keeps ?_ _ _ _
    rintro t ⟨ht, hnil⟩ hst
    rw [Job.setState_runningTasks]
    exact ⟨ht.pending_of_stopped hst, hnil⟩
  have hgo : ∀ g : Job → List Task, Keeps Good (do
      modify fun s => { s with wokenTasks := g s }
      tryStartTasks e.attempts : Method Unit) := by
    intro g
    refine Keeps.bind (Keeps.modify fun t ht => ?_) fun _ => keeps_tryStartTasks e.attempts
    exact ⟨⟨ht.size, ht.idle, ht.busy, ht.asserted⟩, ht.belowMin⟩
  show Good (final (onlyIf _ _) s)
  simp only [onlyIf]
  split
  · rename_i hc
    have hnil : s.runningTasks = [] := by
      refine h.toAgrees.runningTasks_nil fun hin => ?_
      have hin' := hc.1
      cases hst : s.state <;> simp_all
    have hspec : Triple (fun t => Good t ∧ t.runningTasks = []) (do
        let task ← createTask e.taskId false shortTerm
        modify (Job.setState .pending)
        modify Job.checkMinTasks
        modify fun s => { s with
          wokenTasks := { task with cause := some .wake, state := .loading } :: s.wokenTasks }
        tryStartTasks e.attempts) (fun _ => Good) (fun _ => Good) := by
      refine Triple.bind (hcreate.triple.consequence (fun _ h => h) (fun _ _ h => h)
        fun _ _ h => h.1) fun task => ?_
      refine Triple.bind (Q := fun _ => Agrees)
        (Triple.modify fun t ht => ht.1.toAgrees.setState_idle ht.2 (by simp)) fun _ => ?_
      refine Triple.bind (Q := fun _ => Good)
        (Triple.modify fun t ht => ht.checkMinTasks) fun _ => ?_
      exact (hgo _).triple
    exact hspec.final ⟨h, hnil⟩
  · exact h

theorem continue_good (e : Environment) (h : Good s) :
    Good (final (setStateCmd e .«continue») s) := by
  have hmap := h.mapTasks endingStays_resume s.wokenTasks
  have hset := hmap.toAgrees.setState_ifEmpty (a := .pending) (b := .running) (by simp) (by simp)
  have hempty : (s.runningTasks.map Task.resume).isEmpty = s.runningTasks.isEmpty := by
    cases s.runningTasks <;> rfl
  rw [hempty] at hset
  exact keeps_tryStartTasks e.attempts _ hset.checkMinTasks

theorem setStateCmd_good (e : Environment) (cmd : StateCmd) (h : Good s)
    (hidle : UnstopsIdle s cmd) : Good (final (setStateCmd e cmd) s) := by
  have hstart : Keeps Good (tryStartTasks e.attempts) := keeps_tryStartTasks e.attempts
  have hone : Keeps Good (do
      let _ ← tryStartOneTask (e.attempts 0)
      pure () : Method Unit) :=
    Keeps.bind (keeps_tryStartOneTask _) fun _ => Keeps.pure ()
  cases cmd with
  | stop => exact Keeps.onlyIf (fun _ => Keeps.modify fun t ht => ht.stop true) s h
  | disable =>
      refine Keeps.onlyIf (fun _ => Keeps.modify fun t ht => ?_) s h
      have hs := ht.stop true
      exact ⟨⟨hs.size, hs.idle, hs.busy, hs.asserted⟩, hs.belowMin⟩
  | unstop => exact unstop_good e .unstop h hidle
  | enable => exact unstop_good e .enable h hidle
  | «end» => exact h.mapTasks (endingStays_cmdEnd .normal) s.wokenTasks
  | suspend =>
      refine Keeps.onlyIf (fun _ => Keeps.modify fun t ht => ?_) s h
      exact ht.mapTasks endingStays_suspend t.wokenTasks
  | «continue» => exact continue_good e h
  | wake => exact wake_good e h
  | wakeWhenInPeriod =>
      refine Keeps.onlyIf (fun _ => Keeps.bind (Keeps.modify fun t ht => ?_) fun _ =>
        Keeps.onlyIf fun _ => hstart) s h
      exact ⟨⟨ht.size, ht.idle, ht.busy, ht.asserted⟩, ht.belowMin⟩
  | start => exact Keeps.bind (startTask_keeps keptByTasks.pending _ _ _ _
      fun t task ht _ => ht.enqueue task) (fun _ => hone) s h

theorem keeps_onStartQueuedTaskCall (e : Environment) : Keeps Good (onStartQueuedTaskCall e) := by
  refine Keeps.get_bind fun s h => ?_
  refine Keeps.ite (fun _ => ?_) (fun _ => Keeps.modify fun t ht => ht.callAtStart _) s h
  refine Keeps.bind (keeps_tryStartTasks e.attempts) fun _ => Keeps.get_bind fun t ht => ?_
  exact Keeps.onlyIf (fun _ => Keeps.modify fun t ht => ht.callAtStart _) t ht

theorem onCall_good (e : Environment) (c : Call) (h : Good s)
    (hidle : ∀ cmd, c = .stateCmd cmd → UnstopsIdle s cmd) : Good (final (onCall e c) s) := by
  have hstart : Keeps Good (tryStartTasks e.attempts) := keeps_tryStartTasks e.attempts
  have horders : Keeps Good (processOrders e) :=
    (keptByTasks.continueTasksWaitingForOrder e).bind fun _ => hstart
  cases c with
  | stateCmd cmd => exact setStateCmd_good e cmd h (hidle cmd rfl)
  | periodEnd setNext =>
      refine Keeps.bind (Keeps.modify fun t ht => ht.selectPeriod e.schedule) (fun _ => ?_) s h
      exact Keeps.onlyIf fun _ => Keeps.modify fun t ht => ht.setNextStartTime e.schedule
  | startQueuedTask => exact keeps_onStartQueuedTaskCall e s h
  | orderTimed => exact horders s h
  | orderPossiblyAvailable => exact horders s h
  | taskClosed id =>
      refine Keeps.bind (Keeps.modify fun t ht => ht.removeRunningTask e.schedule id)
        (fun _ => Keeps.get_bind fun t ht => ?_) s h
      exact Keeps.onlyIf (fun _ => hstart) t ht
  | startWhenDirectoryChanged =>
      refine Keeps.onlyIf (fun _ => Keeps.bind (Keeps.modify fun t ht => ?_) fun _ =>
        Keeps.bind (keeps_tryStartOneTask _) fun _ => Keeps.pure ()) s h
      exact ⟨⟨ht.size, ht.idle, ht.busy, ht.asserted⟩, ht.belowMin⟩
  | _ => exact hstart s h

/-! ## Runs -/

/-- The operations that do not unstop the job, or activate it again, while it is
    stopping or has failed with tasks running. -/
def UnstopsIdly (s : Job) (op : Environment × Op) : Prop :=
  match op.2 with
  | .stateCmd cmd => UnstopsIdle s cmd
  | .call (.stateCmd cmd) => UnstopsIdle s cmd
  | .activate => s.state ∈ [State.stopping, .error] → s.runningTasks = []
  | _ => True

theorem onActivate_good (e : Environment) (h : Good s)
    (hidle : s.state ∈ [State.stopping, .error] → s.runningTasks = []) :
    Good (final (onActivate e) s) := by
  show Good (final (onlyIf _ _) s)
  simp only [onlyIf]
  split
  · rename_i hbefore
    have hnil : s.runningTasks = [] := by
      by_cases hst : s.state ∈ [State.stopping, .error]
      · exact hidle hst
      · refine h.toAgrees.runningTasks_nil fun hin => ?_
        cases hstate : s.state <;> simp_all [State.beforePending]
    have hset : Agrees (s.setState (if s.isPermanentlyStopped then .stopped else .pending)) := by
      refine h.toAgrees.setState_idle hnil ?_
      split <;> simp
    have hdelay : Agrees { s.setState (if s.isPermanentlyStopped then .stopped else .pending) with
        delayUntil := shortTerm } := ⟨hset.size, hset.idle, hset.busy, hset.asserted⟩
    have hrest : Keeps Good (do
        modify fun s => { s with
          startOnceForDirectory := s.startOnceForDirectory || e.directoryChanged }
        modify (Job.setNextStartTime e.schedule) : Method Unit) := by
      refine Keeps.bind (Keeps.modify fun t ht => ?_) fun _ =>
        Keeps.modify fun t ht => ht.setNextStartTime e.schedule
      exact ⟨⟨ht.size, ht.idle, ht.busy, ht.asserted⟩, ht.belowMin⟩
    exact hrest _ hdelay.checkMinTasks
  · exact h

/-- A step that meets the condition keeps the invariant. -/
theorem Good.step {op : Environment × Op} (h : Good s) (hguard : UnstopsIdly s op)
    (hs : Step s op s') : Good s' := by
  obtain ⟨e, op⟩ := op
  obtain ⟨henabled, rfl⟩ := hs
  cases op with
  | stateCmd cmd => exact setStateCmd_good e cmd h hguard
  | call c =>
      have hcall : ∀ c, (∀ cmd, c = .stateCmd cmd → UnstopsIdle s cmd) →
          Good (final (onCall e c) s) := fun c hc => onCall_good e c h hc
      cases c with
      | stateCmd cmd =>
          refine hcall _ fun cmd' heq => ?_
          cases heq
          exact hguard
      | startQueuedTask =>
          exact onCall_good e .startQueuedTask
            ⟨⟨h.size, h.idle, h.busy, h.asserted⟩, h.belowMin⟩ fun cmd heq => by cases heq
      | _ => exact hcall _ fun cmd heq => by cases heq
  | startTask force startAt =>
      exact startTask_keeps keptByTasks.pending _ _ _ _ (fun t task ht _ => ht.enqueue task) s h
  | loadTask force startAt =>
      refine Keeps.bind (createTask_keeps keptByTasks.pending _ _ _) (fun task => ?_) s h
      refine Keeps.modify fun t ht => ?_
      exact ⟨⟨ht.size, ht.idle, ht.busy, ht.asserted⟩, ht.belowMin⟩
  | loaded =>
      have hst : s.state = .initialized := of_decide_eq_true henabled
      have hnil := h.toAgrees.runningTasks_nil (by simp [hst])
      refine ⟨h.toAgrees.setState_idle hnil (by simp), ?_⟩
      intro hflag _
      have hflag' : (s.setState .loaded).startMinTasks = true := hflag
      rw [Job.setState_startMinTasks] at hflag'
      simpa [hst] using (h.belowMin hflag' (by simp [hst])).1
  | activate => exact onActivate_good e h hguard
  | killQueuedTask id => exact h.killQueuedTask id
  | task id event => exact keptByTasks.taskEvent id event s h
  | notifyAProcessIsAvailable => exact ⟨⟨h.size, h.idle, h.busy, h.asserted⟩, h.belowMin⟩
  | scheduleModified => exact h.setNextStartTime e.schedule
  | stopSimply endAllTasks => exact h.stopSimply endAllTasks
  | endTasks => exact h.endTasks
  | prepareToRemove =>
      have hs := h.endTasks.stopSimply true
      exact ⟨⟨hs.size, hs.idle, hs.busy, hs.asserted⟩, hs.belowMin⟩
  | setSpoolerState new => exact ⟨⟨h.size, h.idle, h.busy, h.asserted⟩, h.belowMin⟩
  | tick now => exact ⟨⟨h.size, h.idle, h.busy, h.asserted⟩, h.belowMin⟩

theorem Good.initial (h : Initial s) : Good s where
  size := by
    rw [h.runningTasks]
    exact Nat.zero_le _
  idle := fun hne => absurd h.runningTasks hne
  busy := by
    intro hst
    rw [h.state] at hst
    simp at hst
  asserted := h.assertionFailed
  belowMin := by
    intro hflag
    rw [h.startMinTasks] at hflag
    cases hflag

/-! ## The law of the running tasks -/

/-- At most `_max_tasks` tasks run, the state tells whether tasks run, and the
    assertion of `task_to_start` has held. -/
def StateTellsTasks (s : Job) : Prop :=
  s.runningTasks.length ≤ s.maxTasks ∧
    (s.state ∈ [State.pending, .stopped] → s.runningTasks = []) ∧
    (s.state ∈ [State.running, .stopping] → s.runningTasks ≠ []) ∧
    s.assertionFailed = false

instance (s : Job) : Decidable (StateTellsTasks s) := by
  unfold StateTellsTasks
  infer_instance

theorem Good.stateTellsTasks (h : Good s) : StateTellsTasks s := by
  refine ⟨h.size, fun hst => h.toAgrees.runningTasks_nil fun hin => ?_, h.busy, h.asserted⟩
  cases hstate : s.state <;> simp_all

/-- In every run in which the job is unstopped or activated only without running
    tasks, the state tells whether tasks run and at most `_max_tasks` do. -/
theorem stateTellsTasks_over_runs (h : Reach Initial (Guarded UnstopsIdly Step) s) :
    StateTellsTasks s := by
  refine Good.stateTellsTasks (Reach.invariant (fun _ hi => Good.initial hi) ?_ h)
  intro s op s' hs hstep
  exact hs.step hstep.1 hstep.2

/-- A job for one task, with a period that does not end. -/
def oneTask : Job := configured 0 1 ⟨1000, by decide⟩

theorem initial_oneTask : Initial oneTask := initial_configured 0 1 _

def always (taskId : Nat) : Environment := quiet shortTerm never taskId

/-- A task is started, the job is stopped, and a second task is enqueued. -/
def untilStopping : List (Environment × Op) :=
  [(always 1, .loaded), (always 1, .activate), (always 1, .startTask true ⟨1000, by decide⟩),
    (always 1, .call .startQueuedTask), (always 1, .stateCmd .stop),
    (always 2, .startTask true ⟨1000, by decide⟩)]

instance (s : Job) (cmd : StateCmd) : Decidable (UnstopsIdle s cmd) := by
  unfold UnstopsIdle
  infer_instance

instance (s : Job) (op : Environment × Op) : Decidable (UnstopsIdly s op) := by
  unfold UnstopsIdly
  split <;> infer_instance

theorem untilStopping_runs : (runAll (nextIf UnstopsIdly attempt) oneTask untilStopping).any (fun s =>
    s.state = .stopping ∧ s.runningTasks.length = 1 ∧ s.taskQueue.queue.length = 1) = true := by
  decide +kernel

/-- A stopping job with one task and one in its queue. -/
theorem stopping_tellsTasks : ∃ s, s.state = .stopping ∧ s.runningTasks.length = 1 ∧
    s.taskQueue.queue.length = 1 ∧ StateTellsTasks s := by
  obtain ⟨s, hrun, hs⟩ := (Option.any_eq_true _ _).mp untilStopping_runs
  obtain ⟨hst, hrunning, hqueue⟩ := of_decide_eq_true hs
  have hreach := Reach.runAll (fun _ _ _ h => nextIf_step attempt_step h)
    (Reach.start initial_oneTask) hrun
  exact ⟨s, hst, hrunning, hqueue, stateTellsTasks_over_runs hreach⟩

theorem unstopped_runs : (runAll attempt oneTask
    (untilStopping ++ [(always 3, .stateCmd .unstop)])).any (fun s =>
      s.minTasks ≤ s.maxTasks ∧ s.maxTasks = 1 ∧ s.runningTasks.length = 2) = true := by
  decide +kernel

/-- Unstopped while its task is still running, the job starts the queued task
    too: two tasks run, and `_max_tasks` is 1. -/
theorem unstop_exceeds_maxTasks : ∃ s, Reachable s ∧ s.minTasks ≤ s.maxTasks ∧
    s.runningTasks.length = 2 ∧ ¬StateTellsTasks s := by
  obtain ⟨s, hrun, hs⟩ := (Option.any_eq_true _ _).mp unstopped_runs
  obtain ⟨hmin, hmax, hrunning⟩ := of_decide_eq_true hs
  have hreach := Reach.runAll attempt_step (Reach.start initial_oneTask) hrun
  refine ⟨s, hreach, hmin, hrunning, ?_⟩
  rintro ⟨hsize, -⟩
  omega

end JobMaxTasks
