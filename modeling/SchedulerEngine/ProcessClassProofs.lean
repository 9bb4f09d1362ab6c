import SchedulerEngine.RunInvariantProofs
import Mathlib.Data.List.Nodup
import Mathlib.Logic.Function.Basic

/-! # Waiting for a process

    A process class with the jobs and the tasks that want its processes.  When a
    process gets free, one requestor is notified: the first task that waits, or
    else the head of the list.  When a requestor leaves the list, the next one is
    notified only if the head has changed: a task that leaves from behind the head
    leaves the others asleep beside a free process. -/

set_option linter.unusedSectionVars false

namespace ProcessClass

open RunInvariant

variable {J T : Type} [DecidableEq J] [DecidableEq T]

/-- `Process_class_requestor`. -/
inductive Requestor (J T : Type) where
  | job (j : J)
  | task (t : T)
deriving DecidableEq

namespace Requestor

/-- `dynamic_cast<Task*>(requestor)`. -/
def isTask : Requestor J T → Bool
  | .job _ => false
  | .task _ => true

end Requestor

/-- The states of a task, as far as its process class goes. -/
inductive TaskState where
  | loading
  | waitingForProcess
  /-- From `s_starting` on, until the task is closed. -/
  | underway
  | closed
deriving DecidableEq

/-- An active process class, and its jobs and tasks. -/
structure World (J T : Type) where
  /-- `_process_set`.  A process is named by the task that has selected it. -/
  processSet : List T
  maxProcesses : Nat
  requestorList : List (Requestor J T)
  /-- `_waiting_for_process` of the jobs. -/
  waitingForProcess : J → Bool
  /-- `_waiting_for_process_try_again` of the jobs. -/
  tryAgain : J → Bool
  state : T → TaskState
  /-- `_end` of the tasks; a nice end does not count for a task that has an order
      and has not made a step. -/
  isEnding : T → Bool
  /-- The calls of `notify_a_process_is_available` that are registered and not yet
      executed. -/
  calls : Requestor J T → Bool
  /-- Who has been notified since the last moment at which no process was free.
      The code does not know it. -/
  notified : Requestor J T → Bool

/-! ## The process class -/

/-- The first task of the list, or else its head. -/
def next (l : List (Requestor J T)) : Option (Requestor J T) :=
  (l.find? Requestor.isTask).or l.head?

namespace World

/-- No process is free. -/
def isFull (w : World J T) : Bool := w.maxProcesses ≤ w.processSet.length

/-- `process_available`. -/
def processAvailable (j : J) (w : World J T) : Bool :=
  !w.isFull && (w.requestorList.isEmpty || w.requestorList.head? = some (.job j))

/-- `waiting_requestor_or_null`. -/
def waitingRequestor (w : World J T) : Option (Requestor J T) := next w.requestorList

/-- `notify_a_process_is_available`. -/
def notify (r : Requestor J T) (w : World J T) : World J T :=
  { w with
    calls := Function.update w.calls r true
    notified := fun r' => w.notified r' || (r' = r && !w.isFull)
    tryAgain := fun j => w.tryAgain j || Requestor.job j = r }

/-- `check_then_notify_a_process_is_available`. -/
def checkThenNotify (w : World J T) : World J T :=
  w.waitingRequestor.elim w w.notify

/-- `enqueue_requestor`. -/
def enqueueRequestor (r : Requestor J T) (w : World J T) : World J T :=
  { w with requestorList := w.requestorList ++ [r] }

/-- `remove_requestor`. -/
def removeRequestor (r : Requestor J T) (w : World J T) : World J T :=
  let l := w.requestorList.filter (· ≠ r)
  let w' := { w with requestorList := l }
  if !l.isEmpty && w.requestorList.head? ≠ l.head? then w'.checkThenNotify else w'

/-- Forget who has been notified, if no process is free. -/
def forget (w : World J T) : World J T :=
  { w with notified := fun r => w.notified r && !w.isFull }

/-- `select_process_if_available`, and `add_process`. -/
def selectProcess (t : T) (w : World J T) : World J T :=
  if w.isFull then w else forget { w with processSet := t :: w.processSet }

/-- `set_max_processes`. -/
def setMaxProcesses (n : Nat) (w : World J T) : World J T :=
  (forget { w with maxProcesses := n }).checkThenNotify

/-- `remove_process`. -/
def removeProcess (t : T) (w : World J T) : World J T :=
  checkThenNotify { w with processSet := w.processSet.erase t }

/-! ## Jobs -/

/-- `remove_waiting_job_from_process_list`. -/
def removeWaitingJob (j : J) (w : World J T) : World J T :=
  let w := if w.waitingForProcess j then
      removeRequestor (.job j)
        { w with waitingForProcess := Function.update w.waitingForProcess j false }
    else w
  { w with tryAgain := Function.update w.tryAgain j false }

end World

/-- What a job finds when it tries to start a task. -/
structure Attempt where
  /-- The state of the job and of the scheduler admits a new task. -/
  mayStart : Bool
  /-- There is a cause or an order, and the locks are available. -/
  wanted : Bool
  /-- The cause is `cause_min_tasks`. -/
  minTasks : Bool

namespace World

/-- The process is asked for in `task_to_start`. -/
def checkProcess (j : J) (a : Attempt) (w : World J T) : World J T :=
  if !a.wanted then w
  else if w.processAvailable j then w.removeWaitingJob j
  else if !a.minTasks && (!w.waitingForProcess j || w.tryAgain j) then
    let w := if w.waitingForProcess j then w else
      enqueueRequestor (.job j)
        { w with waitingForProcess := Function.update w.waitingForProcess j true }
    { w with tryAgain := Function.update w.tryAgain j false }
  else w

/-- `task_to_start` at its end: does the job still wait, although it need not? -/
def stopWaiting (j : J) (w : World J T) : World J T :=
  if w.waitingForProcess j && w.processAvailable j then w.removeWaitingJob j else w

/-- `try_start_one_task`.  The task that it starts goes its own way. -/
def tryStartOneTask (j : J) (a : Attempt) (w : World J T) : World J T :=
  if a.mayStart && (!w.waitingForProcess j || w.tryAgain j) then
    (w.checkProcess j a).stopWaiting j
  else w

/-- `set_state`, with another state. -/
def setState (j : J) (w : World J T) : World J T :=
  if w.waitingForProcess j then w.removeWaitingJob j else w

/-! ## Tasks -/

def setTaskState (t : T) (state : TaskState) (w : World J T) : World J T :=
  { w with state := Function.update w.state t state }

/-- The task detaches its process, finishes and closes. -/
def closeTask (t : T) (w : World J T) : World J T :=
  let w := if t ∈ w.processSet then w.removeProcess t else w
  (w.removeRequestor (.task t)).setTaskState t .closed

/-- `s_waiting_for_process`, after `try_to_get_process`.  A process on an agent has
    to be `answered`. -/
def startOrWait (t : T) (answered : Bool) (w : World J T) : World J T :=
  let w :=
    if t ∈ w.processSet ∧ answered = true then
      (w.removeRequestor (.task t)).setTaskState t .underway
    else if w.state t ≠ .waitingForProcess then
      (if t ∈ w.processSet then w else w.enqueueRequestor (.task t)).setTaskState t
        .waitingForProcess
    else w
  if t ∈ w.processSet then w.removeRequestor (.task t) else w

/-- `s_waiting_for_process`. -/
def tryToGetProcess (t : T) (answered : Bool) (w : World J T) : World J T :=
  (if t ∈ w.processSet then w else w.selectProcess t).startOrWait t answered

/-- `Task::do_something`, until the task has its process.  Without a process all
    the operations of its end are synchronous. -/
def doSomething (t : T) (loads answered : Bool) (w : World J T) : World J T :=
  match w.state t with
  | .loading =>
      if w.isEnding t || !loads then w.closeTask t else w.tryToGetProcess t answered
  | .waitingForProcess =>
      if w.isEnding t then
        if t ∈ w.processSet then w.setTaskState t .underway else w.closeTask t
      else w.tryToGetProcess t answered
  | _ => w

end World

/-! ## Runs -/

inductive Op (J T : Type) where
  | tryStartOneTask (j : J) (a : Attempt)
  /-- The call that `Standard_job::notify_a_process_is_available` has registered. -/
  | processAvailableCall (j : J) (a : Attempt)
  | setState (j : J)
  | doSomething (t : T) (loads answered : Bool)
  /-- The call that `Task::notify_a_process_is_available` has registered. -/
  | processClassAvailableCall (t : T) (loads answered : Bool)
  /-- `cmd_end`, or an error. -/
  | cmdEnd (t : T)
  /-- A task that has got its process comes to its end. -/
  | finish (t : T)
  | setMaxProcesses (n : Nat)

/-- A registered call is executed. -/
def World.called (r : Requestor J T) (w : World J T) : World J T :=
  { w with calls := Function.update w.calls r false }

def perform : Op J T → World J T → World J T
  | .tryStartOneTask j a, w => w.tryStartOneTask j a
  | .processAvailableCall j a, w => (w.called (.job j)).tryStartOneTask j a
  | .setState j, w => w.setState j
  | .doSomething t loads answered, w => w.doSomething t loads answered
  | .processClassAvailableCall t loads answered, w =>
      (w.called (.task t)).doSomething t loads answered
  | .cmdEnd t, w => { w with isEnding := Function.update w.isEnding t true }
  | .finish t, w => if w.state t = .underway then w.closeTask t else w
  | .setMaxProcesses n, w => w.setMaxProcesses n

/-- `max_processes` is not lowered. -/
def Allowed (w : World J T) : Op J T → Prop
  | .setMaxProcesses n => w.maxProcesses ≤ n
  | _ => True

def Step (w : World J T) (op : Op J T) (w' : World J T) : Prop :=
  Allowed w op ∧ w' = perform op w

/-- Nobody has asked for a process yet. -/
structure Initial (w : World J T) : Prop where
  processSet : w.processSet = []
  requestorList : w.requestorList = []
  waitingForProcess : ∀ j, w.waitingForProcess j = false
  state : ∀ t, w.state t = .loading
  notified : ∀ r, w.notified r = false

/-! ## What is claimed, and when it holds -/

/-- The requestor of the list still wants a process. -/
def Wants (w : World J T) : Requestor J T → Prop
  | .job j => w.processAvailable j = true
  | .task t => w.isEnding t = false

/-- The waiters are not forgotten. -/
structure Remembered (w : World J T) : Prop where
  bounded : w.processSet.length ≤ w.maxProcesses
  notified : (∀ r, w.calls r = false) → w.processSet.length < w.maxProcesses →
    ∀ r ∈ w.requestorList, Wants w r → w.notified r = true

/-- In its step the first task of the list takes a process, or ends without one,
    while it is not the head; a process stays free; and who comes next has not been
    notified. -/
def LeavesBehindHead (w : World J T) (t : T) : Prop :=
  w.waitingRequestor = some (.task t) ∧ w.requestorList.head? ≠ some (.task t) ∧
    w.processSet.length + (if w.isEnding t then 0 else 1) < w.maxProcesses ∧
    ∃ r, next (w.requestorList.filter (· ≠ .task t)) = some r ∧ w.notified r = false

/-- The steps in which somebody is forgotten. -/
def Forgets (w : World J T) : Op J T → Prop
  | .doSomething t _ _ => LeavesBehindHead w t
  | .processClassAvailableCall t _ _ => LeavesBehindHead w t
  | _ => False

/-! ## Who comes next -/

variable {w : World J T} {l : List (Requestor J T)} {r r' : Requestor J T} {j : J} {t : T}

theorem next_eq_none : next l = none ↔ l = [] := by
  rw [next, Option.or_eq_none_iff, List.head?_eq_none_iff]
  constructor
  · exact fun h => h.2
  · intro h
    rw [h]
    exact ⟨rfl, rfl⟩

theorem mem_of_next (h : next l = some r) : r ∈ l := by
  rw [next, Option.or_eq_some_iff] at h
  rcases h with h | ⟨-, h⟩
  · exact List.mem_of_find?_eq_some h
  · exact List.mem_of_head? h

/-- If a job comes next then it is the head, and no task waits. -/
theorem next_job (h : next l = some (.job j)) :
    l.head? = some (.job j) ∧ ∀ t, Requestor.task t ∉ l := by
  rw [next, Option.or_eq_some_iff] at h
  rcases h with h | ⟨hnone, h⟩
  · have := List.find?_some h
    cases this
  · refine ⟨h, fun t ht => ?_⟩
    have := List.find?_eq_none.mp hnone _ ht
    exact this rfl

/-- A job at the end of the list changes nothing for those before it. -/
theorem next_append_job (hl : l ≠ []) : next (l ++ [.job j]) = next l := by
  rw [next, next, List.find?_append, List.head?_append_of_ne_nil _ hl]
  have : List.find? Requestor.isTask [(Requestor.job j : Requestor J T)] = none := rfl
  rw [this, Option.or_none]

/-- Who is not next leaves without a change for the one that is, unless it was the
    head. -/
theorem next_filter (hr : next l ≠ some r) (hhead : l.head? ≠ some r) :
    next (l.filter (· ≠ r)) = next l := by
  have hkeep : ∀ {a : Requestor J T} (l : List (Requestor J T)), a ≠ r →
      (a :: l).filter (· ≠ r) = a :: l.filter (· ≠ r) :=
    fun l h => List.filter_cons_of_pos (by simpa using h)
  cases hf : l.find? Requestor.isTask with
  | none =>
      have hf' : (l.filter (· ≠ r)).find? Requestor.isTask = none :=
        List.find?_eq_none.mpr fun a ha =>
          List.find?_eq_none.mp hf a (List.mem_of_mem_filter ha)
      rw [next, next, hf, hf', Option.none_or, Option.none_or]
      cases l with
      | nil => rfl
      | cons a l =>
          have ha : a ≠ r := fun h => hhead (by rw [h]; rfl)
          rw [hkeep l ha]
          rfl
  | some a =>
      have hnext : next l = some a := by rw [next, hf, Option.some_or]
      have ha : a ≠ r := fun h => hr (by rw [hnext, h])
      have hf' : (l.filter (· ≠ r)).find? Requestor.isTask = some a := by
        obtain ⟨htask, l₁, l₂, hl, hbefore⟩ := List.find?_eq_some_iff_append.mp hf
        rw [List.find?_eq_some_iff_append]
        refine ⟨htask, l₁.filter (· ≠ r), l₂.filter (· ≠ r), ?_, fun b hb =>
          hbefore b (List.mem_of_mem_filter hb)⟩
        rw [hl, List.filter_append, hkeep l₂ ha]
      rw [hnext, next, hf', Option.some_or]

/-! ## The invariant -/

/-- The list is in step with the jobs and the tasks; `x` is a task that acts just
    now. -/
structure InStep (x : Option T) (w : World J T) : Prop where
  nodup : w.requestorList.Nodup
  jobs : ∀ j, .job j ∈ w.requestorList ↔ w.waitingForProcess j = true
  tasks : ∀ t, some t ≠ x → (.task t ∈ w.requestorList ↔
    w.state t = .waitingForProcess ∧ t ∉ w.processSet)
  processes : ∀ t ∈ w.processSet, some t ≠ x →
    w.state t = .waitingForProcess ∨ w.state t = .underway
  single : w.processSet.Nodup
  bounded : w.processSet.length ≤ w.maxProcesses

/-- The next one has been notified, and a task that has been notified will act. -/
structure Heard (x : Option T) (w : World J T) : Prop where
  full : w.isFull = true → ∀ r, w.notified r = false
  next : w.isFull = false → ∀ r, w.waitingRequestor = some r → w.notified r = true
  task : ∀ t, some t ≠ x → w.notified (.task t) = true → .task t ∈ w.requestorList →
    w.calls (.task t) = true

structure Inv (x : Option T) (w : World J T) : Prop where
  inStep : InStep x w
  heard : Heard x w

theorem some_ne_none {α : Type} (a : α) : some a ≠ none := fun h => by cases h

/-- What holds of all the tasks holds of all but one. -/
theorem Inv.weaken (h : Inv none w) (x : Option T) : Inv x w :=
  ⟨⟨h.inStep.nodup, h.inStep.jobs, fun t _ => h.inStep.tasks t (some_ne_none t),
      fun t ht _ => h.inStep.processes t ht (some_ne_none t), h.inStep.single, h.inStep.bounded⟩,
    ⟨h.heard.full, h.heard.next, fun t _ => h.heard.task t (some_ne_none t)⟩⟩

/-! ## Notification -/

section Fields

variable (w : World J T) (r : Requestor J T)

@[simp] theorem checkThenNotify_requestorList :
    w.checkThenNotify.requestorList = w.requestorList := by
  rw [World.checkThenNotify]
  cases w.waitingRequestor <;> rfl

@[simp] theorem checkThenNotify_processSet : w.checkThenNotify.processSet = w.processSet := by
  rw [World.checkThenNotify]
  cases w.waitingRequestor <;> rfl

@[simp] theorem checkThenNotify_maxProcesses :
    w.checkThenNotify.maxProcesses = w.maxProcesses := by
  rw [World.checkThenNotify]
  cases w.waitingRequestor <;> rfl

@[simp] theorem checkThenNotify_waitingForProcess :
    w.checkThenNotify.waitingForProcess = w.waitingForProcess := by
  rw [World.checkThenNotify]
  cases w.waitingRequestor <;> rfl

@[simp] theorem checkThenNotify_state : w.checkThenNotify.state = w.state := by
  rw [World.checkThenNotify]
  cases w.waitingRequestor <;> rfl

@[simp] theorem checkThenNotify_isFull : w.checkThenNotify.isFull = w.isFull := by
  rw [World.isFull, World.isFull, checkThenNotify_maxProcesses, checkThenNotify_processSet]

@[simp] theorem removeRequestor_requestorList :
    (w.removeRequestor r).requestorList = w.requestorList.filter (· ≠ r) := by
  simp only [World.removeRequestor]
  split
  · exact checkThenNotify_requestorList _
  · rfl

@[simp] theorem removeRequestor_processSet :
    (w.removeRequestor r).processSet = w.processSet := by
  simp only [World.removeRequestor]
  split
  · exact checkThenNotify_processSet _
  · rfl

@[simp] theorem removeRequestor_maxProcesses :
    (w.removeRequestor r).maxProcesses = w.maxProcesses := by
  simp only [World.removeRequestor]
  split
  · exact checkThenNotify_maxProcesses _
  · rfl

@[simp] theorem removeRequestor_waitingForProcess :
    (w.removeRequestor r).waitingForProcess = w.waitingForProcess := by
  simp only [World.removeRequestor]
  split
  · exact checkThenNotify_waitingForProcess _
  · rfl

@[simp] theorem removeRequestor_state : (w.removeRequestor r).state = w.state := by
  simp only [World.removeRequestor]
  split
  · exact checkThenNotify_state _
  · rfl

end Fields

/-- The notification makes good that somebody comes next. -/
theorem heard_checkThenNotify {x : Option T} (hfull : w.isFull = true → ∀ r, w.notified r = false)
    (htask : ∀ t, some t ≠ x → w.notified (.task t) = true → .task t ∈ w.requestorList →
      w.calls (.task t) = true) : Heard x w.checkThenNotify := by
  rw [World.checkThenNotify]
  cases hn : w.waitingRequestor with
  | none =>
      refine ⟨hfull, fun _ r h => ?_, htask⟩
      have h : w.waitingRequestor = some r := h
      rw [hn] at h
      cases h
  | some r₀ =>
      refine ⟨fun hf r => ?_, fun hf r hr => ?_, fun t ht hnot hmem => ?_⟩
      · show (w.notified r || (r = r₀ && !w.isFull)) = false
        have : w.isFull = true := hf
        rw [hfull this r, this]
        simp
      · show (w.notified r || (r = r₀ && !w.isFull)) = true
        have hf : w.isFull = false := hf
        have hr : w.waitingRequestor = some r := hr
        rw [hn] at hr
        rw [Option.some.inj hr, hf]
        simp
      · show Function.update w.calls r₀ true (.task t) = true
        by_cases h : Requestor.task t = r₀
        · rw [h, Function.update_self]
        · rw [Function.update_of_ne h]
          have hnot : (w.notified (.task t) || (Requestor.task t = r₀ && !w.isFull)) = true := hnot
          rw [decide_eq_false h, Bool.false_and, Bool.or_false] at hnot
          exact htask t ht hnot hmem

/-- A requestor leaves the list. -/
theorem Heard.removeRequestor {x : Option T} (h : Heard x w)
    (hleave : w.isFull = false → w.waitingRequestor = some r → w.requestorList.head? ≠ some r →
      ∀ r', ProcessClass.next (w.requestorList.filter (· ≠ r)) = some r' → w.notified r' = true) :
    Heard x (w.removeRequestor r) := by
  have htask : ∀ t, some t ≠ x → w.notified (.task t) = true →
      .task t ∈ w.requestorList.filter (· ≠ r) → w.calls (.task t) = true := by
    intro t ht hnot hmem
    exact h.task t ht hnot (List.mem_of_mem_filter hmem)
  simp only [World.removeRequestor]
  split
  · exact heard_checkThenNotify h.full htask
  · rename_i hcond
    refine ⟨h.full, fun hf r' hr' => ?_, htask⟩
    have hf : w.isFull = false := hf
    have hr' : ProcessClass.next (w.requestorList.filter (· ≠ r)) = some r' := hr'
    -- the head has not changed
    have hhead : w.requestorList.head? = (w.requestorList.filter (· ≠ r)).head? := by
      by_contra hne
      refine hcond ?_
      rw [Bool.and_eq_true, decide_eq_true_iff, Bool.not_eq_true', List.isEmpty_eq_false_iff]
      refine ⟨fun he => ?_, hne⟩
      rw [he] at hr'
      cases hr'
    have hnot : w.requestorList.head? ≠ some r := by
      intro hsome
      rw [hhead] at hsome
      have := (List.mem_filter.mp (List.mem_of_head? hsome)).2
      exact of_decide_eq_true this rfl
    by_cases hnext : w.waitingRequestor = some r
    · exact hleave hf hnext hnot r' hr'
    · rw [next_filter hnext hnot] at hr'
      exact h.next hf r' hr'

/-! ## Jobs -/

theorem mem_without {l : List (Requestor J T)} :
    r' ∈ l.filter (· ≠ r) ↔ r' ∈ l ∧ r' ≠ r := by
  rw [List.mem_filter, decide_eq_true_iff]

/-- A job that leaves is the head, or it is not next. -/
theorem Heard.removeJob {x : Option T} (h : Heard x w) (j : J) :
    Heard x (w.removeRequestor (.job j)) :=
  h.removeRequestor fun _ hnext hhead => absurd (next_job hnext).1 hhead

theorem inv_removeWaitingJob (h : Inv none w) (j : J) : Inv none (w.removeWaitingJob j) := by
  rw [World.removeWaitingJob]
  by_cases hw : w.waitingForProcess j = true
  · rw [if_pos hw]
    have hheard : Heard none { w with
        waitingForProcess := Function.update w.waitingForProcess j false } :=
      ⟨h.heard.full, h.heard.next, h.heard.task⟩
    have hheard := hheard.removeJob j
    refine ⟨⟨?_, fun j' => ?_, fun t ht => ?_, fun t hm ht => ?_, ?_, ?_⟩,
      ⟨hheard.full, hheard.next, hheard.task⟩⟩
    · simp only [removeRequestor_requestorList]
      exact h.inStep.nodup.filter _
    · simp only [removeRequestor_requestorList, removeRequestor_waitingForProcess]
      rw [mem_without, h.inStep.jobs]
      by_cases hj : j' = j
      · rw [hj, Function.update_self]
        constructor
        · exact fun hm => absurd rfl hm.2
        · intro hm
          cases hm
      · rw [Function.update_of_ne hj]
        exact ⟨fun hm => hm.1, fun hm => ⟨hm, fun he => hj (Requestor.job.inj he)⟩⟩
    · simp only [removeRequestor_requestorList, removeRequestor_processSet, removeRequestor_state]
      rw [mem_without, ← h.inStep.tasks t ht]
      exact ⟨fun hm => hm.1, fun hm => ⟨hm, fun he => by cases he⟩⟩
    · simp only [removeRequestor_processSet] at hm
      simp only [removeRequestor_state]
      exact h.inStep.processes t hm ht
    · simp only [removeRequestor_processSet]
      exact h.inStep.single
    · simp only [removeRequestor_processSet, removeRequestor_maxProcesses]
      exact h.inStep.bounded
  · rw [if_neg hw]
    exact ⟨⟨h.inStep.nodup, h.inStep.jobs, h.inStep.tasks, h.inStep.processes, h.inStep.single, h.inStep.bounded⟩,
      ⟨h.heard.full, h.heard.next, h.heard.task⟩⟩

/-- Enqueueing a job that finds no process. -/
theorem inv_enqueueJob (h : Inv none w) (hav : w.processAvailable j = false)
    (hw : w.waitingForProcess j = false) :
    Inv none (World.enqueueRequestor (.job j)
      { w with waitingForProcess := Function.update w.waitingForProcess j true }) := by
  have hnot : Requestor.job j ∉ w.requestorList := by
    intro hm
    rw [h.inStep.jobs, hw] at hm
    cases hm
  refine ⟨⟨?_, fun j' => ?_, fun t ht => ?_, h.inStep.processes, h.inStep.single, h.inStep.bounded⟩,
    ⟨h.heard.full, fun hf r hr => ?_, fun t ht hn hm => ?_⟩⟩
  · show (w.requestorList ++ [Requestor.job j]).Nodup
    rw [List.nodup_append]
    refine ⟨h.inStep.nodup, List.nodup_singleton _, fun a ha b hb hab => ?_⟩
    rw [List.mem_singleton] at hb
    exact hnot (by rw [← hb, ← hab]; exact ha)
  · show Requestor.job j' ∈ w.requestorList ++ [.job j] ↔
      Function.update w.waitingForProcess j true j' = true
    rw [List.mem_append, List.mem_singleton, h.inStep.jobs]
    by_cases hj : j' = j
    · rw [hj, Function.update_self]
      exact ⟨fun _ => rfl, fun _ => Or.inr rfl⟩
    · rw [Function.update_of_ne hj]
      exact ⟨fun hm => hm.resolve_right fun he => hj (Requestor.job.inj he), Or.inl⟩
  · show Requestor.task t ∈ w.requestorList ++ [.job j] ↔ _
    rw [List.mem_append, List.mem_singleton, h.inStep.tasks t ht]
    exact ⟨fun hm => hm.resolve_right (fun he => by cases he), Or.inl⟩
  · -- some other requestor is there, and stays before the job
    have hf : w.isFull = false := hf
    have hl : w.requestorList ≠ [] := by
      intro hl
      rw [World.processAvailable, hf, hl] at hav
      cases hav
    have hr : next (w.requestorList ++ [.job j]) = some r := hr
    rw [next_append_job hl] at hr
    exact h.heard.next hf r hr
  · have hm : Requestor.task t ∈ w.requestorList ++ [.job j] := hm
    rw [List.mem_append, List.mem_singleton] at hm
    exact h.heard.task t ht hn (hm.resolve_right (fun he => by cases he))

theorem inv_tryStartOneTask (h : Inv none w) (j : J) (a : Attempt) :
    Inv none (w.tryStartOneTask j a) := by
  rw [World.tryStartOneTask]
  split
  · have hcheck : Inv none (w.checkProcess j a) := by
      rw [World.checkProcess]
      by_cases hwanted : (!a.wanted) = true
      · rw [if_pos hwanted]
        exact h
      rw [if_neg hwanted]
      by_cases hav : w.processAvailable j = true
      · rw [if_pos hav]
        exact inv_removeWaitingJob h j
      rw [if_neg hav]
      split
      · have henq : Inv none (if w.waitingForProcess j = true then w else
            World.enqueueRequestor (.job j)
              { w with waitingForProcess := Function.update w.waitingForProcess j true }) := by
          by_cases hw : w.waitingForProcess j = true
          · rw [if_pos hw]
            exact h
          · rw [if_neg hw]
            exact inv_enqueueJob h (Bool.eq_false_iff.mpr hav) (Bool.eq_false_iff.mpr hw)
        exact ⟨⟨henq.inStep.nodup, henq.inStep.jobs, henq.inStep.tasks, henq.inStep.processes,
          henq.inStep.single, henq.inStep.bounded⟩, ⟨henq.heard.full, henq.heard.next, henq.heard.task⟩⟩
      · exact h
    rw [World.stopWaiting]
    split
    · exact inv_removeWaitingJob hcheck j
    · exact hcheck
  · exact h

/-! ## Tasks -/

/-- A task that acts leaves the list. -/
theorem Inv.removeTask (h : Inv (some t) w)
    (hleave : w.isFull = false → w.waitingRequestor = some (.task t) →
      w.requestorList.head? ≠ some (.task t) →
      ∀ r', next (w.requestorList.filter (· ≠ .task t)) = some r' → w.notified r' = true) :
    Inv (some t) (w.removeRequestor (.task t)) := by
  refine ⟨⟨?_, fun j => ?_, fun t' ht => ?_, fun t' hm ht => ?_, ?_, ?_⟩,
    h.heard.removeRequestor hleave⟩
  · simp only [removeRequestor_requestorList]
    exact h.inStep.nodup.filter _
  · simp only [removeRequestor_requestorList, removeRequestor_waitingForProcess]
    rw [mem_without, ← h.inStep.jobs]
    exact ⟨fun hm => hm.1, fun hm => ⟨hm, fun he => by cases he⟩⟩
  · simp only [removeRequestor_requestorList, removeRequestor_processSet, removeRequestor_state]
    rw [mem_without, ← h.inStep.tasks t' ht]
    exact ⟨fun hm => hm.1, fun hm => ⟨hm, fun he => ht (congrArg some (Requestor.task.inj he))⟩⟩
  · simp only [removeRequestor_processSet] at hm
    simp only [removeRequestor_state]
    exact h.inStep.processes t' hm ht
  · simp only [removeRequestor_processSet]
    exact h.inStep.single
  · simp only [removeRequestor_processSet, removeRequestor_maxProcesses]
    exact h.inStep.bounded

/-- Who is not in the list does not come next. -/
theorem leave_of_not_mem {p : Prop} (hm : r ∉ w.requestorList)
    (hnext : w.waitingRequestor = some r) : p :=
  absurd (mem_of_next hnext) hm

/-- The task that has acted is out of the list. -/
theorem Inv.seal (h : Inv (some t) w) (hm : .task t ∉ w.requestorList)
    (hstate : w.state t = .waitingForProcess → t ∈ w.processSet)
    (hprocess : t ∈ w.processSet → w.state t = .waitingForProcess ∨ w.state t = .underway) :
    Inv none w := by
  have hne : ∀ {t' : T}, t' ≠ t → some t' ≠ some t := fun hne he => hne (Option.some.inj he)
  refine ⟨⟨h.inStep.nodup, h.inStep.jobs, fun t' _ => ?_, fun t' ht' _ => ?_, h.inStep.single, h.inStep.bounded⟩,
    ⟨h.heard.full, h.heard.next, fun t' _ hn hm' => ?_⟩⟩
  · by_cases ht : t' = t
    · rw [ht]
      exact ⟨fun hmem => absurd hmem hm, fun hs => absurd (hstate hs.1) hs.2⟩
    · exact h.inStep.tasks t' (hne ht)
  · by_cases ht : t' = t
    · rw [ht] at ht' ⊢
      exact hprocess ht'
    · exact h.inStep.processes t' ht' (hne ht)
  · by_cases ht : t' = t
    · rw [ht] at hm'
      exact absurd hm' hm
    · exact h.heard.task t' (hne ht) hn hm'

/-- The task that has acted stays in the list, since no process is free. -/
theorem Inv.seal_full (h : Inv (some t) w) (hf : w.isFull = true) (ht : t ∉ w.processSet)
    (hm : .task t ∈ w.requestorList ↔ w.state t = .waitingForProcess) : Inv none w := by
  have hne : ∀ {t' : T}, t' ≠ t → some t' ≠ some t := fun hne he => hne (Option.some.inj he)
  refine ⟨⟨h.inStep.nodup, h.inStep.jobs, fun t' _ => ?_, fun t' ht' _ => ?_, h.inStep.single, h.inStep.bounded⟩,
    ⟨h.heard.full, h.heard.next, fun t' _ hn _ => ?_⟩⟩
  · by_cases he : t' = t
    · rw [he, hm]
      exact ⟨fun hs => ⟨hs, ht⟩, fun hs => hs.1⟩
    · exact h.inStep.tasks t' (hne he)
  · refine h.inStep.processes t' ht' (hne fun he => ht ?_)
    rw [← he]
    exact ht'
  · rw [h.heard.full hf] at hn
    cases hn

theorem Inv.setTaskState (h : Inv (some t) w) (state : TaskState) :
    Inv (some t) (w.setTaskState t state) := by
  have hs : ∀ {t' : T}, some t' ≠ some t → Function.update w.state t state t' = w.state t' :=
    fun hne => Function.update_of_ne (fun he => hne (congrArg some he)) _ _
  refine ⟨⟨h.inStep.nodup, h.inStep.jobs, fun t' ht => ?_, fun t' hm ht => ?_, h.inStep.single, h.inStep.bounded⟩,
    ⟨h.heard.full, h.heard.next, h.heard.task⟩⟩
  · show Requestor.task t' ∈ w.requestorList ↔ Function.update w.state t state t' = _ ∧ _
    rw [hs ht]
    exact h.inStep.tasks t' ht
  · show Function.update w.state t state t' = _ ∨ Function.update w.state t state t' = _
    rw [hs ht]
    exact h.inStep.processes t' hm ht

theorem selectProcess_of_free (hf : w.isFull = false) :
    w.selectProcess t = World.forget { w with processSet := t :: w.processSet } := by
  rw [World.selectProcess, hf, if_neg Bool.false_ne_true]

/-- A free process is taken. -/
theorem Inv.selectProcess (h : Inv (some t) w) (hf : w.isFull = false)
    (hnew : t ∉ w.processSet) :
    Inv (some t) (w.selectProcess t) := by
  rw [selectProcess_of_free hf]
  have hlen : w.processSet.length < w.maxProcesses := by
    rw [World.isFull, decide_eq_false_iff_not] at hf
    exact Nat.lt_of_not_le hf
  refine ⟨⟨h.inStep.nodup, h.inStep.jobs, fun t' ht => ?_, fun t' hm ht => ?_,
      List.nodup_cons.mpr ⟨hnew, h.inStep.single⟩, hlen⟩,
    ⟨fun hf' r => ?_, fun hf' r hr => ?_, fun t' ht hn => ?_⟩⟩
  · show Requestor.task t' ∈ w.requestorList ↔ _ ∧ t' ∉ t :: w.processSet
    rw [h.inStep.tasks t' ht, List.mem_cons, not_or]
    exact ⟨fun hs => ⟨hs.1, fun he => ht (congrArg some he), hs.2⟩, fun hs => ⟨hs.1, hs.2.2⟩⟩
  · have hm : t' ∈ t :: w.processSet := hm
    refine h.inStep.processes t' ((List.mem_cons.mp hm).resolve_left fun he => ?_) ht
    exact ht (congrArg some he)
  · show (w.notified r && !_) = false
    have hf' : World.isFull { w with processSet := t :: w.processSet } = true := hf'
    rw [hf', Bool.not_true, Bool.and_false]
  · show (w.notified r && !_) = true
    have hf' : World.isFull { w with processSet := t :: w.processSet } = false := hf'
    rw [hf', h.heard.next hf r hr]
    rfl
  · have hn : (w.notified (.task t') && !_) = true := hn
    rw [Bool.and_eq_true] at hn
    exact h.heard.task t' ht hn.1

/-- The task that has a process leaves the list. -/
theorem inv_startOrWait_got (h : Inv (some t) w) (ht : t ∈ w.processSet) (answered : Bool)
    (hleave : w.isFull = false → w.waitingRequestor = some (.task t) →
      w.requestorList.head? ≠ some (.task t) →
      ∀ r', next (w.requestorList.filter (· ≠ .task t)) = some r' → w.notified r' = true) :
    Inv none (w.startOrWait t answered) := by
  cases answered with
  | true =>
      have hgone : Requestor.task t ∉
          ((w.removeRequestor (.task t)).setTaskState t .underway).requestorList := by
        show _ ∉ (w.removeRequestor (.task t)).requestorList
        rw [removeRequestor_requestorList, mem_without]
        exact fun hm => hm.2 rfl
      have hset : t ∈ ((w.removeRequestor (.task t)).setTaskState t .underway).processSet := by
        show t ∈ (w.removeRequestor (.task t)).processSet
        rw [removeRequestor_processSet]
        exact ht
      simp only [World.startOrWait, ht, true_and, if_true, hset]
      -- the second time it is not there
      have h₁ := ((h.removeTask hleave).setTaskState .underway).removeTask
        fun _ hnext => leave_of_not_mem hgone hnext
      refine h₁.seal ?_ (fun _ => ?_) fun _ => Or.inr ?_
      · rw [removeRequestor_requestorList, mem_without]
        exact fun hm => hm.2 rfl
      · rw [removeRequestor_processSet]
        exact hset
      · rw [removeRequestor_state]
        exact Function.update_self ..
  | false =>
      have hset : (if w.state t ≠ .waitingForProcess then w.setTaskState t .waitingForProcess
          else w) = w.setTaskState t .waitingForProcess := by
        split
        · rfl
        · rename_i hs
          rw [World.setTaskState, ← not_not.mp hs, Function.update_eq_self]
      have ht' : t ∈ (w.setTaskState t .waitingForProcess).processSet := ht
      simp only [World.startOrWait, ht, true_and, Bool.false_eq_true, if_false, if_true, hset, ht']
      refine ((h.setTaskState .waitingForProcess).removeTask hleave).seal ?_ (fun _ => ?_)
        fun _ => Or.inl ?_
      · rw [removeRequestor_requestorList, mem_without]
        exact fun hm => hm.2 rfl
      · rw [removeRequestor_processSet]
        exact ht
      · rw [removeRequestor_state]
        exact Function.update_self ..

/-- Enqueueing a task that finds no process. -/
theorem Inv.enqueueTask (h : Inv (some t) w) (hf : w.isFull = true)
    (hm : .task t ∉ w.requestorList) : Inv (some t) (w.enqueueRequestor (.task t)) := by
  refine ⟨⟨?_, fun j => ?_, fun t' ht => ?_, h.inStep.processes, h.inStep.single, h.inStep.bounded⟩,
    ⟨h.heard.full, fun hf' => ?_, fun t' _ hn _ => ?_⟩⟩
  · show (w.requestorList ++ [Requestor.task t]).Nodup
    rw [List.nodup_append]
    refine ⟨h.inStep.nodup, List.nodup_singleton _, fun a ha b hb hab => ?_⟩
    rw [List.mem_singleton] at hb
    exact hm (by rw [← hb, ← hab]; exact ha)
  · show Requestor.job j ∈ w.requestorList ++ [.task t] ↔ _
    rw [List.mem_append, List.mem_singleton, h.inStep.jobs]
    exact ⟨fun hj => hj.resolve_right (fun he => by cases he), Or.inl⟩
  · show Requestor.task t' ∈ w.requestorList ++ [.task t] ↔ _
    rw [List.mem_append, List.mem_singleton, h.inStep.tasks t' ht]
    exact ⟨fun hs => hs.resolve_right fun he => ht (congrArg some (Requestor.task.inj he)), Or.inl⟩
  · have hf' : w.isFull = false := hf'
    rw [hf] at hf'
    cases hf'
  · have hn : w.notified (.task t') = true := hn
    rw [h.heard.full hf] at hn
    cases hn

theorem inv_startOrWait_full (h : Inv (some t) w) (hf : w.isFull = true) (ht : t ∉ w.processSet)
    (hlist : .task t ∈ w.requestorList ↔ w.state t = .waitingForProcess) (answered : Bool) :
    Inv none (w.startOrWait t answered) := by
  by_cases hs : w.state t = .waitingForProcess
  · simp only [World.startOrWait, ht, false_and, if_false, hs, ne_eq, not_true_eq_false]
    exact h.seal_full hf ht hlist
  · have ht' : t ∉ ((w.enqueueRequestor (.task t)).setTaskState t
        .waitingForProcess).processSet := ht
    simp only [World.startOrWait, ht, false_and, if_false, hs, ne_eq, not_false_eq_true, if_true,
      ht']
    refine ((h.enqueueTask hf fun hm => hs (hlist.mp hm)).setTaskState _).seal_full hf ht ?_
    refine ⟨fun _ => Function.update_self .., fun _ => ?_⟩
    exact List.mem_append_right _ (List.mem_singleton_self _)

theorem inv_tryToGetProcess (h : Inv (some t) w) (answered : Bool)
    (hlist : .task t ∈ w.requestorList ↔ w.state t = .waitingForProcess ∧ t ∉ w.processSet)
    (hend : w.isEnding t = false) (hgood : ¬LeavesBehindHead w t) :
    Inv none (w.tryToGetProcess t answered) := by
  rw [World.tryToGetProcess]
  by_cases ht : t ∈ w.processSet
  · rw [if_pos ht]
    have hout : Requestor.task t ∉ w.requestorList := fun hm => (hlist.mp hm).2 ht
    exact inv_startOrWait_got h ht answered fun _ hnext => leave_of_not_mem hout hnext
  rw [if_neg ht]
  cases hf : w.isFull with
  | true =>
      rw [World.selectProcess, if_pos hf]
      exact inv_startOrWait_full h hf ht (hlist.trans (and_iff_left ht)) answered
  | false =>
      refine inv_startOrWait_got (h.selectProcess hf ht) ?_ answered ?_
      · rw [selectProcess_of_free hf]
        exact List.mem_cons_self
      · rw [selectProcess_of_free hf]
        intro hf' hnext hhead r' hr'
        have hf' : World.isFull { w with processSet := t :: w.processSet } = false := hf'
        show (w.notified r' && !_) = true
        rw [hf', Bool.not_false, Bool.and_true]
        by_contra hn
        refine hgood ⟨hnext, hhead, ?_, r', hr', Bool.eq_false_iff.mpr hn⟩
        rw [hend, if_neg Bool.false_ne_true]
        rw [World.isFull, decide_eq_false_iff_not] at hf'
        exact Nat.lt_of_not_le hf'

/-- The process of the task that acts has ended. -/
theorem Inv.removeProcess (h : Inv (some t) w) : Inv (some t) (w.removeProcess t) := by
  rw [World.removeProcess]
  refine ⟨⟨?_, fun j => ?_, fun t' ht => ?_, fun t' hm ht => ?_, ?_, ?_⟩,
    heard_checkThenNotify (fun hf => h.heard.full ?_) h.heard.task⟩
  · rw [checkThenNotify_requestorList]
    exact h.inStep.nodup
  · rw [checkThenNotify_requestorList, checkThenNotify_waitingForProcess]
    exact h.inStep.jobs j
  · rw [checkThenNotify_requestorList, checkThenNotify_state, checkThenNotify_processSet]
    have hmem : t' ∈ w.processSet.erase t ↔ t' ∈ w.processSet :=
      List.mem_erase_of_ne fun he => ht (congrArg some he)
    show _ ↔ _ ∧ t' ∉ w.processSet.erase t
    rw [hmem]
    exact h.inStep.tasks t' ht
  · rw [checkThenNotify_processSet] at hm
    rw [checkThenNotify_state]
    exact h.inStep.processes t' (List.mem_of_mem_erase hm) ht
  · rw [checkThenNotify_processSet]
    exact h.inStep.single.erase t
  · rw [checkThenNotify_processSet, checkThenNotify_maxProcesses]
    exact Nat.le_trans List.length_erase_le h.inStep.bounded
  · have hf : decide (w.maxProcesses ≤ (w.processSet.erase t).length) = true := hf
    rw [decide_eq_true_iff] at hf
    rw [World.isFull, decide_eq_true_iff]
    exact Nat.le_trans hf List.length_erase_le

theorem inv_closeTask (h : Inv (some t) w)
    (hlist : .task t ∈ w.requestorList → t ∉ w.processSet)
    (hgood : .task t ∈ w.requestorList → w.isEnding t = true ∧ ¬LeavesBehindHead w t) :
    Inv none (w.closeTask t) := by
  have hclosed : ∀ {w' : World J T}, t ∉ w'.processSet → Inv (some t) w' →
      (w'.isFull = false → w'.waitingRequestor = some (.task t) →
        w'.requestorList.head? ≠ some (.task t) →
        ∀ r', next (w'.requestorList.filter (· ≠ .task t)) = some r' → w'.notified r' = true) →
      Inv none ((w'.removeRequestor (.task t)).setTaskState t .closed) := by
    intro w' ht h' hleave
    refine ((h'.removeTask hleave).setTaskState .closed).seal ?_ (fun hs => ?_) fun hm => ?_
    · show _ ∉ (w'.removeRequestor (.task t)).requestorList
      rw [removeRequestor_requestorList, mem_without]
      exact fun hm => hm.2 rfl
    · have hclosed : ((w'.removeRequestor (.task t)).setTaskState t .closed).state t = .closed :=
        Function.update_self ..
      rw [hclosed] at hs
      cases hs
    · have hm : t ∈ (w'.removeRequestor (.task t)).processSet := hm
      rw [removeRequestor_processSet] at hm
      exact absurd hm ht
  rw [World.closeTask]
  by_cases ht : t ∈ w.processSet
  · rw [if_pos ht]
    have hout : Requestor.task t ∉ (w.removeProcess t).requestorList := by
      rw [World.removeProcess, checkThenNotify_requestorList]
      exact fun hm => hlist hm ht
    refine hclosed ?_ h.removeProcess fun _ hnext => leave_of_not_mem hout hnext
    rw [World.removeProcess, checkThenNotify_processSet]
    exact h.inStep.single.not_mem_erase
  · rw [if_neg ht]
    refine hclosed ht h fun hf hnext hhead r' hr' => ?_
    obtain ⟨hend, hgood⟩ := hgood (mem_of_next hnext)
    by_contra hn
    refine hgood ⟨hnext, hhead, ?_, r', hr', Bool.eq_false_iff.mpr hn⟩
    rw [hend, if_pos rfl]
    rw [World.isFull, decide_eq_false_iff_not] at hf
    exact Nat.lt_of_not_le hf

/-- `do_something` of a task that acts. -/
theorem inv_doSomething (h : Inv (some t) w) (loads answered : Bool)
    (hlist : .task t ∈ w.requestorList ↔ w.state t = .waitingForProcess ∧ t ∉ w.processSet)
    (hprocess : t ∈ w.processSet → w.state t = .waitingForProcess ∨ w.state t = .underway)
    (hgood : ¬LeavesBehindHead w t) : Inv none (w.doSomething t loads answered) := by
  have hstay : w.state t ≠ .waitingForProcess → Inv none w := by
    intro hs
    exact h.seal (fun hm => hs (hlist.mp hm).1) (fun hw => absurd hw hs) hprocess
  rw [World.doSomething]
  cases hs : w.state t with
  | loading =>
      have hout : Requestor.task t ∉ w.requestorList := by
        intro hm
        have := (hlist.mp hm).1
        rw [hs] at this
        cases this
      by_cases hcond : (w.isEnding t || !loads) = true
      · simp only [if_pos hcond]
        exact inv_closeTask h (fun hm => absurd hm hout) fun hm => absurd hm hout
      · simp only [if_neg hcond]
        rw [Bool.or_eq_true, not_or] at hcond
        exact inv_tryToGetProcess h answered hlist (Bool.eq_false_iff.mpr hcond.1) hgood
  | waitingForProcess =>
      by_cases hend : w.isEnding t = true
      · simp only [if_pos hend]
        by_cases ht : t ∈ w.processSet
        · rw [if_pos ht]
          refine (h.setTaskState .underway).seal (fun hm => (hlist.mp hm).2 ht) (fun _ => ht)
            fun _ => Or.inr (Function.update_self ..)
        · rw [if_neg ht]
          exact inv_closeTask h (fun hm => (hlist.mp hm).2) fun _ => ⟨hend, hgood⟩
      · simp only [if_neg hend]
        exact inv_tryToGetProcess h answered hlist (Bool.eq_false_iff.mpr hend) hgood
  | underway => exact hstay (by rw [hs]; exact fun he => by cases he)
  | closed => exact hstay (by rw [hs]; exact fun he => by cases he)

/-! ## Runs -/

theorem inv_of_initial (h : Initial w) : Inv none w := by
  refine ⟨⟨?_, fun j => ?_, fun t _ => ?_, fun t ht => ?_, ?_, ?_⟩,
    ⟨fun _ => h.notified, fun _ r hr => ?_, fun t _ hn => ?_⟩⟩
  · rw [h.requestorList]
    exact List.nodup_nil
  · rw [h.requestorList, h.waitingForProcess]
    exact ⟨fun hm => absurd hm List.not_mem_nil, fun hw => by cases hw⟩
  · rw [h.requestorList, h.state]
    exact ⟨fun hm => absurd hm List.not_mem_nil, fun hs => by cases hs.1⟩
  · rw [h.processSet] at ht
    exact absurd ht List.not_mem_nil
  · rw [h.processSet]
    exact List.nodup_nil
  · rw [h.processSet]
    exact Nat.zero_le _
  · rw [World.waitingRequestor, h.requestorList] at hr
    cases hr
  · rw [h.notified] at hn
    cases hn

/-- The call of a job is of no use to those that wait. -/
theorem Inv.calledJob (h : Inv none w) (j : J) : Inv none (w.called (.job j)) := by
  refine ⟨⟨h.inStep.nodup, h.inStep.jobs, h.inStep.tasks, h.inStep.processes, h.inStep.single,
    h.inStep.bounded⟩, ⟨h.heard.full, h.heard.next, fun t ht hn hm => ?_⟩⟩
  show Function.update w.calls (.job j) false (.task t) = true
  rw [Function.update_of_ne (fun he => by cases he)]
  exact h.heard.task t ht hn hm

/-- A task whose call is executed has to act. -/
theorem Inv.calledTask (h : Inv none w) (t : T) : Inv (some t) (w.called (.task t)) := by
  have h := h.weaken (some t)
  refine ⟨⟨h.inStep.nodup, h.inStep.jobs, h.inStep.tasks, h.inStep.processes, h.inStep.single,
    h.inStep.bounded⟩, ⟨h.heard.full, h.heard.next, fun t' ht hn hm => ?_⟩⟩
  show Function.update w.calls (.task t) false (.task t') = true
  rw [Function.update_of_ne (fun he => ht (congrArg some (Requestor.task.inj he)))]
  exact h.heard.task t' ht hn hm

theorem inv_setMaxProcesses (h : Inv none w) {n : Nat} (hn : w.maxProcesses ≤ n) :
    Inv none (w.setMaxProcesses n) := by
  rw [World.setMaxProcesses]
  refine ⟨⟨?_, fun j => ?_, fun t ht => ?_, fun t hm ht => ?_, ?_, ?_⟩,
    heard_checkThenNotify (fun hf r => ?_) fun t ht hn => ?_⟩
  · rw [checkThenNotify_requestorList]
    exact h.inStep.nodup
  · rw [checkThenNotify_requestorList, checkThenNotify_waitingForProcess]
    exact h.inStep.jobs j
  · rw [checkThenNotify_requestorList, checkThenNotify_state, checkThenNotify_processSet]
    exact h.inStep.tasks t ht
  · rw [checkThenNotify_processSet] at hm
    rw [checkThenNotify_state]
    exact h.inStep.processes t hm ht
  · rw [checkThenNotify_processSet]
    exact h.inStep.single
  · rw [checkThenNotify_processSet, checkThenNotify_maxProcesses]
    exact Nat.le_trans h.inStep.bounded hn
  · show (w.notified r && !_) = false
    have hf : World.isFull { w with maxProcesses := n } = true := hf
    rw [hf, Bool.not_true, Bool.and_false]
  · have hn : (w.notified (.task t) && !_) = true := hn
    rw [Bool.and_eq_true] at hn
    exact h.heard.task t ht hn.1

/-- **ONE STEP**: a step that leaves nobody behind the head keeps the invariant. -/
theorem inv_step {op : Op J T} {w' : World J T} (h : Inv none w) (hgood : ¬Forgets w op)
    (hstep : Step w op w') : Inv none w' := by
  obtain ⟨hallowed, rfl⟩ := hstep
  cases op with
  | tryStartOneTask j a => exact inv_tryStartOneTask h j a
  | processAvailableCall j a => exact inv_tryStartOneTask (h.calledJob j) j a
  | setState j =>
      show Inv none (w.setState j)
      rw [World.setState]
      split
      · exact inv_removeWaitingJob h j
      · exact h
  | doSomething t loads answered =>
      exact inv_doSomething (h.weaken _) loads answered (h.inStep.tasks t (some_ne_none t))
        (fun ht => h.inStep.processes t ht (some_ne_none t)) hgood
  | processClassAvailableCall t loads answered =>
      exact inv_doSomething (h.calledTask t) loads answered (h.inStep.tasks t (some_ne_none t))
        (fun ht => h.inStep.processes t ht (some_ne_none t)) hgood
  | cmdEnd t =>
      exact ⟨⟨h.inStep.nodup, h.inStep.jobs, h.inStep.tasks, h.inStep.processes, h.inStep.single,
        h.inStep.bounded⟩, ⟨h.heard.full, h.heard.next, h.heard.task⟩⟩
  | finish t =>
      show Inv none (if w.state t = .underway then w.closeTask t else w)
      split
      · rename_i hs
        have hout : Requestor.task t ∉ w.requestorList := by
          intro hm
          have := ((h.inStep.tasks t (some_ne_none t)).mp hm).1
          rw [hs] at this
          cases this
        exact inv_closeTask (h.weaken _) (fun hm => absurd hm hout) fun hm => absurd hm hout
      · exact h
  | setMaxProcesses n => exact inv_setMaxProcesses h hallowed

/-- While a process is free, the invariant says that the waiters are remembered. -/
theorem remembered_of_inv (h : Inv none w) : Remembered w := by
  refine ⟨h.inStep.bounded, fun hcalls hlen r hr hwants => ?_⟩
  have hf : w.isFull = false := by
    rw [World.isFull, decide_eq_false_iff_not]
    exact Nat.not_le_of_lt hlen
  -- a task that has been notified would act
  have hnotask : ∀ t, .task t ∈ w.requestorList → w.notified (.task t) = false := by
    intro t ht
    by_contra hn
    have := h.heard.task t (some_ne_none t) (eq_true_of_ne_false hn) ht
    rw [hcalls] at this
    cases this
  obtain ⟨r₀, hr₀⟩ : ∃ r₀, w.waitingRequestor = some r₀ := by
    refine Option.ne_none_iff_exists'.mp fun hnone => ?_
    rw [next_eq_none.mp hnone] at hr
    exact absurd hr List.not_mem_nil
  have hnot := h.heard.next hf r₀ hr₀
  cases r₀ with
  | task t =>
      rw [hnotask t (mem_of_next hr₀)] at hnot
      cases hnot
  | job j =>
      obtain ⟨hhead, hno⟩ := next_job hr₀
      cases r with
      | task t => exact absurd hr (hno t)
      | job j' =>
          -- the only job that is admitted is the head
          have hav : w.processAvailable j' = true := hwants
          rw [World.processAvailable, hf, Bool.not_false, Bool.true_and, Bool.or_eq_true,
            decide_eq_true_iff] at hav
          rcases hav with hempty | hhead'
          · rw [List.isEmpty_iff.mp hempty] at hr
            exact absurd hr List.not_mem_nil
          · rw [hhead] at hhead'
            rw [← Option.some.inj hhead']
            exact hnot

/-- **THE WAITERS ARE REMEMBERED**, in every run in which no task leaves the others
    behind the head. -/
theorem remembered_of_reach
    (h : Reach Initial (Guarded (fun w op => ¬Forgets w op) Step) w) : Remembered w :=
  remembered_of_inv (h.invariant (I := Inv none) (fun _ => inv_of_initial)
    fun _ _ _ hinv hstep => inv_step hinv hstep.1 hstep.2)

/-! ## Who is left behind -/

/-- A requestor leaves from behind the head, and nobody is notified. -/
theorem removeRequestor_of_behind (hhead : w.requestorList.head? ≠ some r) :
    w.removeRequestor r = { w with requestorList := w.requestorList.filter (· ≠ r) } := by
  have hsame : w.requestorList.head? = (w.requestorList.filter (· ≠ r)).head? := by
    cases hl : w.requestorList with
    | nil => rfl
    | cons a l =>
        rw [hl] at hhead
        have ha : a ≠ r := fun he => hhead (congrArg some he)
        rw [List.filter_cons_of_pos (by simpa using ha)]
        rfl
  simp only [World.removeRequestor]
  rw [if_neg]
  rw [Bool.and_eq_true, decide_eq_true_iff]
  exact fun hne => hne.2 hsame

theorem startOrWait_of_behind (ht : t ∈ w.processSet) (hst : w.state t = .waitingForProcess)
    (hhead : w.requestorList.head? ≠ some (.task t)) (answered : Bool) :
    ∃ state, w.startOrWait t answered = { w with
      requestorList := w.requestorList.filter (· ≠ .task t), state } := by
  cases answered with
  | false =>
      refine ⟨w.state, ?_⟩
      simp only [World.startOrWait, ht, hst, true_and, Bool.false_eq_true, if_false, if_true, ne_eq,
        not_true_eq_false]
      exact removeRequestor_of_behind hhead
  | true =>
      refine ⟨Function.update w.state t .underway, ?_⟩
      simp only [World.startOrWait, ht, true_and, if_true, removeRequestor_of_behind hhead,
        World.setTaskState]
      rw [removeRequestor_of_behind]
      · rw [List.filter_filter]
        simp only [Bool.and_self]
      · intro hhead'
        exact (mem_without.mp (List.mem_of_head? hhead')).2 rfl

/-- The condition is not too strong: if it fails, a process is free after the step,
    and who comes next has not been notified. -/
theorem unheard_of_forgets {op : Op J T} (h : Inv none w) (hforgets : Forgets w op) :
    (perform op w).isFull = false ∧ ∃ r, (perform op w).waitingRequestor = some r ∧
      (perform op w).notified r = false := by
  have key : ∀ {w : World J T} {t : T} (loads answered : Bool), Inv (some t) w →
      (.task t ∈ w.requestorList ↔ w.state t = .waitingForProcess ∧ t ∉ w.processSet) →
      LeavesBehindHead w t → (w.doSomething t loads answered).isFull = false ∧
        ∃ r, (w.doSomething t loads answered).waitingRequestor = some r ∧
          (w.doSomething t loads answered).notified r = false := by
    intro w t loads answered h hlist ⟨hnext, hhead, hlen, r, hr, hnot⟩
    obtain ⟨hst, ht⟩ := hlist.mp (mem_of_next hnext)
    rw [World.doSomething]
    simp only [hst, if_neg ht]
    by_cases hend : w.isEnding t = true
    · rw [if_pos hend] at hlen ⊢
      rw [World.closeTask, if_neg ht, removeRequestor_of_behind hhead]
      refine ⟨decide_eq_false (Nat.not_le_of_lt ?_), r, hr, hnot⟩
      exact hlen
    · rw [if_neg hend] at hlen ⊢
      have hfree : w.isFull = false := by
        rw [World.isFull, decide_eq_false_iff_not]
        omega
      obtain ⟨state, hrun⟩ := startOrWait_of_behind (w := w.selectProcess t)
        (by rw [selectProcess_of_free hfree]; exact List.mem_cons_self)
        (by rw [selectProcess_of_free hfree]; exact hst)
        (by rw [selectProcess_of_free hfree]; exact hhead) answered
      rw [World.tryToGetProcess, if_neg ht, hrun, selectProcess_of_free hfree]
      refine ⟨decide_eq_false (Nat.not_le_of_lt hlen), r, hr, ?_⟩
      show (w.notified r && !_) = false
      rw [hnot, Bool.false_and]
  cases op with
  | doSomething t loads answered =>
      exact key loads answered (h.weaken _) (h.inStep.tasks t (some_ne_none t)) hforgets
  | processClassAvailableCall t loads answered =>
      exact key loads answered (h.calledTask t) (h.inStep.tasks t (some_ne_none t)) hforgets
  | _ => exact absurd hforgets not_false

/-! ## Behind a job -/

instance (w : World J T) (t : T) : Decidable (LeavesBehindHead w t) :=
  inferInstanceAs (Decidable (_ ∧ _ ∧ _ ∧ ∃ r, _ = some r ∧ w.notified r = false))

instance (w : World J T) (op : Op J T) : Decidable (Forgets w op) :=
  match op with
  | .tryStartOneTask _ _ | .processAvailableCall _ _ | .setState _ | .cmdEnd _ | .finish _
  | .setMaxProcesses _ => inferInstanceAs (Decidable False)
  | .doSomething t _ _ | .processClassAvailableCall t _ _ =>
      inferInstanceAs (Decidable (LeavesBehindHead w t))

instance (w : World J T) (op : Op J T) : Decidable (Allowed w op) :=
  match op with
  | .tryStartOneTask _ _ | .processAvailableCall _ _ | .setState _ | .cmdEnd _ | .finish _
  | .doSomething _ _ _ | .processClassAvailableCall _ _ _ => inferInstanceAs (Decidable True)
  | .setMaxProcesses n => inferInstanceAs (Decidable (w.maxProcesses ≤ n))

def attempt (w : World J T) (op : Op J T) : Option (World J T) :=
  if Allowed w op then some (perform op w) else none

theorem attempt_step (w : World J T) (op : Op J T) (w' : World J T)
    (h : attempt w op = some w') : Step w op w' := by
  rw [attempt] at h
  split at h
  · rename_i hallowed
    exact ⟨hallowed, (Option.some.inj h).symm⟩
  · cases h

/-- A process class for one process. -/
def onlyOne : World Nat Nat where
  processSet := []
  maxProcesses := 1
  requestorList := []
  waitingForProcess := fun _ => false
  tryAgain := fun _ => false
  state := fun _ => .loading
  isEnding := fun _ => false
  calls := fun _ => false
  notified := fun _ => false

theorem initial_onlyOne : Initial onlyOne :=
  ⟨rfl, rfl, fun _ => rfl, fun _ => rfl, fun _ => rfl⟩

def wanting : Attempt := ⟨true, true, false⟩

/-- A task waits before a job; it gets the process, and then the job. -/
def oneAfterTheOther : List (Op Nat Nat) :=
  [.doSomething 1 true true, .doSomething 2 true true, .tryStartOneTask 0 wanting, .finish 1,
    .processClassAvailableCall 2 true true, .finish 2, .setMaxProcesses 2]

/-- The job is remembered: it has been notified, and its call is not yet executed. -/
theorem oneAfterTheOther_remembered :
    ((runAll (nextIf (fun w op => ¬Forgets w op) attempt) onlyOne oneAfterTheOther).any fun w =>
      w.requestorList = [.job 0] && w.notified (.job 0)) = true ∧
    ∀ w, runAll (nextIf (fun w op => ¬Forgets w op) attempt) onlyOne oneAfterTheOther = some w →
      Remembered w :=
  ⟨by decide, fun w hrun => remembered_of_reach
    (Reach.runAll (fun _ _ _ h => nextIf_step attempt_step h) (Reach.start initial_onlyOne) hrun)⟩

/-- A task waits behind a job; it is notified first, and is ended instead. -/
def behindTheJob : List (Op Nat Nat) :=
  [.doSomething 1 true true, .tryStartOneTask 0 wanting, .doSomething 2 true true, .finish 1,
    .cmdEnd 2, .processClassAvailableCall 2 true true]

/-- The job is at the head of the list, the process is free, and nobody is told. -/
theorem behindTheJob_runs : ∃ w, runAll attempt onlyOne behindTheJob = some w ∧
    w.calls = Function.update (Function.update (fun _ => false) (.task 2) true) (.task 2) false ∧
    w.processSet = [] ∧ w.maxProcesses = 1 ∧ w.requestorList = [.job 0] ∧
    w.notified (.job 0) = false ∧ w.processAvailable 0 = true :=
  ⟨_, rfl, rfl, rfl, rfl, rfl, rfl, rfl⟩

theorem behindTheJob_forgets : ¬∀ w : World Nat Nat, Reach Initial Step w → Remembered w := by
  intro hall
  obtain ⟨w, hrun, hcalls, hset, hmax, hlist, hnot, hav⟩ := behindTheJob_runs
  have hreach := Reach.runAll attempt_step (Reach.start initial_onlyOne) hrun
  have hsettled : ∀ r, w.calls r = false := by
    intro r
    rw [hcalls, Function.update_idem]
    by_cases hr : r = .task 2
    · rw [hr, Function.update_self]
    · rw [Function.update_of_ne hr]
  have htold := (hall w hreach).notified hsettled (by rw [hset, hmax]; decide) (.job 0)
    (by rw [hlist]; decide) hav
  rw [hnot] at htold
  cases htold

end ProcessClass
