import SchedulerEngine.OrderCountProofs
import SchedulerEngine.RunInvariantProofs

/-! # Orders that are set back

    One order goes through steps in tasks, of any jobs.  In a step `setback` may be
    called any number of times, and the node may call it after an error; the order
    may be suspended or resumed at any time.  Beyond the maximum of its job
    `setback` writes `Time::never`, a mark that `postprocessing` has to remove. -/

namespace OrderSetback

open FileBased (Failure)
open Execution Execution.Exec JobChainNode OrderWorld OrderQueue OrderMove OrderStep OrderPlacement
open OrderClosed OrderMethods OrderEnd OrderTask OrderCount RunInvariant

/-! ## Runs -/

/-- The world, and how often `setback` has been called in the consecutive steps that
    have ended with a setback, and in the step that is going on. -/
structure State where
  world : World
  calls : Nat

/-- What happens to the order. -/
inductive Op where
  | occupy (n : NodeRef) (task : Task) (time : Nat)
  | setback
  | setSuspended (suspended : Bool)
  | postprocessing (transition : Transition)
  | elapse (time : Nat)

/-- A task may take the order from the queue of the node that its state names. -/
def MayOccupy (w : World) (o : OrderRef) (n : NodeRef) (time : Nat) : Prop :=
  w.isImmediatelyProcessable o time = true ∧ (w.order o).isInOrderQueue = true
    ∧ (w.order o).jobChainNode = some n ∧ (w.order o).state = some n.node.orderState

instance (w : World) (o : OrderRef) (n : NodeRef) (time : Nat) :
    Decidable (MayOccupy w o n time) := inferInstanceAs (Decidable (_ ∧ _))

/-- What a task does that takes the order: `first_immediately_processable_order`
    clears `_setback`. -/
def occupy (o : OrderRef) (task : Task) : Method Unit := do
  write o fun x => { x with setback := 0 }
  occupyForTask o task
  onOccupied o

/-- Whether an order is set back more often than its job allows; `setsBack` if its
    node sets it back once more. -/
def exceeds (x : Order) (task : Task) (setsBack : Bool) : Bool :=
  if setsBack then decide (task.maxOrderSetbacks < x.setbackCount + 1)
  else x.setbackCalled && decide (task.maxOrderSetbacks < x.setbackCount)

/-- The calls that count when the step is over. -/
def callsAfter (x : Order) (task : Task) (setsBack : Bool) (calls : Nat) : Nat :=
  if exceeds x task setsBack then 0
  else if setsBack then calls + 1
  else if x.setbackCalled then calls
  else 0

/-- The world after a method that does not fail. -/
def after {α : Type} (m : Method α) (w : World) : Option World :=
  match m w with
  | (.ok _, w') => some w'
  | (.error _, _) => none

/-- One thing that happens to the order `o`. -/
def next (depth : Nat) (o : OrderRef) (s : State) : Op → Option State
  | .occupy n task time =>
      if MayOccupy s.world o n time then
        (after (occupy o task) s.world).map fun w => ⟨w, s.calls⟩
      else none
  | .setback => (after (setback o) s.world).map fun w => ⟨w, s.calls + 1⟩
  | .setSuspended suspended =>
      (after (setSuspended o suspended) s.world).map fun w => ⟨w, s.calls⟩
  | .postprocessing transition =>
      let x := s.world.order o
      match x.task with
      | none => none
      | some task =>
          (after (postprocessing (depth + 1) o transition) s.world).map fun w =>
            ⟨w, callsAfter x task (setsBack x.jobChainNode transition) s.calls⟩
  | .elapse time => some { s with world := { s.world with now := time } }

def Step (depth : Nat) (o : OrderRef) (s : State) (op : Op) (s' : State) : Prop :=
  next depth o s op = some s'

/-- A step is over while the order is suspended and set back too often. -/
def suspendedBeyond (o : OrderRef) (s : State) : Op → Bool
  | .postprocessing transition =>
      let x := s.world.order o
      x.suspended && x.task.any fun task => exceeds x task (setsBack x.jobChainNode transition)
  | _ => false

/-- The order has not been set back yet. -/
structure Start (o : OrderRef) (s : State) : Prop where
  placed : Placed s.world
  task : (s.world.order o).task = none
  setbackCount : (s.world.order o).setbackCount = 0
  calls : s.calls = 0

/-- The mark that `setback` leaves beyond the maximum. -/
def Marked (task : Task) (x : Order) : Prop :=
  x.setback = never ∧ task.maxOrderSetbacks < x.setbackCount

instance (task : Task) (x : Order) : Decidable (Marked task x) :=
  inferInstanceAs (Decidable (_ ∧ _))

/-- What an order does after an error, in the words of `postprocessing`. -/
def leaveForError (depth : Nat) (o : OrderRef) (n : NodeRef) (transition : Transition) :
    Method Unit :=
  if n.node.isOnErrorSuspend then setSuspended o true
  else setState1 depth o (n.node.orderStateAfter transition)

/-- The order `x` goes on as after an error: it has given up its task, and its count and
    its `_setback` are cleared. -/
def LeavesForError (depth : Nat) (o : OrderRef) (transition : Transition) (x : Order)
    (w' : World) : Prop :=
  ∃ n w₁, x.jobChainNode = some n
    ∧ w₁.order o = { x with
      isSuccessState := false, setback := 0, setbackCount := 0, setbackCalled := true
      task := none }
    ∧ (do leaveForError depth o n transition; postprocessing2 depth o) w₁ = (.ok (), w')

/-- What `postprocessing` has to make of the order `x`. -/
structure Settled (depth : Nat) (o : OrderRef) (transition : Transition) (task : Task)
    (x : Order) (w' : World) : Prop where
  noTask : (w'.order o).task = none
  unmarked : ¬Marked task (w'.order o)
  cleared : exceeds x task (setsBack x.jobChainNode transition) = true →
    (w'.order o).setbackCount = 0
  leaves : exceeds x task (setsBack x.jobChainNode transition) = true →
    (∃ returnCode, returnCode ≠ 0 ∧ transition = .proceeding returnCode) →
      LeavesForError depth o transition x w'

variable {o : OrderRef} {w w' : World} {s s' : State} {x y : Order} {n : NodeRef} {task : Task}
  {transition : Transition} {depth k : Nat}

theorem after_eq {α : Type} {m : Method α} (h : after m w = some w') :
    ∃ a, m w = (.ok a, w') := by
  rw [after] at h
  rcases hm : m w with ⟨r, w''⟩
  rw [hm] at h
  cases r with
  | ok a =>
      cases h
      exact ⟨a, rfl⟩
  | error e => cases h

/-- What `setback` leaves beyond the maximum is the mark. -/
theorem marked_of_setBack (h : SetBack task x y)
    (hlt : task.maxOrderSetbacks < x.setbackCount + 1) : Marked task y := by
  obtain ⟨time, rfl, hnever⟩ := h
  exact ⟨hnever hlt, hlt⟩

/-! ## In a task -/

/-- What is known of an order `x` while it is in a task. -/
structure InTask (w : World) (x : Order) (task : Task) (n : NodeRef) : Prop where
  hasTask : x.task = some task
  jobChainNode : x.jobChainNode = some n
  hasQueue : n.node.type.isOrderQueue = true
  state : x.state = some n.node.orderState
  action : w.action n = .process
  isOnBlacklist : x.isOnBlacklist = false
  moved : x.moved = false
  endStateReached : x.endStateReached = false
  marked : x.setbackCalled = true → task.maxOrderSetbacks < x.setbackCount → x.setback = never

/-- What holds in every reached state. -/
structure Invariant (o : OrderRef) (s : State) : Prop where
  placed : Placed s.world
  setbackCount : (s.world.order o).setbackCount = s.calls
  blacklisted : (s.world.order o).isOnBlacklist = true → s.calls = 0
  inTask : ∀ task, (s.world.order o).task = some task → ∃ n, InTask s.world (s.world.order o) task n

theorem Invariant.start (h : Start o s) : Invariant o s where
  placed := h.placed
  setbackCount := h.setbackCount.trans h.calls.symm
  blacklisted _ := h.calls
  inTask task ht := by
    rw [h.task] at ht
    cases ht

/-- The moves of an order about whose places in queues nothing is asked. -/
def anyMove : Mode := ⟨False, False, False, True, True⟩

/-- The orders stay placed, the node lists stay as they are in `w₀`. -/
theorem closed_anyMove (w₀ : World) :
    Loosened anyMove o (fun w => Placed w ∧ SameChains w₀ w) fun w => Placed w ∧ SameChains w₀ w :=
  (Loosened.of_unsorted (closed_placed anyMove o) id nofun).sameChains w₀

theorem placed_setSuspended (h : Placed w) (suspended : Bool)
    (hrun : setSuspended o suspended w = (.ok (), w')) : Placed w' :=
  (keeps_setSuspended (closed_anyMove w) True.intro suspended).triple.of_ok
    ⟨h, fun _ => rfl⟩ hrun |>.1

theorem placed_postprocessing (h : Placed w)
    (hrun : postprocessing (depth + 1) o transition w = (.ok (), w')) : Placed w' := by
  refine ((postprocessing_spec (closed_anyMove w) True.intro True.intro depth
    transition).of_ok ⟨⟨h, fun _ => rfl⟩, ?_⟩ hrun).1
  exact ⟨fun _ => False.elim, False.elim, False.elim, False.elim⟩

theorem Placed.elapse (h : Placed w) (time : Nat) : Placed { w with now := time } := fun p =>
  ⟨(h p).inMap, (h p).onBlacklist, (h p).inQueue, (h p).nodeOfChain, (h p).queued⟩

/-! ## Before the end of a step -/

theorem occupy_run (hrun : occupy o task w = (.ok (), w')) :
    (w.order o).moved = false ∧ w' = w.setOrder o fun x =>
      { x with
        setback := 0, setbackCalled := false, moved := false, task := some task
        isTouched := true
        isNestedTouched := if x.outerJobChainPath ≠ "" then true else x.isNestedTouched
        isSuccessState := true, endStateReached := false } := by
  cases ht : (w.order o).task with
  | some other =>
      simp only [occupy, occupyForTask, bind_run, write, modify_run, get_run,
        World.setOrder_order_self, ht, throw_run] at hrun
      cases hrun
  | none =>
      cases hm : (w.order o).moved with
      | true =>
          simp only [occupy, occupyForTask, bind_run, write, modify_run, get_run,
            World.setOrder_order_self, ht, hm, require_run] at hrun
          cases hrun
      | false =>
          simp only [occupy, occupyForTask, onOccupied, touch, bind_run, write, modify_run,
            get_run, World.setOrder_order_self, ht, hm, require_run, Bool.not_false, if_true,
            World.setOrder_setOrder, Prod.mk.injEq, true_and] at hrun
          exact ⟨rfl, hrun.symm⟩

/-- An order that may be processed is on no blacklist, and its node not skipped. -/
theorem process_of_mayOccupy {time : Nat} (h : MayOccupy w o n time) :
    (w.order o).isOnBlacklist = false ∧ w.action n = .process := by
  obtain ⟨hproc, -, hn, -⟩ := h
  simp only [World.isImmediatelyProcessable, World.isProcessable, Order.isSelfProcessable, hn,
    World.nodeIsReady, Bool.and_eq_true, Bool.not_eq_true', decide_eq_true_eq] at hproc
  exact ⟨hproc.2.1.1.1.1.1.1, hproc.2.2⟩

theorem Invariant.occupy (h : Invariant o s) {time : Nat} (hmay : MayOccupy s.world o n time)
    (hrun : occupy o task s.world = (.ok (), w')) : Invariant o ⟨w', s.calls⟩ := by
  obtain ⟨hb, haction⟩ := process_of_mayOccupy hmay
  obtain ⟨-, hq, hn, hstate⟩ := hmay
  obtain ⟨m, hm, hty⟩ := (h.placed o).queued.mp hq
  obtain rfl : n = m := Option.some.inj (hn.symm.trans hm)
  obtain ⟨hmoved, rfl⟩ := occupy_run hrun
  have hp := h.placed.same (o := o) (f := fun x =>
    { x with
      setback := 0, setbackCalled := false, moved := false, task := some task
      isTouched := true
      isNestedTouched := if x.outerJobChainPath ≠ "" then true else x.isNestedTouched
      isSuccessState := true, endStateReached := false }) ⟨rfl, rfl, rfl, rfl, rfl⟩
  refine ⟨hp, ?_, ?_, fun task' ht => ⟨n, ?_⟩⟩
  · rw [World.setOrder_order_self]
    exact h.setbackCount
  · rw [World.setOrder_order_self]
    exact h.blacklisted
  · rw [World.setOrder_order_self] at ht ⊢
    exact ⟨ht, hn, hty, hstate, haction, hb, rfl, rfl, nofun⟩

/-- `setback` in a task. -/
theorem Invariant.setback (h : Invariant o s) {b : Bool}
    (hrun : setback o s.world = (.ok b, w')) : Invariant o ⟨w', s.calls + 1⟩ := by
  obtain ⟨⟨hp, hchains⟩, task, ht, hset⟩ :=
    (setback_spec (closed_anyMove s.world).strict (s.world.order o)).of_ok
      ⟨⟨h.placed, fun _ => rfl⟩, rfl⟩ hrun
  obtain ⟨n, hin⟩ := h.inTask task ht
  obtain ⟨time, hord, hnever⟩ := hset
  refine ⟨hp, ?_, ?_, fun task' ht' => ?_⟩
  · rw [hord]
    exact congrArg (· + 1) h.setbackCount
  · rw [hord]
    intro hb
    exact Bool.noConfusion (hin.isOnBlacklist.symm.trans hb)
  · rw [hord] at ht' ⊢
    obtain rfl : task = task' := Option.some.inj (ht.symm.trans ht')
    exact ⟨n, { hin with action := (hchains.action n).trans hin.action, marked := fun _ => hnever }⟩

/-- Suspended or resumed where it is. -/
theorem setSuspended_stays (h : Placed w) {suspended : Bool}
    (hb : (w.order o).isOnBlacklist = false)
    (hrun : setSuspended o suspended w = (.ok (), w')) :
    w'.order o = { w.order o with suspended := suspended } ∧ SameChains w w' := by
  by_cases hs : (w.order o).suspended = suspended
  · have hid : setSuspended o suspended w = (.ok (), w) := by
      simp only [setSuspended, bind_run, get_run, Exec.onlyIf, hs, ne_eq, not_true, if_false,
        pure_run]
    rw [hid] at hrun
    cases hrun
    exact ⟨by rw [← hs], fun _ => rfl⟩
  · have hstay : (w.order o).isOnBlacklist = true → suspended = true := fun h =>
      Bool.noConfusion (hb.symm.trans h)
    rw [setSuspended_run (h o) suspended hs hstay] at hrun
    cases hrun
    exact ⟨rekeyed_order_self (h o) ⟨rfl, rfl, rfl, rfl, rfl⟩, (moves_rekeyed w o _).jobChain⟩

theorem Invariant.setSuspended (h : Invariant o s) {suspended : Bool}
    (hrun : setSuspended o suspended s.world = (.ok (), w')) : Invariant o ⟨w', s.calls⟩ := by
  have hp := placed_setSuspended h.placed suspended hrun
  by_cases hb : (s.world.order o).isOnBlacklist = true
  · -- an order on the blacklist is in no task and not set back; it may leave its job chain
    have hcalls : s.calls = 0 := h.blacklisted hb
    have hidle : Idle 0 (s.world.order o) := by
      refine ⟨?_, by rw [h.setbackCount, hcalls]⟩
      cases ht : (s.world.order o).task with
      | none => rfl
      | some task =>
          obtain ⟨n, hin⟩ := h.inTask task ht
          exact Bool.noConfusion (hin.isOnBlacklist.symm.trans hb)
    have hidle' : Idle 0 (w'.order o) := (idle_setSuspended suspended).triple.of_ok hidle hrun
    refine ⟨hp, ?_, fun _ => hcalls, fun task ht => ?_⟩
    · rw [hcalls]
      exact Nat.le_zero.mp hidle'.2
    · rw [hidle'.1] at ht
      cases ht
  · rw [Bool.not_eq_true] at hb
    obtain ⟨hord, hchains⟩ := setSuspended_stays h.placed hb hrun
    refine ⟨hp, ?_, ?_, fun task ht => ?_⟩
    · rw [hord]
      exact h.setbackCount
    · rw [hord]
      exact h.blacklisted
    · rw [hord] at ht ⊢
      obtain ⟨n, hin⟩ := h.inTask task ht
      exact ⟨n, { hin with action := (hchains.action n).trans hin.action }⟩

/-! ## At the end of a step -/

/-- In a task the order is forced into the error state if it is set back too often,
    unless it is suspended. -/
theorem InTask.isForced_eq (h : InTask w x task n) (b : Bool) :
    isForced x task b = (!x.suspended && exceeds x task b) := by
  cases b with
  | true => rfl
  | false =>
      cases hc : x.setbackCalled with
      | false => simp [isForced, exceeds, hc]
      | true =>
          by_cases hlt : task.maxOrderSetbacks < x.setbackCount
          · simp [isForced, exceeds, hc, hlt, h.marked hc hlt]
          · simp [isForced, exceeds, hc, hlt]

/-- The count when the order has left its task, if it is not forced. -/
def counts (x : Order) (setsBack : Bool) : Nat :=
  if setsBack then x.setbackCount + 1 else if x.setbackCalled then x.setbackCount else 0

/-- The order `x` in the error state it is forced into. -/
def failed (x : Order) : Order :=
  { x with isSuccessState := false, setback := 0, setbackCount := 0, setbackCalled := true }

/-- The order `y` that the first part of `postprocessing` makes of `x`. -/
structure Returned (x : Order) (task : Task) (setsBack force : Bool) (y : Order) : Prop where
  forced : force = isForced x task setsBack
  stepped : Stepped x y
  failed : force = true → y = failed x
  setbackCount : force = false → y.setbackCount = counts x setsBack

/-- The count, and what the forced error state makes of the order. -/
theorem counted_returned {jobNode : Option NodeRef} {success : Bool}
    (hy : if setsBack jobNode transition = true
      then SetBack task { x with isSuccessState := success } y
      else y = { x with isSuccessState := success }) :
    (counted y).setbackCount = counts x (setsBack jobNode transition)
      ∧ (isForced x task (setsBack jobNode transition) = true →
        { counted y with isSuccessState := false, setback := 0, setbackCount := 0 } = failed x) := by
  cases hb : setsBack jobNode transition with
  | true =>
      rw [hb, if_pos rfl] at hy
      obtain ⟨time, rfl, -⟩ := hy
      exact ⟨rfl, fun _ => rfl⟩
  | false =>
      rw [hb, if_neg nofun] at hy
      subst hy
      cases hc : x.setbackCalled with
      | false => exact ⟨by simp [counted, counts, hc], by simp [isForced, hc]⟩
      | true => exact ⟨by simp [counted, counts, hc], fun _ => by simp [counted, failed]⟩

theorem beforeTransition_returned {jobNode : Option NodeRef} {w₀ : World}
    (ht : x.task = some task) :
    Triple (fun w => (Placed w ∧ SameChains w₀ w) ∧ w.order o = x)
      (beforeTransition o transition jobNode task)
      (fun force w => Returned x task (setsBack jobNode transition) force (w.order o))
      fun _ _ => True := by
  have C := (closed_anyMove (o := o) w₀).strict
  refine Triple.bind (writeIs_spec C (.of_eq rfl) rfl) fun _ => ?_
  refine Triple.bind ((setbackOnError_spec C
    { x with isSuccessState := decide (transition = .success) } task ht).consequence
    (fun _ h => h) (fun _ _ h => h) fun _ _ _ => True.intro) fun _ => ?_
  refine Triple.at_state fun w hpre => ?_
  obtain ⟨-, hy⟩ := hpre
  refine Triple.bind (Q := fun _ s => s.order o = counted (w.order o)) (Triple.modify ?_)
    fun _ => ?_
  · rintro _ rfl
    exact World.setOrder_order_self
  refine Triple.at_state fun w₁ hord => Triple.get_bind_at ?_
  rw [hord, isForced_iff hy]
  obtain ⟨hstep, -, -⟩ := beforeTransition_counted hy
  obtain ⟨hcount, hfailed⟩ := counted_returned hy
  cases hforce : isForced x task (setsBack jobNode transition) with
  | false =>
      refine Triple.bind (Q := fun _ s => s = w₁) (Triple.onlyIf nofun fun _ _ h => h) fun _ =>
        Triple.pure ?_
      rintro _ rfl
      rw [hord]
      exact ⟨hforce.symm, hstep, nofun, fun _ => hcount⟩
  | true =>
      refine Triple.bind (Q := fun _ s => s.order o = failed x)
        (Triple.onlyIf (fun _ => Triple.modify ?_) fun h => absurd rfl h) fun _ => Triple.pure ?_
      · rintro _ rfl
        rw [World.setOrder_order_self, hord]
        exact hfailed hforce
      · intro s hs
        rw [hs]
        exact ⟨hforce.symm, ⟨_, _, _, _, rfl⟩, fun _ => rfl, nofun⟩

/-- `postprocessing` of an order in a task, from where it leaves its task. -/
theorem postprocessing_ok (hp : Placed w) (hin : InTask w (w.order o) task n)
    (hrun : postprocessing depth o transition w = (.ok (), w')) :
    ∃ force w₁, Returned (w.order o) task (setsBack (some n) transition) force (w₁.order o)
      ∧ Placed w₁ ∧ SameChains w w₁
      ∧ (do makeTransition depth o transition (some n) force; postprocessing2 depth o)
        (w₁.setOrder o fun x => { x with task := none }) = (.ok (), w') := by
  have hcast : jobNodeCast (w.order o).jobChainNode = .ok (some n) := by
    rw [hin.jobChainNode]
    exact if_pos hin.hasQueue
  simp only [postprocessing, bind_run, get_run, hin.hasTask, hcast, ofExcept_run] at hrun
  obtain ⟨force, w₁, hbefore, hrest⟩ := bind_ok
    (m := beforeTransition o transition (some n) task) hrun
  have hreturned := beforeTransition_returned hin.hasTask |>.of_ok
    ⟨⟨hp, fun _ => rfl⟩, rfl⟩ hbefore
  obtain ⟨⟨hp₁, hchains⟩, -, -⟩ := (beforeTransition_spec (closed_anyMove w) _ hin.hasTask).of_ok
    ⟨⟨hp, fun _ => rfl⟩, rfl⟩ hbefore
  exact ⟨force, w₁, hreturned, hp₁, hchains, hrest⟩

/-- The order has no task and stands at the node `n` of its state, which is not
    skipped. -/
structure Standing (o : OrderRef) (n : NodeRef) (k : Nat) (w : World) : Prop where
  placed : Placed w
  jobChainNode : (w.order o).jobChainNode = some n
  state : (w.order o).state = some n.node.orderState
  action : w.action n = .process
  task : (w.order o).task = none
  setbackCount : (w.order o).setbackCount = k
  isOnBlacklist : (w.order o).isOnBlacklist = false

theorem Standing.rekeyed {f : Order → Order} (h : Standing o n k w)
    (hf : SamePlace (w.order o) (f (w.order o))) (hs : (f (w.order o)).state = (w.order o).state)
    (ht : (f (w.order o)).task = (w.order o).task)
    (hc : (f (w.order o)).setbackCount = (w.order o).setbackCount) :
    Standing o n k (rekeyed w o f) := by
  have hord := rekeyed_order_self (h.placed o) hf
  have hchains : SameChains w (OrderPlacement.rekeyed w o f) := (moves_rekeyed w o f).jobChain
  refine ⟨h.placed.rekeyed hf, ?_, ?_, (hchains.action n).trans h.action, ?_, ?_, ?_⟩
  all_goals rw [hord]
  · exact hf.jobChainNode.trans h.jobChainNode
  · exact hs.trans h.state
  · exact ht.trans h.task
  · exact hc.trans h.setbackCount
  · exact hf.isOnBlacklist.trans h.isOnBlacklist

theorem standing_setSuspended (suspended : Bool) :
    Keeps (Standing o n k) (setSuspended o suspended) := by
  intro w hw
  show Standing o n k (OrderMove.setSuspended o suspended w).2
  by_cases hs : (w.order o).suspended = suspended
  · have hid : OrderMove.setSuspended o suspended w = (.ok (), w) := by
      simp only [OrderMove.setSuspended, bind_run, get_run, Exec.onlyIf, hs, ne_eq, not_true,
        if_false, pure_run]
    rw [hid]
    exact hw
  · rw [setSuspended_run (hw.placed o) suspended hs fun h =>
      Bool.noConfusion (hw.isOnBlacklist.symm.trans h)]
    exact hw.rekeyed ⟨rfl, rfl, rfl, rfl, rfl⟩ rfl rfl rfl

theorem standing_setAtAfterDelay (time : Nat) : Keeps (Standing o n k) (setAtAfterDelay o time) := by
  refine Keeps.get_bind_any fun w => Keeps.bind (Keeps.onlyIf fun _ => ?_) fun _ =>
    Keeps.onlyIf nofun
  intro w hw
  show Standing o n k ((do
    write o fun x => { x with setback := _ }
    reinsertIfInQueue o : Method Unit) w).2
  rw [write_reinsert_run (hw.placed o) ⟨rfl, rfl, rfl, rfl, rfl⟩]
  exact hw.rekeyed ⟨rfl, rfl, rfl, rfl, rfl⟩ rfl rfl rfl

theorem Standing.setOrder {f : Order → Order} (h : Standing o n k w)
    (hf : SamePlace (w.order o) (f (w.order o))) (hs : (f (w.order o)).state = (w.order o).state)
    (ht : (f (w.order o)).task = (w.order o).task)
    (hc : (f (w.order o)).setbackCount = (w.order o).setbackCount) :
    Standing o n k (w.setOrder o f) := by
  refine ⟨h.placed.same hf, ?_, ?_, h.action, ?_, ?_, ?_⟩
  all_goals rw [World.setOrder_order_self]
  · exact hf.jobChainNode.trans h.jobChainNode
  · exact hs.trans h.state
  · exact ht.trans h.task
  · exact hc.trans h.setbackCount
  · exact hf.isOnBlacklist.trans h.isOnBlacklist

theorem standing_setState2 :
    Keeps (Standing o n k) (setState2 o (some n.node.orderState)) := by
  refine Keeps.modify fun w hw => ?_
  refine hw.setOrder (Same.of_eq (members_setState2 _ _)).toSamePlace ?_ ?_ ?_
  all_goals cases (w.order o).initialStateSet
  · exact hw.state.symm
  · exact hw.state.symm
  all_goals rfl

/-- The node that an order has is set again. -/
theorem standing_setJobChainNode : Keeps (Standing o n k) (setJobChainNode o (some n)) := by
  refine Keeps.bind (Keeps.modify fun w hw => ?_) fun _ => ?_
  · have hnode : (w.order o).jobChainNode = some n := hw.jobChainNode
    exact hw.setOrder ⟨rfl, rfl, hnode.symm, rfl, rfl⟩ rfl rfl rfl
  refine Keeps.bind (Keeps.onlyIf fun _ => standing_setSuspended true) fun _ => ?_
  refine Keeps.get_bind_any fun w => Keeps.bind (Keeps.onlyIf fun _ => ?_) fun _ => ?_
  · exact standing_setAtAfterDelay _
  · exact standing_setState2

theorem standing_moveToNode : Keeps (Standing o n k) (moveToNode o (some n)) := by
  refine Keeps.get_bind fun w hw => ?_
  have hsame : some n = (w.order o).jobChainNode := hw.jobChainNode.symm
  refine Keeps.bind (Keeps.require _ _) (fun _ => ?_) w hw
  refine Keeps.bind (Keeps.onlyIf fun ht => ?_) fun _ => ?_
  · rw [hw.task] at ht
    cases ht
  refine Keeps.bind (Keeps.onlyIf fun h => absurd hsame h.1) fun _ => ?_
  exact Keeps.bind standing_setJobChainNode fun _ => Keeps.onlyIf fun h => absurd hsame h.1

/-- The node of the order is the node of its state. -/
theorem Standing.targetNode (h : Standing o n k w) :
    (w.order o).jobChain = some n.chain
      ∧ targetNode w n.chain (w.order o).state = .ok (some n) := by
  obtain ⟨hc, hmem⟩ := (h.placed o).nodeOfChain n h.jobChainNode
  refine ⟨hc, ?_⟩
  have haction : (w.chain n.chain).action n.node.orderState ≠ .nextState := by
    rw [show (w.chain n.chain).action n.node.orderState = .process from h.action]
    exact nofun
  have href : (w.chain n.chain).referencedNodeFromState (some n.node.orderState) = .ok n.node := by
    rw [JobChain.referencedNodeFromState, nodeFromState_of_mem hmem]
    exact if_neg haction
  rw [h.state, OrderMove.targetNode, href]
  rfl

/-- The state that an order has is set again: nothing ends. -/
theorem standing_setState1 (depth : Nat) {w₀ : World} (h₀ : Standing o n k w₀) :
    Standing o n k (final (setState1 (depth + 1) o (w₀.order o).state) w₀) := by
  obtain ⟨hc, htarget⟩ := h₀.targetNode
  have hrun : setState1 (depth + 1) o (w₀.order o).state w₀ = (do
      moveToNode o (some n)
      endIfAtEnd (handleEndStateWith (setStateWith (setState1 depth))) o (w₀.order o).state :
        Method Unit) w₀ := by
    simp only [setState1, setState1With, bind_run, get_run, hc, htarget, ofExcept_run]
  rw [final, hrun]
  refine Keeps.bind standing_moveToNode (fun _ => ?_) w₀ h₀
  refine Keeps.get_bind fun w hw => Keeps.onlyIf (fun h => ?_) w hw
  exact absurd (h₀.state.trans hw.state.symm) h.1

theorem standing_keepState (depth : Nat) : Keeps (Standing o n k) (keepState (depth + 1) o) := by
  refine Keeps.get_bind fun w hw => ?_
  have hskip : ((w.order o).jobChainNode.any fun n => decide (w.action n = .nextState)) ≠ true := by
    rw [hw.jobChainNode]
    simp [hw.action]
  show Standing o n k (final (do
    Exec.onlyIf ((w.order o).jobChainNode.any (fun n => decide (w.action n = .nextState)) = true)
      (clearSetback o)
    setState1 (depth + 1) o (w.order o).state : Method Unit) w)
  rw [show (Exec.onlyIf ((w.order o).jobChainNode.any (fun n => decide (w.action n = .nextState))
    = true) (clearSetback o) : Method Unit) = pure () from if_neg hskip]
  exact standing_setState1 depth hw

/-- The order has left its task, is on no blacklist, and was set back `k` times. -/
def Stays (k : Nat) (x : Order) : Prop :=
  x.task = none ∧ x.setbackCount = k ∧ x.isOnBlacklist = false

theorem Stays.kept (x y : Order) (h : Kept x y) (hx : Stays k x) : Stays k y :=
  ⟨h.task hx.1, h.setbackCount.trans hx.2.1, Bool.eq_false_iff.mpr fun hb =>
    Bool.eq_false_iff.mp hx.2.2 (h.isOnBlacklist hb)⟩

theorem standing_postprocessing2 (depth : Nat) :
    Triple (Standing o n k) (postprocessing2 depth o) (fun _ w => Stays k (w.order o))
      fun _ _ => True := by
  refine Keeps.bind_triple (Keeps.modify fun w hw => ?_) (fun _ _ _ => True.intro) fun _ => ?_
  · exact hw.setOrder ⟨rfl, rfl, rfl, rfl, rfl⟩ rfl rfl rfl
  refine Keeps.bind_triple (Keeps.get_bind fun w hw => ?_) (fun _ _ _ => True.intro) fun _ => ?_
  · rw [hw.targetNode.1, hw.jobChainNode]
    refine Keeps.onlyIf (fun h => ?_) w hw
    rw [hw.action] at h
    cases h
  · refine Triple.consequence (P := fun w => Stays k (w.order o))
      (E := fun _ w => Stays k (w.order o)) ?_ (fun w hw => ⟨hw.task, hw.setbackCount, hw.isOnBlacklist⟩) (fun _ _ h => h)
      fun _ _ _ => True.intro
    exact (Keeps.get_bind_any fun w => Keeps.onlyIf fun _ => kept_close Stays.kept).triple

/-- The order that is not forced keeps what `postprocessing` does not write. -/
theorem Returned.inTask {setsBack force : Bool} (h : Returned x task setsBack force y)
    (hin : InTask w x task n) :
    y.jobChainNode = some n ∧ y.state = some n.node.orderState ∧ y.isOnBlacklist = false
      ∧ y.moved = false ∧ y.endStateReached = false := by
  obtain ⟨_, _, _, _, rfl⟩ := h.stepped
  exact ⟨hin.jobChainNode, hin.state, hin.isOnBlacklist, hin.moved, hin.endStateReached⟩

section Postprocessing

variable {w₁ : World} {force : Bool} (hin : InTask w x task n) (hp : Placed w₁)
  (hchains : SameChains w w₁)
  (hret : Returned x task (setsBack (some n) transition) force (w₁.order o))
  (hrun : (do makeTransition (depth + 1) o transition (some n) force; postprocessing2 (depth + 1) o)
    (w₁.setOrder o fun x => { x with task := none }) = (.ok (), w'))

section

include hret hrun

/-- A forced order goes on as after an error. -/
theorem forced_leaves (hforce : force = true) :
    (do leaveForError (depth + 1) o n transition; postprocessing2 (depth + 1) o)
      (w₁.setOrder o fun x => { x with task := none }) = (.ok (), w') := by
  subst hforce
  have hmake : makeTransition (depth + 1) o transition (some n) true
      (w₁.setOrder o fun x => { x with task := none }) = leaveForError (depth + 1) o n transition
        (w₁.setOrder o fun x => { x with task := none }) := by
    have hsucc : ((w₁.setOrder o fun x => { x with task := none }).order o).isSuccessState
        = false := by
      rw [World.setOrder_order_self, hret.failed rfl]
      rfl
    simp only [makeTransition, makesTransition, leaveState, leaveForError, bind_run, get_run,
      Bool.or_true, if_true, hsucc]
    cases n.node.isOnErrorSuspend <;> simp
  rw [bind_run, ← hmake, ← bind_run]
  exact hrun

omit hret in
theorem idle_after {m : Nat} (hcount : (w₁.order o).setbackCount ≤ m) : Idle m (w'.order o) := by
  refine (Keeps.bind (idle_makeTransition (depth + 1) transition (some n) force) fun _ =>
    idle_postprocessing2 (depth + 1)).triple.of_ok ?_ hrun
  rw [World.setOrder_order_self]
  exact ⟨rfl, hcount⟩

end

include hin hp hchains hret hrun

/-- An order that is set back stays at its node, and keeps its count. -/
theorem setBack_stays (hforce : force = false)
    (hk : 0 < counts x (setsBack (some n) transition)) :
    Stays (counts x (setsBack (some n) transition)) (w'.order o) := by
  subst hforce
  obtain ⟨hnode, hstate, hb, hmoved, hend⟩ := hret.inTask hin
  have hcount := hret.setbackCount rfl
  generalize hw₂ : (w₁.setOrder o fun x => { x with task := none }) = w₂ at hrun
  have hord : w₂.order o = { w₁.order o with task := none } := by
    rw [← hw₂, World.setOrder_order_self]
  have hstanding : Standing o n (counts x (setsBack (some n) transition)) w₂ := by
    refine ⟨hw₂ ▸ hp.same ⟨rfl, rfl, rfl, rfl, rfl⟩, ?_, ?_, ?_, ?_, ?_, ?_⟩
    · rw [hord]
      exact hnode
    · rw [hord]
      exact hstate
    · rw [← hw₂]
      exact (hchains.action n).trans hin.action
    · rw [hord]
    · rw [hord]
      exact hcount
    · rw [hord]
      exact hb
  have hmake : makeTransition (depth + 1) o transition (some n) false w₂
      = keepState (depth + 1) o w₂ := by
    have hset : (w₂.order o).isSetback = true := by
      rw [Order.isSetback, hstanding.setbackCount]
      exact decide_eq_true hk
    have hmoved₂ : (w₂.order o).moved = false := by rw [hord]; exact hmoved
    have hend₂ : (w₂.order o).endStateReached = false := by rw [hord]; exact hend
    simp [makeTransition, makesTransition, bind_run, get_run, hset, hmoved₂, hend₂]
  rw [bind_run, hmake, ← bind_run] at hrun
  exact (Keeps.bind_triple (standing_keepState depth) (fun _ _ _ => True.intro) fun _ =>
    standing_postprocessing2 (depth + 1)).of_ok hstanding hrun

end Postprocessing

/-! ## Whole runs -/

/-- The guard of a step's end, in terms of the order. -/
theorem not_suspended_of_exceeds (ht : (s.world.order o).task = some task)
    (hok : suspendedBeyond o s (.postprocessing transition) = false)
    (hex : exceeds (s.world.order o) task
      (setsBack (s.world.order o).jobChainNode transition) = true) :
    (s.world.order o).suspended = false := by
  cases hs : (s.world.order o).suspended with
  | false => rfl
  | true => simp [suspendedBeyond, hs, ht, hex] at hok

/-- An order that is not set back too often has a count that its job allows. -/
theorem counts_le {b : Bool} (h : exceeds x task b = false) :
    counts x b ≤ task.maxOrderSetbacks := by
  cases b with
  | true => simpa [exceeds, counts] using h
  | false =>
      cases hc : x.setbackCalled with
      | true => simpa [exceeds, counts, hc] using h
      | false => simp [counts, hc]

theorem callsAfter_eq {calls : Nat} {b : Bool} (hx : x.setbackCount = calls)
    (h : exceeds x task b = false) : callsAfter x task b calls = counts x b := by
  rw [callsAfter, counts, hx, if_neg (by rw [h]; nofun)]

/-- `postprocessing` in a reached state. -/
theorem Invariant.postprocessing (h : Invariant o s) (ht : (s.world.order o).task = some task)
    (hok : suspendedBeyond o s (.postprocessing transition) = false)
    (hrun : postprocessing (depth + 1) o transition s.world = (.ok (), w')) :
    Invariant o ⟨w', callsAfter (s.world.order o) task
        (setsBack (s.world.order o).jobChainNode transition) s.calls⟩
      ∧ Settled (depth + 1) o transition task (s.world.order o) w' := by
  have hplaced := placed_postprocessing h.placed hrun
  have hsuspended := not_suspended_of_exceeds ht hok
  obtain ⟨n, hin⟩ := h.inTask task ht
  obtain ⟨force, w₁, hret, hp, hchains, hrest⟩ := postprocessing_ok h.placed hin hrun
  have hforce : force = (!(s.world.order o).suspended
      && exceeds (s.world.order o) task (setsBack (some n) transition)) :=
    hret.forced.trans (hin.isForced_eq _)
  rw [hin.jobChainNode] at hsuspended ⊢
  cases hex : exceeds (s.world.order o) task (setsBack (some n) transition) with
  | true =>
      have hf : force = true := by rw [hforce, hsuspended hex, hex]; rfl
      have hfailed := hret.failed hf
      have hidle : Idle 0 (w'.order o) := idle_after hrest (by rw [hfailed]; exact Nat.le_refl 0)
      have hzero := Nat.le_zero.mp hidle.2
      have hcalls : callsAfter (s.world.order o) task (setsBack (some n) transition) s.calls = 0 :=
        if_pos hex
      refine ⟨⟨hplaced, hzero.trans hcalls.symm, fun _ => hcalls, fun task' ht' => ?_⟩,
        ⟨hidle.1, fun hm => ?_, fun _ => hzero, fun _ _ => ?_⟩⟩
      · rw [hidle.1] at ht'
        cases ht'
      · have := hm.2
        omega
      · refine ⟨n, _, hin.jobChainNode, ?_, forced_leaves hret hrest hf⟩
        rw [World.setOrder_order_self, hfailed]
        rfl
  | false =>
      have hf : force = false := by rw [hforce, hex, Bool.and_false]
      have hcount := hret.setbackCount hf
      have hcalls := callsAfter_eq h.setbackCount hex
      have hidle := idle_after hrest hcount.le
      have hle := counts_le hex
      -- the count is 0 again, or the order stays where it is set back
      have hset : (w'.order o).setbackCount = counts (s.world.order o) (setsBack (some n) transition)
          ∧ ((w'.order o).isOnBlacklist = true →
            counts (s.world.order o) (setsBack (some n) transition) = 0) := by
        obtain hz | hpos :=
          Nat.eq_zero_or_pos (counts (s.world.order o) (setsBack (some n) transition))
        · exact ⟨Nat.le_antisymm hidle.2 (hz ▸ Nat.zero_le _), fun _ => hz⟩
        · obtain ⟨-, hk, hb⟩ := setBack_stays hin hp hchains hret hrest hf hpos
          exact ⟨hk, fun hbl => Bool.noConfusion (hb.symm.trans hbl)⟩
      refine ⟨⟨hplaced, hset.1.trans hcalls.symm, fun hb => hcalls.trans (hset.2 hb),
        fun task' ht' => ?_⟩, ⟨hidle.1, fun hm => ?_, fun h => ?_, fun h => ?_⟩⟩
      · rw [hidle.1] at ht'
        cases ht'
      · have := hm.2
        have := hidle.2
        omega
      · rw [hin.jobChainNode, hex] at h
        cases h
      · rw [hin.jobChainNode, hex] at h
        cases h

/-- What `next` does with the world. -/
theorem step_postprocessing (ht : (s.world.order o).task = some task)
    (h : Step depth o s (.postprocessing transition) s') :
    postprocessing (depth + 1) o transition s.world = (.ok (), s'.world)
      ∧ s'.calls = callsAfter (s.world.order o) task
        (setsBack (s.world.order o).jobChainNode transition) s.calls := by
  simp only [Step, next, ht, Option.map_eq_some_iff] at h
  obtain ⟨w', hafter, rfl⟩ := h
  obtain ⟨_, hrun⟩ := after_eq hafter
  exact ⟨hrun, rfl⟩

theorem Invariant.step {op : Op} (h : Invariant o s)
    (hs : Guarded (fun s op => suspendedBeyond o s op = false) (Step depth o) s op s') :
    Invariant o s' := by
  obtain ⟨hok, hstep⟩ := hs
  cases op with
  | occupy n task time =>
      simp only [Step, next] at hstep
      split at hstep
      · rename_i hmay
        obtain ⟨w', hafter, rfl⟩ := Option.map_eq_some_iff.mp hstep
        obtain ⟨_, hrun⟩ := after_eq hafter
        exact h.occupy hmay hrun
      · cases hstep
  | setback =>
      obtain ⟨w', hafter, rfl⟩ := Option.map_eq_some_iff.mp hstep
      obtain ⟨_, hrun⟩ := after_eq hafter
      exact h.setback hrun
  | setSuspended suspended =>
      obtain ⟨w', hafter, rfl⟩ := Option.map_eq_some_iff.mp hstep
      obtain ⟨_, hrun⟩ := after_eq hafter
      exact h.setSuspended hrun
  | postprocessing transition =>
      cases ht : (s.world.order o).task with
      | none =>
          simp only [Step, next, ht] at hstep
          cases hstep
      | some task =>
          obtain ⟨hrun, hcalls⟩ := step_postprocessing ht hstep
          have := (h.postprocessing ht hok hrun).1
          rw [← hcalls] at this
          exact this
  | elapse time =>
      cases hstep
      exact ⟨Placed.elapse h.placed time, h.setbackCount, h.blacklisted, fun task ht =>
        let ⟨n, hin⟩ := h.inTask task ht
        ⟨n, { hin with }⟩⟩

def sampleWork : Node :=
  { type := .job, orderState := "work", nextState := some "halt", errorState := some "failed" }

/-- A node that suspends its orders after an error. -/
def sampleHalt : Node :=
  { type := .job, orderState := "halt", nextState := none, errorState := some "failed"
    isOnErrorSuspend := true }

def sampleFailed : Node :=
  { type := .job, orderState := "failed", nextState := none, errorState := none }

def sampleChain : Chain where
  path := "/chain"
  state := .active
  nodes := [sampleWork, sampleHalt, sampleFailed]
  action := fun _ => .process
  statesUnique := by decide
  nextKnown := by decide
  errorKnown := by decide
  maxOrders := none
  isStopped := false
  isToBeRemoved := false
  hasInitializedReplacement := false
  ordersAreRecoverable := false
  orderIdSpace := []
  orderMap := ∅
  blacklistMap := ∅
  queue := fun _ => []

/-- No order is in a job chain. -/
def sampleEmpty (state : String) : World where
  order := fun _ => { id := "order", state := some state }
  chain := fun _ => sampleChain
  jobChainOrNull := fun _ => none
  standingOrders := []
  now := 0

/-- The order 0 has been added to the job chain. -/
def sampleStart (state : String) : State := ⟨(addToJobChain 0 0 (sampleEmpty state)).2, 0⟩

theorem sampleEmpty_placed (state : String) : Placed (sampleEmpty state) := fun _ =>
  ⟨fun _ _ => ⟨nofun, nofun⟩, fun _ _ => ⟨nofun, fun h => nomatch h.1⟩, fun _ _ => rfl, nofun,
    nofun, nofun⟩

theorem sampleStart_start (state : String) : Start 0 (sampleStart state) := by
  have C := closed_placed anyMove 0
  have hidle : Idle 0 ((sampleStart state).world.order 0) :=
    idle_addToJobChain 0 (sampleEmpty state) ⟨rfl, Nat.le_refl 0⟩
  refine ⟨(addToJobChain_spec C C (fun _ h => h) True.intro 0).final
    ⟨sampleEmpty_placed state, rfl, False.elim⟩, hidle.1, Nat.le_zero.mp hidle.2, rfl⟩

/-- A job with this maximum and no delays. -/
def sampleTask (maxOrderSetbacks : Nat) : Task := ⟨"Task", maxOrderSetbacks, fun _ => 0⟩

/-- Set back in one step, and once more in the next. -/
def sampleTwice : List Op :=
  [.occupy ⟨0, sampleWork⟩ (sampleTask 1) 0, .setback, .postprocessing (.proceeding 1),
    .occupy ⟨0, sampleWork⟩ (sampleTask 1) 0, .setback]

theorem sampleTwice_runs :
    (runAll (nextIf (fun s op => suspendedBeyond 0 s op = false) (next 0 0)) (sampleStart "work")
      sampleTwice).any (fun s => s.calls = 2) = true := by
  decide +kernel

/-- Suspended in the step in which it is set back too often. -/
def sampleSuspended : List Op :=
  [.occupy ⟨0, sampleWork⟩ (sampleTask 0) 0, .setback, .setSuspended true]

/-- Set back twice in one step. -/
def sampleOneStep : List Op :=
  [.occupy ⟨0, sampleWork⟩ (sampleTask 2) 0, .setback, .setback, .postprocessing (.proceeding 1)]

/-- Set back too often at this node, in a step that ends with this return code. -/
def sampleBeyond (node : Node) (returnCode : Int) : List Op :=
  [.occupy ⟨0, node⟩ (sampleTask 0) 0, .setback, .postprocessing (.proceeding returnCode)]

theorem sampleSuspended_runs :
    (runAll (next 0 0) (sampleStart "work") sampleSuspended).any (fun s =>
      (next 0 0 s (.postprocessing (.proceeding 1))).any fun s' =>
        ((s.world.order 0).task.any fun task => decide (Marked task (s'.world.order 0)))
          && (next 0 0 s' (.setSuspended false)).any fun s'' =>
            decide ((s''.world.order 0).setback = never) && !(s''.world.order 0).suspended)
      = true := by
  decide +kernel

theorem sampleOrders_run :
    (runAll (next 0 0) (sampleStart "work") sampleOneStep).any
      (fun s => (s.world.order 0).setbackCount = 2) = true ∧
    (runAll (next 0 0) (sampleStart "halt") (sampleBeyond sampleHalt 1)).any
      (fun s => (s.world.order 0).state = some "halt" ∧ (s.world.order 0).suspended = true)
      = true ∧
    (runAll (next 0 0) (sampleStart "work") (sampleBeyond sampleWork 0)).any
      (fun s => (s.world.order 0).state = some "halt") = true := by
  refine ⟨?_, ?_, ?_⟩ <;> decide +kernel

end OrderSetback
