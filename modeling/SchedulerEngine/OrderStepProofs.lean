import SchedulerEngine.OrderMoveProofs

/-! # Steps of orders and job chains

    A task takes an order out of a queue, works on it and gives it back with a
    state transition.  These methods and the ones users and other objects call
    are the operations of a run. -/

namespace OrderStep

open FileBased (Failure)
open Execution Execution.Exec JobChainNode OrderWorld OrderQueue OrderMove

/-! ## Taking an order -/

/-- `Order::touch`. -/
def touch (o : OrderRef) : Method Unit :=
  write o fun x =>
    { x with
      isTouched := true
      isNestedTouched := if x.outerJobChainPath ≠ "" then true else x.isNestedTouched }

/-- `Order::occupy_for_task`. -/
def occupyForTask (o : OrderRef) (task : Task) : Method Unit := do
  let w ← get
  match (w.order o).task with
  | some other => throw (.xc "SCHEDULER-217" [w.objName o, other.objName, "occupy_for_task"])
  | none => do
      require (!(w.order o).moved) (.xc "SCHEDULER-0" [w.objName o ++ " _moved=true?"])
      write o fun x =>
        { x with setback := 0, setbackCalled := false, moved := false, task := some task }
      touch o

/-- `Order::on_occupied`. -/
def onOccupied (o : OrderRef) : Method Unit :=
  write o fun x => { x with isSuccessState := true, endStateReached := false }

/-- `Order_queue::check_orders_for_replacing_or_removing`. -/
def checkOrdersForReplacingOrRemoving (n : NodeRef) : Method Unit := do
  let w ← get
  forEach (fun o => do
    let w ← get
    onlyIf ((w.order o).jobChainPath = (w.chain n.chain).path
        ∧ (w.order o).state = some n.node.orderState)
      (checkForReplacingOrRemoving o)) w.standingOrders

/-- `Order_queue_node::fetch_and_occupy_order`, for the orders of its queue. -/
def fetchAndOccupyOrder (n : NodeRef) (task : Task) (time : Nat) : Method (Option OrderRef) := do
  let w ← get
  if w.orderQueueNodeIsReady n then do
    checkOrdersForReplacingOrRemoving n
    match ← firstImmediatelyProcessableOrder n (w.untouchedIsAllowed n.chain) time with
    | none => pure none
    | some o => do
        occupyForTask o task
        onOccupied o
        pure (some o)
  else pure none

/-! ## Giving an order back -/

/-- `Job_node::cast`. -/
def jobNodeCast (node : Option NodeRef) : Except Failure (Option NodeRef) :=
  match node with
  | none => .ok none
  | some n => if n.node.type.isOrderQueue then .ok (some n) else .error (.function "cast")

/-- The setback that a job node asks for after an error. -/
def setbackOnError (o : OrderRef) (transition : Transition) (jobNode : Option NodeRef) :
    Method Unit :=
  match jobNode with
  | some n =>
      onlyIf (transition ≠ .success ∧ n.node.isOnErrorSetback = true) do
        let _ ← setback o
        pure ()
  | none => pure ()

/-- The first part of `Order::postprocessing`, before the order gives up its task:
    the setback that the node asks for, and the forced error state. -/
def beforeTransition (o : OrderRef) (transition : Transition) (jobNode : Option NodeRef)
    (task : Task) : Method Bool := do
  write o fun x => { x with isSuccessState := decide (transition = .success) }
  setbackOnError o transition jobNode
  write o fun x => if x.setbackCalled then x else { x with setbackCount := 0 }
  let w ← get
  let force := !(w.order o).suspended && decide ((w.order o).setback = never)
    && decide (task.maxOrderSetbacks < (w.order o).setbackCount)
  onlyIf (force = true)
    (write o fun x => { x with isSuccessState := false, setback := 0, setbackCount := 0 })
  pure force

/-- An order at a skipped node moves on. -/
def leaveSkippedNode (depth : Nat) (o : OrderRef) : Method Unit := do
  let w ← get
  match (w.order o).jobChain, (w.order o).jobChainNode with
  | some _, some n => onlyIf (w.action n = .nextState) (setState1 depth o (w.order o).state)
  | _, _ => pure ()

/-- `Order::postprocessing2`. -/
def postprocessing2 (depth : Nat) (o : OrderRef) : Method Unit := do
  write o fun x => { x with moved := false }
  leaveSkippedNode depth o
  let w ← get
  onlyIf ((w.order o).removedFromJobChainPath ≠ "") (close o)

/-- Whether `Order::postprocessing` makes a transition to another state. -/
def makesTransition (x : Order) (transition : Transition) (force : Bool) : Bool :=
  (transition ≠ .keep && !x.isSetback && !x.moved && !x.endStateReached) || force

/-- The transition to another state, of an order that has left its task. -/
def leaveState (depth : Nat) (o : OrderRef) (transition : Transition)
    (jobNode : Option NodeRef) : Method Unit := do
  let w ← get
  let x := w.order o
  match jobNode with
  | none => pure ()
  | some n =>
      if x.isSuccessState = false ∧ n.node.isOnErrorSuspend = true then setSuspended o true
      else if x.isSuccessState = true ∧ x.outerJobChainPath = "" ∧ x.state = x.endState then do
        write o fun x => { x with endStateReached := true }
        handleEndState depth o
      else setState1 depth o (n.node.orderStateAfter transition)

/-- No transition: the order stays in its state, or moves on if the node is skipped. -/
def keepState (depth : Nat) (o : OrderRef) : Method Unit := do
  let w ← get
  let isSkipped := (w.order o).jobChainNode.any fun n => w.action n = .nextState
  onlyIf (isSkipped = true) (clearSetback o)
  setState1 depth o (w.order o).state

/-- What `Order::postprocessing` does once the order has left its task. -/
def makeTransition (depth : Nat) (o : OrderRef) (transition : Transition)
    (jobNode : Option NodeRef) (force : Bool) : Method Unit := do
  let w ← get
  if makesTransition (w.order o) transition force then leaveState depth o transition jobNode
  else if (w.order o).endStateReached then handleEndState depth o
  else if (w.order o).moved = false then keepState depth o
  else pure ()

/-- `Order::postprocessing`. -/
def postprocessing (depth : Nat) (o : OrderRef) (transition : Transition) : Method Unit := do
  let w ← get
  match (w.order o).task with
  | none => throw (.assertion "_task")
  | some task => do
      let jobNode ← Exec.ofExcept (jobNodeCast (w.order o).jobChainNode)
      let force ← beforeTransition o transition jobNode task
      write o fun x => { x with task := none }
      makeTransition depth o transition jobNode force
      postprocessing2 depth o

/-! ## Commands -/

/-- The state that `Order::reset` sets: in the job chain of its initial state, the
    order goes to the first node. -/
def resetState (depth : Nat) (o : OrderRef) : Method Unit := do
  let w ← get
  let x := w.order o
  if x.outerJobChainPath = "" then setState depth o x.initialState
  else do
    let outer ← Exec.ofExcept (w.jobChain x.outerJobChainPath)
    match (w.chain outer).nodeFromStateOrNull x.initialState with
    | none => setState depth o x.initialState
    | some node => do
        require (node.type = .jobChain) (.function "cast")
        if w.jobChainOrNull node.nestedJobChainPath = x.jobChain then
          match x.jobChain with
          | none => throw (.assertion "_job_chain")
          | some c => do
              let first ← Exec.ofExcept (firstNode w c)
              setState depth o (some first.orderState)
        else do
          let _ ← moveToNestedJobChain (setState depth) o (some node.orderState) true
          write o fun x => { x with outerJobChainState := x.initialState }

/-- `Order::reset`. -/
def reset (depth : Nat) (o : OrderRef) : Method Unit := do
  let w ← get
  match (w.order o).task with
  | some task => throw (.xc "SCHEDULER-217" [w.objName o, task.objName, "reset"])
  | none => do
      setSuspended o false
      clearSetback o
      resetState depth o
      write o fun x => { x with isNestedTouched := false, isTouched := false }
      setNextStartTime o

/-- `Order::set_end_state`. -/
def setEndState (o : OrderRef) (endState : Option String) : Method Unit := do
  let w ← get
  match endState, (w.order o).jobChain with
  | some s, some c => do
      let _ ← Exec.ofExcept ((w.chain c).referencedNodeFromState (some s))
      pure ()
  | _, _ => pure ()
  write o fun x => { x with endState := endState }

/-- Run a method of the node list of a job chain. -/
def onChain {α : Type} (c : ChainRef) (m : Exec JobChain Failure α) : Method α := fun w =>
  ((m (w.chain c).toJobChain).1,
    w.setChain c fun ch => { ch with toJobChain := (m (w.chain c).toJobChain).2 })

/-- What `Order_queue_node::set_action` does for the file-based orders that a skipped
    node kept out of the queues: errors of the search are ignored. -/
def reinsertHomeless (depth : Nat) (c : ChainRef) (o : OrderRef) : Method Unit := do
  let w ← get
  let x := w.order o
  onlyIf (x.fileBasedJobChainPath = (w.chain c).path ∧ x.isTouched = false
      ∧ x.isInOrderQueue = false) do
    write o fun x => { x with isSuccessState := true }
    match (w.chain c).referencedNodeFromState x.initialState with
    | .ok node => onlyIf (node.type.isOrderQueue = true) (setState depth o (some node.orderState))
    | .error _ => pure ()

/-- `Order_queue_node::set_action`. -/
def setAction (depth : Nat) (n : NodeRef) (action : Action) : Method Bool := do
  let w ← get
  let ok ← onChain n.chain (JobChainNode.setAction n.node action)
  onlyIf (ok = true ∧ State.rank .active ≤ (w.chain n.chain).state.rank) do
    onlyIf (w.action n = .nextState) (forEach (reinsertHomeless depth n.chain) w.standingOrders)
    onlyIf (action = .nextState) do
      let w ← get
      let next ← Exec.ofExcept ((w.chain n.chain).referencedNodeFromState (some n.node.orderState))
      let orderList := (w.queue n).filter fun o =>
        (w.order o).state = some n.node.orderState && (w.order o).task.isNone
      forEach (fun o => do
        write o fun x => { x with isSuccessState := true }
        setState1 depth o (some next.orderState)) orderList
  pure ok

end OrderStep
