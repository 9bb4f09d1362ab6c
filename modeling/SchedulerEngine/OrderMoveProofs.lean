import SchedulerEngine.OrderQueueProofs

/-! # The methods of an order

    How an order changes its state and with it its node, what happens at its
    end, and what follows a step in a task.  `set_state1` and `handle_end_state`
    call each other; `depth` limits how deep, as the stack does. -/

namespace OrderMove

open FileBased (Failure)
open Execution Execution.Exec JobChainNode OrderWorld OrderQueue

/-! ## Closing and removing -/

/-- `Order::set_replacement`. -/
def setReplacement (o : OrderRef) (b : Bool) : Method Unit :=
  write o fun x => { x with isReplacement := b }

/-- `if( _job_chain ) _job_chain->remove_order( this )`. -/
def leaveJobChain (o : OrderRef) : Method Unit := do
  let w ← get
  match (w.order o).jobChain with
  | some c => removeFromChain c o
  | none => pure ()

/-- `Order::close`. -/
def close (o : OrderRef) : Method Unit := do
  write o fun x => { x with task := none }
  setReplacement o false
  leaveJobChain o

/-- `Order::remove_from_job_chain_stack`. -/
def removeFromJobChainStack (o : OrderRef) : Method Unit :=
  write o fun x => { x with outerJobChainPath := "", outerJobChainState := none }

/-- `Order::remove_from_job_chain`; `fromStack` is `jc_remove_from_job_chain_stack`. -/
def removeFromJobChain (o : OrderRef) (fromStack : Bool) : Method Unit := do
  let w ← get
  onlyIf ((w.order o).jobChainPath ≠ "") (write o fun x => { x with isInDatabase := false })
  leaveJobChain o
  write o fun x => { x with setbackCount := 0, setback := 0 }
  setReplacement o false
  write o fun x => { x with jobChain := none, jobChainPath := "" }
  onlyIf (fromStack = true) do
    removeFromJobChainStack o
    let w ← get
    onlyIf ((w.order o).task.isNone = true) (close o)

/-! ## Start times, suspension, priority -/

/-- `Order::set_setback`. -/
def setSetback (o : OrderRef) (time : Nat) (keepSetbackCount : Bool) : Method Unit := do
  let w ← get
  let startTime := if w.now < time then time else 0
  onlyIf ((w.order o).setback ≠ startTime) do
    write o fun x => { x with setback := startTime }
    reinsertIfInQueue o
  onlyIf (keepSetbackCount = false) (write o fun x => { x with setbackCount := 0 })

/-- `Order::clear_setback`. -/
def clearSetback (o : OrderRef) : Method Unit := do
  let w ← get
  onlyIf (0 < (w.order o).setbackCount) (setSetback o 0 false)

/-- `Order::set_at`. -/
def setAt (o : OrderRef) (time : Nat) : Method Unit := do
  let w ← get
  match (w.order o).task with
  | some task => throw (.xc "SCHEDULER-217" [w.objName o, task.objName, "set_at"])
  | none => do
      require (!(w.order o).moved) (.xc "SCHEDULER-188" [w.objName o])
      setSetback o time false

/-- `Order::set_at_after_delay`. -/
def setAtAfterDelay (o : OrderRef) (time : Nat) : Method Unit := setSetback o time true

/-- `Order::set_suspended`. -/
def setSuspended (o : OrderRef) (suspended : Bool) : Method Unit := do
  let w ← get
  onlyIf ((w.order o).suspended ≠ suspended) do
    write o fun x => { x with suspended := suspended }
    onlyIf ((w.order o).jobChain.isSome = true) do
      if (w.order o).isOnBlacklist && !suspended then removeFromJobChain o true
      else reinsertIfInQueue o

/-- `Order::set_priority`. -/
def setPriority (o : OrderRef) (priority : Int) : Method Unit := do
  let w ← get
  onlyIf ((w.order o).priority ≠ priority) do
    write o fun x => { x with priority := priority }
    onlyIf ((w.order o).task.isNone = true) (reinsertIfInQueue o)

/-- `Order::setback`. -/
def setback (o : OrderRef) : Method Bool := do
  let w ← get
  match (w.order o).task with
  | none => throw (.xc "SCHEDULER-187" [])
  | some task => do
      require (!(w.order o).moved) (.xc "SCHEDULER-188" [w.objName o])
      require (w.order o).jobChain.isSome (.xc "SCHEDULER-157" [w.objName o])
      let n ← orderQueue o
      let count := (w.order o).setbackCount + 1
      let delay := task.delayOrderAfterSetback count
      let time :=
        if count ≤ task.maxOrderSetbacks then
          if delay ≠ 0 then min never (w.now + delay) else 0
        else never
      write o fun x => { x with setbackCount := count, setbackCalled := true, setback := time }
      reinsertOrder n o
      pure (decide (count ≤ task.maxOrderSetbacks))

/-! ## Nodes and states -/

/-- `Order::set_job_chain_node`. -/
def setJobChainNode (o : OrderRef) (node : Option NodeRef) : Method Unit := do
  write o fun x => { x with jobChainNode := node }
  match node with
  | none => setState2 o none
  | some n => do
      onlyIf (n.node.isSuspendingOrder = true) (setSuspended o true)
      let w ← get
      onlyIf (n.node.delay ≠ 0 ∧ (w.order o).setback = 0)
        (setAtAfterDelay o (min never (w.now + n.node.delay)))
      setState2 o (some n.node.orderState)

/-- `Order::move_to_node`. -/
def moveToNode (o : OrderRef) (node : Option NodeRef) : Method Unit := do
  let w ← get
  require (w.order o).jobChain.isSome (.xc "SCHEDULER-157" [w.objName o])
  let isSameNode := node = (w.order o).jobChainNode
  onlyIf ((w.order o).task.isSome = true) (write o fun x => { x with moved := true })
  onlyIf (¬isSameNode ∧ (w.order o).jobChainNode.isSome ∧ (w.order o).isInOrderQueue) do
    let q ← orderQueue o
    removeOrder q o
    write o fun x => { x with jobChainNode := none }
  setJobChainNode o node
  match node with
  | some n => onlyIf (¬isSameNode ∧ n.node.type.isOrderQueue) (addOrder n o)
  | none => pure ()

/-- The node of a job chain that `set_state1` moves to: none for no state. -/
def targetNode (w : World) (c : ChainRef) (state : Option String) :
    Except Failure (Option NodeRef) :=
  match state with
  | none => .ok none
  | some s => ((w.chain c).referencedNodeFromState (some s)).map fun n => some ⟨c, n⟩

/-- The last part of `Order::set_state1`, with the state from before. -/
def endIfAtEnd (handleEndState : OrderRef → Method Unit) (o : OrderRef)
    (previousState : Option String) : Method Unit := do
  let w ← get
  onlyIf (previousState ≠ (w.order o).state
      ∧ ((w.order o).jobChainNode.map fun n => n.node.type).getD .endNode = .endNode)
    (handleEndState o)

/-- `Order::set_state1`; `handleEndState` is what it calls at the end. -/
def setState1With (handleEndState : OrderRef → Method Unit) (o : OrderRef)
    (state : Option String) : Method Unit := do
  let w ← get
  match (w.order o).jobChain with
  | none => setState2 o state
  | some c => do
      let node ← Exec.ofExcept (targetNode w c state)
      moveToNode o node
      endIfAtEnd handleEndState o (w.order o).state

/-- `Order::set_state`, before `set_state1`. -/
def setStateWith (setState1 : OrderRef → Option String → Method Unit) (o : OrderRef)
    (state : Option String) : Method Unit := do
  clearSetback o
  removeFromBlacklist o
  setState1 o state

/-! ## Placing an order in a job chain -/

/-- `Order::set_next_start_time`. -/
def setNextStartTime (o : OrderRef) : Method Unit := do
  let w ← get
  if (w.order o).isTouched then setSetback o (w.order o).setback false
  else setSetback o (w.order o).firstStartTime false

/-- `Order::activate_schedule`. -/
def activateSchedule (o : OrderRef) : Method Unit := do
  let w ← get
  onlyIf ((w.order o).schedule.isIncomplete = false) do
    if (w.order o).setback ≠ 0 then setSetback o (w.order o).setback false
    else setNextStartTime o

/-- `Job_chain::first_node`. -/
def firstNode (w : World) (c : ChainRef) : Except Failure Node :=
  match (w.chain c).nodes with
  | n :: _ => .ok n
  | [] => .error (.assertion "0")

/-- The loop of `Order::nested_job_chain`, with `i` rounds left. -/
def nestedJobChainLoop (o : OrderRef) (outer : ChainRef) (success : Bool) :
    Nat → Method (Option ChainRef)
  | 0 => pure none
  | i + 1 => do
      let w ← get
      match (w.chain outer).nodeFromStateOrNull (w.order o).outerJobChainState with
      | none => pure none
      | some outerNode =>
          if outerNode.type = .jobChain then
            match w.jobChainOrNull outerNode.nestedJobChainPath with
            | none => pure none
            | some nested => do
                let first ← Exec.ofExcept (firstNode w nested)
                let node ← Exec.ofExcept
                  ((w.chain nested).referencedNodeFromState (some first.orderState))
                if node.type.isOrderQueue then pure (some nested)
                else do
                  -- the nested job chain is empty or all its nodes are skipped
                  write o fun x => { x with
                    outerJobChainState :=
                      if success then outerNode.nextState else outerNode.errorState }
                  nestedJobChainLoop o outer success i
          else pure none

/-- `Order::nested_job_chain`. -/
def nestedJobChain (o : OrderRef) (outerState : Option String) (success : Bool) :
    Method (Option ChainRef) := do
  let w ← get
  let outer ← Exec.ofExcept (w.jobChain (w.order o).outerJobChainPath)
  write o fun x => { x with outerJobChainState := outerState }
  nestedJobChainLoop o outer success 99999

/-- Whether `try_place_in_job_chain` finds no other order of this id. -/
def isNewIn (w : World) (c : ChainRef) (o : OrderRef) : Bool :=
  match chainWithOrderId w c (w.order o).id with
  | none => true
  | some d =>
      (w.chain c).orderIdSpace ≠ [] && (w.chain d).orderOrNull (w.order o).id = some o
        && (w.order o).jobChainPath ≠ (w.chain c).path

/-- The job chain and the node that `try_place_in_job_chain` places an order in: a
    nested job chain's first node, where the order's node is a nested job chain. -/
def placeToBe (c : ChainRef) (o : OrderRef) : Method (ChainRef × Node) := do
  let w ← get
  let node ← Exec.ofExcept ((w.chain c).nodeFromState (w.order o).state)
  if node.type = .jobChain then do
    require ((w.order o).outerJobChainPath = "") (.xc "SCHEDULER-412" [])
    write o fun x => { x with
      outerJobChainPath := (w.chain c).path, outerJobChainState := (w.order o).state }
    match ← nestedJobChain o (some node.orderState) true with
    | none => throw (.xc "SCHEDULER-438" [node.orderState])
    | some nested => do
        let w ← get
        let node ← Exec.ofExcept (firstNode w nested)
        write o fun x => { x with state := some node.orderState }
        pure (nested, node)
  else pure (c, node)

/-- `Order::try_place_in_job_chain` of a new order, after the test for its id. -/
def placeNew (o : OrderRef) (c : ChainRef) (fromStack : Bool) : Method Unit := do
  let w ← get
  onlyIf ((w.order o).jobChainPath ≠ "") (removeFromJobChain o fromStack)
  let w ← get
  require (w.order o).jobChain.isNone (.assertion "!_job_chain")
  onlyIf ((w.order o).state = none) do
    let first ← Exec.ofExcept (firstNode w c)
    setState2 o (some first.orderState)
  let w ← get
  let node ← Exec.ofExcept ((w.chain c).nodeFromState (w.order o).state)
  onlyIf (fromStack = true) (removeFromJobChainStack o)
  let (c, placeNode) ← placeToBe c o
  let w ← get
  let referenced ← Exec.ofExcept ((w.chain c).referencedNodeFromState (w.order o).state)
  onlyIf (referenced ≠ placeNode) (setState2 o (some referenced.orderState))
  require referenced.type.isOrderQueue (.xc "SCHEDULER-438" [referenced.orderState])
  onlyIf (node.isSuspendingOrder ∨ referenced ≠ placeNode ∧ referenced.isSuspendingOrder)
    (write o fun x => { x with suspended := true })
  write o fun x => { x with jobChainPath := (w.chain c).path, removedFromJobChainPath := "" }
  activateSchedule o
  onlyIf ((w.chain c).ordersAreRecoverable ∧ (w.order o).isFileBased = false)
    (write o fun x => { x with isInDatabase := true })
  addToJobChain c o

/-- `Order::try_place_in_job_chain`. -/
def tryPlaceInJobChain (o : OrderRef) (c : ChainRef) (fromStack existsException : Bool) :
    Method Bool := do
  let w ← get
  require ((w.chain c).state = .loaded || (w.chain c).state = .active) (.xc "SCHEDULER-151" [])
  onlyIf ((w.order o).outerJobChainPath = "" ∧ (w.order o).endState ≠ none) do
    let _ ← Exec.ofExcept ((w.chain c).referencedNodeFromState (w.order o).endState)
    pure ()
  let isNew := isNewIn w c o
  require (isNew || !existsException) (.xc "SCHEDULER-186" [w.objName o, (w.chain c).path])
  onlyIf (isNew = true) (placeNew o c fromStack)
  pure isNew

/-- `Order::place_in_job_chain`. -/
def placeInJobChain (o : OrderRef) (c : ChainRef) (fromStack : Bool) : Method Unit := do
  let _ ← tryPlaceInJobChain o c fromStack true
  pure ()

/-! ## The end of an order -/

/-- `Order::end_state_reached`. -/
def endStateReached (w : World) (o : OrderRef) : Bool :=
  let x := w.order o
  x.endStateReached
    || (match (match x.jobChain with
        | some c => some c
        | none => if x.jobChainPath = "" then none else w.jobChainOrNull x.jobChainPath) with
      | none => false
      | some c =>
          match (w.chain c).nodeFromStateOrNull x.state with
          | some n => n.type = .endNode
          | none => true)

/-- `Order::order_is_removable_or_replaceable`. -/
def isRemovableOrReplaceable (w : World) (o : OrderRef) : Bool :=
  let x := w.order o
  x.task.isNone
    && (x.jobChainPath = "" || !x.isTouched || endStateReached w o
      || (match w.jobChainOrNull x.jobChainPath with
        | none => true
        | some c => (w.chain c).isToBeRemoved))

/-- `File_based::check_for_replacing_or_removing` of an order, acting now: errors
    are logged. A replaced order is closed; its replacement is placed later. -/
def checkForReplacingOrRemoving (o : OrderRef) : Method Unit :=
  tryCatch (do
    let w ← get
    onlyIf (isRemovableOrReplaceable w o = true) do
      match (w.order o).fileChange with
      | .unchanged => pure ()
      | .toBeRemoved => removeFromJobChain o true
      | .toBeReplaced => close o) fun _ => pure ()

/-- The state in a nested job chain, which the order may be in already. -/
def enterNested (setState : OrderRef → Option String → Method Unit) (o : OrderRef)
    (next : ChainRef) : Method Unit := do
  let w ← get
  if (w.chain next).path = (w.order o).jobChainPath then do
    let first ← Exec.ofExcept (firstNode w next)
    setState o (some first.orderState)
  else placeInJobChain o next false

/-- `Order::move_to_nested_job_chain` to a job chain. -/
def moveToNested (setState : OrderRef → Option String → Method Unit) (o : OrderRef)
    (next : ChainRef) : Method Unit := do
  let w ← get
  write o fun x => { x with state := none }
  enterNested setState o next
  write o fun x => { x with outerJobChainPath := (w.order o).outerJobChainPath }

/-- `Order::move_to_nested_job_chain` to the job chain of an outer state. -/
def moveToNestedJobChain (setState : OrderRef → Option String → Method Unit) (o : OrderRef)
    (outerState : Option String) (success : Bool) : Method Bool := do
  match ← nestedJobChain o outerState success with
  | some next => do
      moveToNested setState o next
      pure true
  | none => pure false

/-- `Order::handle_end_state_of_nested_job_chain`. -/
def handleEndStateOfNestedJobChain (setState : OrderRef → Option String → Method Unit)
    (o : OrderRef) : Method Bool := do
  write o fun x => { x with isNestedTouched := false }
  tryCatch (do
    let w ← get
    let x := w.order o
    if x.outerJobChainState = x.endState then pure true
    else do
      let outer ← Exec.ofExcept (w.jobChain x.outerJobChainPath)
      let outerNode ← Exec.ofExcept ((w.chain outer).nodeFromState x.outerJobChainState)
      let next := if x.isSuccessState then outerNode.nextState else outerNode.errorState
      let moved ← moveToNestedJobChain setState o next x.isSuccessState
      pure (!moved)) fun _ => do
    removeFromJobChain o true
    close o
    pure false

/-- The first part of `Order::handle_end_state_repeat_order`: an order of a nested
    job chain leaves it. -/
def repeatOuterState (o : OrderRef) : Method (Option String) := do
  let w ← get
  let x := w.order o
  if x.outerJobChainPath = "" then pure none
  else do
    let outer ← Exec.ofExcept (w.activeJobChain x.outerJobChainPath)
    let node ← Exec.ofExcept ((w.chain outer).nodeFromState x.initialState)
    removeFromJobChain o false
    pure (if node.type = .jobChain then x.initialState else none)

/-- The second part, from the initial state on. -/
def repeatFrom (setState : OrderRef → Option String → Method Unit) (o : OrderRef)
    (nextStart : Nat) (outerState : Option String) : Method Unit := do
  let w ← get
  match outerState with
  | none => do
      setState o (w.order o).initialState
      setSetback o nextStart false
  | some s => do
      write o fun x => { x with outerJobChainState := x.initialState }
      match ← nestedJobChain o (some s) true with
      | none => throw (.function "nested_job_chain")
      | some nested => do
          let w ← get
          let first ← Exec.ofExcept (firstNode w nested)
          setState o (some first.orderState)
          setSetback o nextStart false
          placeInJobChain o nested false

/-- `Order::handle_end_state_repeat_order`; errors of the last part are logged. -/
def handleEndStateRepeatOrder (setState : OrderRef → Option String → Method Unit)
    (o : OrderRef) (nextStart : Nat) : Method Unit := do
  let outerState ← repeatOuterState o
  tryCatch (repeatFrom setState o nextStart outerState) fun _ => pure ()

/-- What `handle_end_state` does with an order that is not repeated: it stays on
    the blacklist, or leaves its job chain. -/
def blacklistOrRemove (o : OrderRef) : Method Unit := do
  let w ← get
  onlyIf ((w.order o).jobChain.isSome = true) do
    onlyIf ((w.order o).file = .agentFile ∨ (w.order o).file = .localFile true) (setOnBlacklist o)
    onlyIf ((w.order o).suspended = true) (setOnBlacklist o)
  let w ← get
  onlyIf ((w.order o).isOnBlacklist = false) do
    removeFromJobChain o true
    close o

/-- Whether an order starts again at its end: it has a configuration file or a next
    start, and is not where it started. -/
def Order.isRepeated (x : Order) : Bool :=
  let s := if x.outerJobChainPath ≠ "" then x.outerJobChainState else x.state
  (x.isFileBased || x.nextStartTime ≠ never || x.schedule.isIncomplete)
    && (s ≠ x.initialState || x.initialState = x.endState)

/-- Whether the order has reached the end of all its job chains. -/
def isRealEndState (setState : OrderRef → Option String → Method Unit) (o : OrderRef) :
    Method Bool := do
  let w ← get
  if (w.order o).outerJobChainPath = "" then pure true
  else handleEndStateOfNestedJobChain setState o

/-- The end of all job chains: the order starts again, stays on the blacklist, or
    leaves its job chain. -/
def repeatOrEnd (setState : OrderRef → Option String → Method Unit) (o : OrderRef) :
    Method Unit := do
  let w ← get
  if Order.isRepeated (w.order o) then do
    write o fun x => { x with isTouched := false }
    handleEndStateRepeatOrder setState o (w.order o).nextStartTime
  else blacklistOrRemove o

/-- `Order::handle_end_state`. -/
def handleEndStateWith (setState : OrderRef → Option String → Method Unit) (o : OrderRef) :
    Method Unit := do
  if ← isRealEndState setState o then do
    repeatOrEnd setState o
    checkForReplacingOrRemoving o
  else write o fun x => { x with endStateReached := false }

/-- `Order::set_state1`. -/
def setState1 : Nat → OrderRef → Option String → Method Unit
  | 0 => fun _ _ => throw (.function "stack overflow")
  | depth + 1 => setState1With (handleEndStateWith (setStateWith (setState1 depth)))

/-- `Order::set_state`. -/
def setState (depth : Nat) : OrderRef → Option String → Method Unit :=
  setStateWith (setState1 depth)

/-- `Order::handle_end_state`. -/
def handleEndState (depth : Nat) : OrderRef → Method Unit :=
  handleEndStateWith (setState depth)

/-- `Order::set_state` with a start time. -/
def setStateAt (depth : Nat) (o : OrderRef) (state : Option String) (time : Nat) :
    Method Unit := do
  setState depth o state
  setSetback o time false

end OrderMove
