import Mathlib.Data.Prod.Lex
import SchedulerEngine.ExecutionProofs
import SchedulerEngine.OrderWorldProofs
import SchedulerEngine.SortedInsertProofs

/-! # Order queues and blacklists

    How an order gets into the queue of a node and out of it, how it is chosen
    from there, and how it gets on the blacklist of its job chain and off it.
    Insertion compares what the orders have at that moment; nothing else sorts a
    queue. -/

namespace OrderQueue

open FileBased (Failure)
open Execution Execution.Exec JobChainNode OrderWorld SortedInsert

/-- A method of an order, a queue or a job chain. -/
abbrev Method := Exec World Failure

/-- Assign to members of an order. -/
def write (o : OrderRef) (f : Order → Order) : Method Unit := modify fun w => w.setOrder o f

/-! ## The place of an order in a queue -/

/-- What `add_order` compares: not suspended before suspended, the earlier
    `_setback` first, the higher `_priority` first. -/
def orderKey (x : Order) : Bool ×ₗ Nat ×ₗ Intᵒᵈ :=
  toLex (x.suspended, toLex (x.setback, OrderDual.toDual x.priority))

/-- Whether the loop of `add_order` goes on at the order `p`, looking for the
    place of `x`: the comparisons of the source, which goes on at equal orders. -/
def goesOn (p x : Order) : Bool :=
  if p.suspended < x.suspended then true
  else if x.suspended < p.suspended then false
  else if p.setback < x.setback then true
  else if x.setback < p.setback then false
  else if x.priority < p.priority then true
  else if p.priority < x.priority then false
  else true

/-- The insertion of `Order_queue::add_order`. -/
def insertOrder (order : OrderRef → Order) (o : OrderRef) : List OrderRef → List OrderRef
  | [] => [o]
  | p :: rest =>
      if goesOn (order p) (order o) then p :: insertOrder order o rest else o :: p :: rest

/-- The loop goes on at the orders whose keys are not greater. -/
theorem goesOn_iff (p x : Order) : goesOn p x = true ↔ orderKey p ≤ orderKey x := by
  simp only [goesOn, orderKey, Prod.Lex.toLex_le_toLex, OrderDual.toDual_le_toDual]
  by_cases h1 : p.suspended < x.suspended
  · simp [h1]
  by_cases h2 : x.suspended < p.suspended
  · simp [h1, h2, h2.ne']
  have hs : p.suspended = x.suspended := le_antisymm (not_lt.mp h2) (not_lt.mp h1)
  by_cases h3 : p.setback < x.setback
  · simp [hs, h3]
  by_cases h4 : x.setback < p.setback
  · simp [hs, h3, h4, h4.ne']
  have hb : p.setback = x.setback := le_antisymm (not_lt.mp h4) (not_lt.mp h3)
  by_cases h5 : x.priority < p.priority
  · simp [hs, hb, h5, h5.le]
  by_cases h6 : p.priority < x.priority
  · simp [hs, hb, h5, h6]
  · have hp : p.priority = x.priority := le_antisymm (not_lt.mp h5) (not_lt.mp h6)
    simp [hs, hb, hp]

/-- `add_order` inserts by the key. -/
theorem insertOrder_eq (order : OrderRef → Order) (o : OrderRef) (l : List OrderRef) :
    insertOrder order o l = insertByKey (fun p => orderKey (order p)) o l := by
  induction l with
  | nil => rfl
  | cons p l ih =>
      by_cases h : goesOn (order p) (order o) = true
      · have hinsert : insertByKey (fun p => orderKey (order p)) o (p :: l)
            = p :: insertByKey (fun p => orderKey (order p)) o l :=
          insertByKey_of_le ((goesOn_iff _ _).mp h)
        rw [hinsert, ← ih]
        exact if_pos h
      · have hinsert : insertByKey (fun p => orderKey (order p)) o (p :: l) = o :: p :: l :=
          insertByKey_of_lt (lt_of_not_ge fun hle => h ((goesOn_iff _ _).mpr hle))
        rw [hinsert]
        exact if_neg h

/-! ## Order_queue -/

/-- `Order_queue::add_order`. -/
def addOrder (n : NodeRef) (o : OrderRef) : Method Unit :=
  modify fun w => (w.setQueue n (insertOrder w.order o)).setOrder o fun x =>
    { x with isInOrderQueue := true }

/-- `Order_queue::remove_order`. -/
def removeOrder (n : NodeRef) (o : OrderRef) : Method Unit := do
  let w ← get
  require (w.order o).isInOrderQueue (.assertion "order->_is_in_order_queue")
  require (o ∈ w.queue n) (.xc "SCHEDULER-156" [w.objName o, w.queueObjName n])
  modify fun w => (w.setQueue n fun q => q.erase o).setOrder o fun x =>
    { x with isInOrderQueue := false }

/-- `Order_queue::reinsert_order`. -/
def reinsertOrder (n : NodeRef) (o : OrderRef) : Method Unit := do
  removeOrder n o
  addOrder n o

/-- `Order_queue::first_immediately_processable_order`: the chosen order's
    `_setback` is cleared where it stands. -/
def firstImmediatelyProcessableOrder (n : NodeRef) (untouchedIsAllowed : Bool) (time : Nat) :
    Method (Option OrderRef) := do
  let w ← get
  match w.firstEligible untouchedIsAllowed time (w.queue n) with
  | some o => do
      write o fun x => { x with setback := 0 }
      pure (some o)
  | none => pure none

/-- `Order_queue::request_order`. -/
def requestOrder (n : NodeRef) (time : Nat) : Method Bool := do
  let w ← get
  let result ← firstImmediatelyProcessableOrder n (w.untouchedIsAllowed n.chain) time
  pure result.isSome

/-- `Order::order_queue`. -/
def orderQueue (o : OrderRef) : Method NodeRef := do
  let w ← get
  match (w.order o).jobChainNode with
  | some n => if n.node.type.isOrderQueue then pure n else throw (.xc "SCHEDULER-163" [])
  | none => throw (.xc "SCHEDULER-163" [])

/-- `if( _is_in_order_queue ) order_queue()->reinsert_order( this )`. -/
def reinsertIfInQueue (o : OrderRef) : Method Unit := do
  let w ← get
  onlyIf (w.order o).isInOrderQueue do
    let n ← orderQueue o
    reinsertOrder n o

/-! ## The blacklist -/

/-- `Order::set_on_blacklist` with `Job_chain::add_order_to_blacklist`. -/
def setOnBlacklist (o : OrderRef) : Method Unit := do
  let w ← get
  match (w.order o).jobChain with
  | none => throw (.function "set_on_blacklist")
  | some c => do
      modify fun w => w.setChain c fun ch =>
        { ch with blacklistMap := ch.blacklistMap.insert (w.order o).id o }
      write o fun x => { x with isOnBlacklist := true }

/-- `Order::remove_from_blacklist` with `Job_chain::remove_order_from_blacklist`. -/
def removeFromBlacklist (o : OrderRef) : Method Unit := do
  let w ← get
  onlyIf (w.order o).isOnBlacklist do
    match (w.order o).jobChain with
    | none => throw (.assertion "_job_chain")
    | some c => do
        modify fun w => w.setChain c fun ch =>
          { ch with blacklistMap := ch.blacklistMap.erase (w.order o).id }
        write o fun x => { x with isOnBlacklist := false }

/-! ## The orders of a job chain -/

/-- `Job_chain::register_order`. -/
def registerOrder (c : ChainRef) (o : OrderRef) : Method Unit := do
  let w ← get
  require ((w.chain c).orderOrNull (w.order o).id).isNone
    (.xc "SCHEDULER-186" [w.objName o, (w.chain c).path])
  modify fun w => w.setChain c fun ch =>
    { ch with orderMap := ch.orderMap.insert (w.order o).id o }

/-- `Job_chain::unregister_order`. -/
def unregisterOrder (c : ChainRef) (o : OrderRef) : Method Unit := do
  let w ← get
  require (!(w.order o).isOnBlacklist) (.assertion "!order->_is_on_blacklist")
  modify fun w => w.setChain c fun ch =>
    { ch with orderMap := ch.orderMap.erase (w.order o).id }

/-- `Order::set_state2`. -/
def setState2 (o : OrderRef) (state : Option String) : Method Unit :=
  write o fun x =>
    let x := { x with state := state }
    if x.initialStateSet then x else { x with initialState := state, initialStateSet := true }

/-- The job chain of an order id space, or the one without, that has an order of
    this id. -/
def chainWithOrderId (w : World) (c : ChainRef) (id : String) : Option ChainRef :=
  (c :: (w.chain c).orderIdSpace).find? fun d => ((w.chain d).orderOrNull id).isSome

/-- `Job_chain::add_order`. -/
def addToJobChain (c : ChainRef) (o : OrderRef) : Method Unit := do
  let w ← get
  match chainWithOrderId w c (w.order o).id with
  | some d => throw (.xc "SCHEDULER-186" [w.objName o, (w.chain d).path])
  | none => do
      let node ← Exec.ofExcept ((w.chain c).referencedNodeFromState (w.order o).state)
      onlyIf ((w.order o).state ≠ some node.orderState) (setState2 o (some node.orderState))
      let w ← get
      require (((w.order o).suspended && (w.order o).isOnBlacklist) || node.type.isOrderQueue)
        (.xc "SCHEDULER-149" [(w.chain c).path, debugString (w.order o).state])
      write o fun x =>
        { x with jobChain := some c, jobChainPath := (w.chain c).path, removedFromJobChainPath := "" }
      registerOrder c o
      if (w.order o).isOnBlacklist then setOnBlacklist o
      else if node.type.isOrderQueue then do
        write o fun x => { x with jobChainNode := some ⟨c, node⟩ }
        addOrder ⟨c, node⟩ o
      else setOnBlacklist o

/-- `Job_chain::remove_order`. -/
def removeFromChain (c : ChainRef) (o : OrderRef) : Method Unit := do
  let w ← get
  require ((w.order o).jobChain = some c) (.assertion "order->_job_chain == this")
  removeFromBlacklist o
  onlyIf (w.order o).jobChainNode.isSome do
    onlyIf (w.order o).isInOrderQueue do
      let n ← orderQueue o
      removeOrder n o
    write o fun x => { x with jobChainNode := none }
  write o fun x => { x with jobChain := none, jobChainPath := "" }
  unregisterOrder c o
  onlyIf (w.order o).task.isSome
    (write o fun x => { x with removedFromJobChainPath := (w.chain c).path, moved := true })

end OrderQueue
