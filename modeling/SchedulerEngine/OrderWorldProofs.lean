import Mathlib.Algebra.GroupWithZero.Nat
import Mathlib.Data.List.AList
import SchedulerEngine.JobChainNodeProofs

/-! # Orders, their job chains and queues

    An `Order` is in at most one `Job_chain`, under its id in the chain's
    `_order_map`.  There it stands in the queue of its node, or on the chain's
    blacklist.  Orders and job chains refer to each other by pointers; here a
    pointer is a number, and a world says what every pointer refers to.  Job
    chains are not distributed. -/

namespace OrderWorld

open FileBased (Failure)
open JobChainNode

/-- `Time::never`, in milliseconds. -/
def never : Nat := 2147483647000

/-- The task that processes an order, with what the order asks its job. -/
structure Task where
  objName : String
  maxOrderSetbacks : Nat
  delayOrderAfterSetback : Nat → Nat

/-- What an order asks its `Schedule_use`. -/
structure Schedule where
  isDefined : Bool := false
  isIncomplete : Bool := false
  firstStart : Nat := never
  nextStart : Nat := never

/-- The file of a file order. -/
inductive OrderFile where
  | noFile
  | localFile (fileExists : Bool)
  | agentFile
  deriving DecidableEq

/-- A change of the configuration file of a file-based order that waits for
    `check_for_replacing_or_removing`. -/
inductive FileChange where
  | unchanged
  | toBeRemoved
  | toBeReplaced
  deriving DecidableEq

/-- A pointer to an order. -/
abbrev OrderRef := Nat

/-- A pointer to a job chain. -/
abbrev ChainRef := Nat

/-- A pointer to a node of a job chain. -/
structure NodeRef where
  chain : ChainRef
  node : Node
  deriving DecidableEq

/-- An `Order`. Times are milliseconds, 0 is `Time(0)`, and an empty state is
    `none`. -/
structure Order where
  id : String := ""
  title : String := ""
  state : Option String := none
  initialState : Option String := none
  initialStateSet : Bool := false
  endState : Option String := none
  priority : Int := 0
  suspended : Bool := false
  setback : Nat := 0
  setbackCount : Nat := 0
  setbackCalled : Bool := false
  task : Option Task := none
  moved : Bool := false
  isTouched : Bool := false
  isNestedTouched : Bool := false
  ignoreMaxOrders : Bool := false
  isOnBlacklist : Bool := false
  isInOrderQueue : Bool := false
  isReplacement : Bool := false
  isInDatabase : Bool := false
  isFileBased : Bool := false
  fileBasedJobChainPath : String := ""
  jobChain : Option ChainRef := none
  jobChainPath : String := ""
  jobChainNode : Option NodeRef := none
  removedFromJobChainPath : String := ""
  outerJobChainPath : String := ""
  outerJobChainState : Option String := none
  endStateReached : Bool := false
  isSuccessState : Bool := false
  schedule : Schedule := {}
  file : OrderFile := .noFile
  fileChange : FileChange := .unchanged

/-- A `Job_chain` with its orders: `none` as `maxOrders` is `INT_MAX`, and
    `orderIdSpace` are the other job chains of its `_order_id_space`. -/
structure Chain extends JobChain where
  maxOrders : Option Nat
  isStopped : Bool
  isToBeRemoved : Bool
  hasInitializedReplacement : Bool
  ordersAreRecoverable : Bool
  orderIdSpace : List ChainRef
  orderMap : AList fun _ : String => OrderRef
  blacklistMap : AList fun _ : String => OrderRef
  queue : String → List OrderRef

/-- All orders and job chains, the job chains by their paths, the file-based
    orders, and the time. -/
structure World where
  order : OrderRef → Order
  chain : ChainRef → Chain
  jobChainOrNull : String → Option ChainRef
  standingOrders : List OrderRef
  now : Nat

/-! ## Questions to an order -/

/-- `Order::is_touched_in_current_job_chain`. -/
def Order.isTouchedInCurrentJobChain (x : Order) : Bool :=
  if x.outerJobChainPath = "" then x.isTouched else x.isNestedTouched

/-- `Order::is_self_processable`. -/
def Order.isSelfProcessable (x : Order) : Bool :=
  !x.isOnBlacklist && !x.suspended && x.task.isNone && !x.isReplacement
    && !x.schedule.isIncomplete

/-- `Order::next_start_time`. -/
def Order.nextStartTime (x : Order) : Nat :=
  if x.schedule.isDefined then x.schedule.nextStart else never

/-- `Order::first_start_time`. -/
def Order.firstStartTime (x : Order) : Nat :=
  if x.schedule.isDefined then x.schedule.firstStart else never

/-- `Order::is_setback`. -/
def Order.isSetback (x : Order) : Bool := 0 < x.setbackCount

/-! ## Questions to a job chain -/

/-- `Job_chain::is_ready_for_order_processing`. -/
def Chain.isReadyForOrderProcessing (c : Chain) : Bool :=
  !c.isToBeRemoved && !c.hasInitializedReplacement && c.state = .active && !c.isStopped

/-- `Job_chain::order_or_null`. -/
def Chain.orderOrNull (c : Chain) (id : String) : Option OrderRef := c.orderMap.lookup id

/-- `Job_chain::contains_nested_job_chains`. -/
def Chain.containsNestedJobChains (c : Chain) : Bool :=
  c.nodes.any fun n => n.type = .jobChain

/-- `Absolute_path::without_slash`. -/
def withoutSlash (path : String) : String := (path.drop 1).toString

namespace World


/-- The queue of a node. -/
def queue (w : World) (n : NodeRef) : List OrderRef := (w.chain n.chain).queue n.node.orderState

/-- `_action` of a node. -/
def action (w : World) (n : NodeRef) : Action := (w.chain n.chain).action n.node.orderState

/-- `Order_subsystem::job_chain`. -/
def jobChain (w : World) (path : String) : Except Failure ChainRef :=
  match w.jobChainOrNull path with
  | some c => .ok c
  | none => .error (.xc "SCHEDULER-161" ["Job_chain", path])

/-- `Order_subsystem::active_job_chain`. -/
def activeJobChain (w : World) (path : String) : Except Failure ChainRef :=
  match w.jobChain path with
  | .ok c =>
      if (w.chain c).state = .active then .ok c
      else .error (.xc "SCHEDULER-153" ["Job_chain " ++ path, "active"])
  | .error e => .error e

/-- `Order::job_chain_for_api`. -/
def jobChainForApi (w : World) (x : Order) : Option ChainRef :=
  match x.jobChain with
  | some c => some c
  | none =>
      if x.removedFromJobChainPath ≠ "" then w.jobChainOrNull x.removedFromJobChainPath
      else if x.jobChainPath ≠ "" then w.jobChainOrNull x.jobChainPath
      else none

/-- `Order::obj_name`. -/
def objName (w : World) (o : OrderRef) : String :=
  let x := w.order o
  "Order " ++ (match w.jobChainForApi x with
      | some c => withoutSlash (w.chain c).path ++ ":"
      | none => "")
    ++ x.id ++ (if x.title ≠ "" then " \"" ++ x.title ++ "\"" else "")

/-- `Order_queue::obj_name`. -/
def queueObjName (w : World) (n : NodeRef) : String :=
  "Order_queue " ++ withoutSlash (w.chain n.chain).path ++ ":" ++ n.node.orderState

/-- `Node::is_ready_for_order_processing`, which orders ask. -/
def nodeIsReady (w : World) (n : NodeRef) : Bool := w.action n = .process

/-- `Order_queue_node::is_ready_for_order_processing`, which tasks ask. -/
def orderQueueNodeIsReady (w : World) (n : NodeRef) : Bool :=
  w.action n ≠ .stop && (w.chain n.chain).isReadyForOrderProcessing

/-- `Order::is_processable`. -/
def isProcessable (w : World) (o : OrderRef) : Bool :=
  let x := w.order o
  x.isSelfProcessable
    && (match x.jobChain with
      | some c => (w.chain c).isReadyForOrderProcessing
      | none => true)
    && (match x.jobChainNode with
      | some n => w.nodeIsReady n
      | none => true)

/-- `Order::is_immediately_processable`. -/
def isImmediatelyProcessable (w : World) (o : OrderRef) (time : Nat) : Bool :=
  (w.order o).setback ≤ time && w.isProcessable o

/-- `Order::next_time`. -/
def nextTime (w : World) (o : OrderRef) : Nat :=
  if w.isProcessable o then (w.order o).setback else never

/-- `Order_queue::number_of_touched_orders_obeying_max_orders`. -/
def queueTouched (w : World) (inCurrent : Bool) (n : NodeRef) : Nat :=
  (w.queue n).countP fun o => !(w.order o).ignoreMaxOrders
    && (if inCurrent then (w.order o).isTouchedInCurrentJobChain else (w.order o).isTouched)

/-- `Job_chain::number_of_touched_orders_obeying_max_orders`. -/
def numberOfTouchedOrders (w : World) (inCurrent : Bool) (c : ChainRef) : Nat :=
  (((w.chain c).nodes.filter fun n => n.type.isOrderQueue).map
    fun n => w.queueTouched inCurrent ⟨c, n⟩).sum

/-- `Job_chain::is_max_orders_reached`. -/
def isMaxOrdersReached (w : World) (c : ChainRef) : Bool :=
  match (w.chain c).maxOrders with
  | none => false
  | some m => m ≤ w.numberOfTouchedOrders true c

/-- `Job_chain::untouched_is_allowed`. -/
def untouchedIsAllowed (w : World) (c : ChainRef) : Bool := !w.isMaxOrdersReached c

/-- The sum that `is_below_this_outer_job_chain_max_orders` compares, if every
    inner job chain is known. -/
def innerTouched (w : World) : List Node → Option Nat
  | [] => some 0
  | n :: rest =>
      if n.type = .jobChain then do
        let c ← w.jobChainOrNull n.nestedJobChainPath
        return w.numberOfTouchedOrders false c + (← innerTouched w rest)
      else innerTouched w rest

/-- `Job_chain::is_below_this_outer_job_chain_max_orders`. -/
def isBelowThisOuterJobChainMaxOrders (w : World) (c : ChainRef) : Bool :=
  match (w.chain c).maxOrders with
  | none => true
  | some m =>
      match w.innerTouched (w.chain c).nodes with
      | some count => count < m
      | none => false

/-- `Order_queue::is_below_outer_chain_max_orders`. -/
def isBelowOuterChainMaxOrders (w : World) (outerJobChainPath : String) : Bool :=
  if outerJobChainPath = "" then true
  else
    match w.jobChainOrNull outerJobChainPath with
    | some c => w.isBelowThisOuterJobChainMaxOrders c
    | none => false

/-- Whether the limits on touched orders let the order be chosen. -/
def obeysMaxOrders (w : World) (untouchedIsAllowed : Bool) (o : OrderRef) : Bool :=
  let x := w.order o
  x.ignoreMaxOrders
    || ((x.isTouched || w.isBelowOuterChainMaxOrders x.outerJobChainPath)
      && (x.isTouchedInCurrentJobChain || untouchedIsAllowed))

/-- The search of `Order_queue::first_immediately_processable_order`. -/
def firstEligible (w : World) (untouchedIsAllowed : Bool) (time : Nat) :
    List OrderRef → Option OrderRef
  | [] => none
  | o :: rest =>
      if w.isImmediatelyProcessable o time && w.obeysMaxOrders untouchedIsAllowed o then some o
      else if time < (w.order o).setback then none
      else firstEligible w untouchedIsAllowed time rest

/-- `Order_queue::next_time`: the first processable order's. -/
def queueNextTime (w : World) (n : NodeRef) : Nat :=
  match (w.queue n).find? w.isProcessable with
  | some o => w.nextTime o
  | none => never

/-! ## Writing -/

/-- Change one order. -/
def setOrder (w : World) (o : OrderRef) (f : Order → Order) : World :=
  { w with order := Function.update w.order o (f (w.order o)) }

/-- Change one job chain. -/
def setChain (w : World) (c : ChainRef) (f : Chain → Chain) : World :=
  { w with chain := Function.update w.chain c (f (w.chain c)) }

/-- Change the queue of one node. -/
def setQueue (w : World) (n : NodeRef) (f : List OrderRef → List OrderRef) : World :=
  w.setChain n.chain fun c =>
    { c with queue := Function.update c.queue n.node.orderState (f (c.queue n.node.orderState)) }

variable {w : World} {o p : OrderRef} {c d : ChainRef} {n m : NodeRef}
  {f : Order → Order} {g : Chain → Chain} {q : List OrderRef → List OrderRef}

@[simp] theorem setOrder_chain : (w.setOrder o f).chain = w.chain := rfl
@[simp] theorem setOrder_now : (w.setOrder o f).now = w.now := rfl
@[simp] theorem setOrder_queue : (w.setOrder o f).queue n = w.queue n := rfl
@[simp] theorem setOrder_action : (w.setOrder o f).action n = w.action n := rfl
@[simp] theorem setOrder_jobChainOrNull :
    (w.setOrder o f).jobChainOrNull = w.jobChainOrNull := rfl
@[simp] theorem setOrder_standingOrders :
    (w.setOrder o f).standingOrders = w.standingOrders := rfl

@[simp] theorem setOrder_order_self : (w.setOrder o f).order o = f (w.order o) :=
  Function.update_self ..

theorem setOrder_order_of_ne (h : p ≠ o) : (w.setOrder o f).order p = w.order p :=
  Function.update_of_ne h ..

@[simp] theorem setChain_order : (w.setChain c g).order = w.order := rfl
@[simp] theorem setChain_now : (w.setChain c g).now = w.now := rfl
@[simp] theorem setChain_jobChainOrNull :
    (w.setChain c g).jobChainOrNull = w.jobChainOrNull := rfl
@[simp] theorem setChain_standingOrders :
    (w.setChain c g).standingOrders = w.standingOrders := rfl

@[simp] theorem setChain_chain_self : (w.setChain c g).chain c = g (w.chain c) :=
  Function.update_self ..

theorem setChain_chain_of_ne (h : d ≠ c) : (w.setChain c g).chain d = w.chain d :=
  Function.update_of_ne h ..

@[simp] theorem setQueue_order : (w.setQueue n q).order = w.order := rfl

@[simp] theorem setQueue_queue_self : (w.setQueue n q).queue n = q (w.queue n) := by
  show ((w.setQueue n q).chain n.chain).queue n.node.orderState = _
  simp only [setQueue, setChain_chain_self, Function.update_self]
  rfl

theorem setQueue_queue_of_ne (h : ¬(m.chain = n.chain ∧ m.node.orderState = n.node.orderState)) :
    (w.setQueue n q).queue m = w.queue m := by
  show ((w.setQueue n q).chain m.chain).queue m.node.orderState = _
  by_cases hc : m.chain = n.chain
  · have hs : m.node.orderState ≠ n.node.orderState := fun hs => h ⟨hc, hs⟩
    simp only [setQueue, hc, setChain_chain_self, Function.update_of_ne hs]
    rw [← hc]
    rfl
  · simp only [setQueue, setChain_chain_of_ne hc]
    rfl

end World

end OrderWorld
