import Mathlib.Logic.Function.Basic
import SchedulerEngine.ExecutionProofs
import SchedulerEngine.FileBasedProofs

/-! # Job chains and their nodes

    A `Job_chain` is a list of nodes, each with an order state, a next state and
    an error state.  The action of a node says whether orders stop there, are
    processed, or skip the node and go on to its next state.  Here are the nodes,
    the functions that find one from an order state, and the change of an
    action with its check for a cycle of skipped nodes. -/

namespace JobChainNode

open FileBased Execution

/-- `Node::Type`, less the two values no node has. -/
inductive NodeType where
  | job
  | jobChain
  | endNode
  | fileOrderSink
  deriving DecidableEq, Repr

/-- `Order_queue_node::try_cast`: a job node, also as a file order sink. -/
def NodeType.isOrderQueue : NodeType → Bool
  | .job => true
  | .fileOrderSink => true
  | _ => false

/-- `Node::Action`. -/
inductive Action where
  | process
  | stop
  | nextState
  deriving DecidableEq, Repr

/-- `Node::action_from_string`. -/
def actionFromString (str : String) : Except Failure Action :=
  if str = "process" then pure .process
  else if str = "stop" then pure .stop
  else if str = "next_state" then pure .nextState
  else throw (.xc "SCHEDULER-391" ["action", str, "process, stop, next_state"])

/-- `Job_chain::State`, in the order of the source. -/
inductive State where
  | underConstruction
  | initialized
  | loaded
  | active
  | closed
  deriving DecidableEq, Repr

/-- The place of a state in the enumeration, which `>=` compares. -/
def State.rank : State → Nat
  | .underConstruction => 0
  | .initialized => 1
  | .loaded => 2
  | .active => 3
  | .closed => 4

/-- `Order_state_transition`: keep the state, or go on with the return code of the
    step. -/
inductive Transition where
  | keep
  | proceeding (returnCode : Int)
  deriving DecidableEq, Repr

/-- `Order_state_transition::success`. -/
def Transition.success : Transition := .proceeding 0

/-- A node, as the configuration and `fill_holes` leave it: `none` is a state
    that is missing or empty. `returnCodeStates` are the `to_state`s of its
    `on_return_codes`. -/
structure Node where
  type : NodeType
  orderState : String
  nextState : Option String
  errorState : Option String
  jobPath : String := ""
  nestedJobChainPath : String := ""
  isSuspendingOrder : Bool := false
  delay : Nat := 0
  isOnErrorSetback : Bool := false
  isOnErrorSuspend : Bool := false
  returnCodeStates : List (Int × String) := []
  deriving DecidableEq, Repr

/-- `orderStateTransitionToState`. -/
def Node.orderStateAfter (n : Node) : Transition → Option String
  | .keep => some n.orderState
  | .proceeding returnCode =>
      match n.returnCodeStates.lookup returnCode with
      | some s => some s
      | none => if returnCode = 0 then n.nextState else n.errorState

/-- A job chain with its nodes and the `_action` of each, by its order state.
    An entry of the list may stand in it twice, but two nodes differ in their
    order states; and `fill_holes` has looked every next and error state up. -/
structure JobChain where
  path : String
  state : State
  nodes : List Node
  action : String → Action
  statesUnique : ∀ m ∈ nodes, ∀ n ∈ nodes, m.orderState = n.orderState → m = n
  nextKnown : ∀ m ∈ nodes, ∀ s ∈ m.nextState, ∃ n ∈ nodes, n.orderState = s
  errorKnown : ∀ m ∈ nodes, ∀ s ∈ m.errorState, ∃ n ∈ nodes, n.orderState = s

/-- `debug_string_from_variant` of an order state that is not missing. -/
def debugString : Option String → String
  | some s => s
  | none => "VT_EMPTY"

/-- `debug_string_from_variant( next_state() )`: `fill_holes` leaves the next
    state of a file order sink missing, and makes it empty at the other nodes. -/
def Node.debugNextState (n : Node) : String :=
  if n.type = .fileOrderSink ∧ n.nextState = none then "DISP_E_PARAMNOTFOUND (missing value)"
  else debugString n.nextState

namespace JobChain

/-- `Job_chain::node_from_state_or_null`. -/
def nodeFromStateOrNull (c : JobChain) (state : Option String) : Option Node :=
  state.bind fun s => c.nodes.find? fun n => n.orderState = s

/-- The node of a state, which an error shows as `text`. -/
def nodeOrThrow (c : JobChain) (state : Option String) (text : String) : Except Failure Node :=
  match c.nodeFromStateOrNull state with
  | some n => .ok n
  | none => .error (.xc "SCHEDULER-149" [c.path, text])

/-- `Job_chain::node_from_state`. -/
def nodeFromState (c : JobChain) (state : Option String) : Except Failure Node :=
  c.nodeOrThrow state (debugString state)

/-- `node_from_state( n->next_state() )`. -/
def nextNode (c : JobChain) (n : Node) : Except Failure Node :=
  c.nodeOrThrow n.nextState n.debugNextState

/-- The loop of `referenced_node_from_state` with `n` steps left. -/
def skipLoop (c : JobChain) (node : Node) : Nat → Node → Except Failure Node
  | 0, _ => .error (.xc "SCHEDULER-403" [node.orderState])
  | n + 1, result =>
      if c.action result.orderState = .nextState then
        match c.nextNode result with
        | .ok result => skipLoop c node n result
        | .error e => .error e
      else .ok result

/-- `Job_chain::referenced_node_from_state`. -/
def referencedNodeFromState (c : JobChain) (state : Option String) : Except Failure Node :=
  match c.nodeFromState state with
  | .ok node => c.skipLoop node 1000 node
  | .error e => .error e

/-- The loop of `check_job_chain_node`.  `nodeSet` grows with every round, so
    more rounds than nodes are never made. -/
def checkLoop (c : JobChain) (node : Node) : Nat → List String → Node → Except Failure Unit
  | 0, _, _ => .error (.function "check_job_chain_node")
  | fuel + 1, nodeSet, n =>
      if c.action n.orderState = .nextState then
        match c.nextNode n with
        | .ok next =>
            if next.orderState ∈ n.orderState :: nodeSet then
              .error (.xc "SCHEDULER-403" [node.orderState])
            else checkLoop c node fuel (n.orderState :: nodeSet) next
        | .error e => .error e
      else .ok ()

/-- `Job_chain::check_job_chain_node`. -/
def checkJobChainNode (c : JobChain) (node : Node) : Except Failure Unit :=
  match c.checkLoop node (c.nodes.length + 1) [] node with
  | .ok () => .ok ()
  | .error x => .error (.xcCause "SCHEDULER-406" [node.orderState] x)

/-- The assignment `_action = action`. -/
def withAction (c : JobChain) (state : String) (action : Action) : JobChain :=
  { c with action := Function.update c.action state action }

end JobChain

/-- `Node::set_action`: the new action is written before the chain is checked. -/
def setAction (node : Node) (action : Action) : Exec JobChain Failure Bool := do
  let c ← get
  if c.action node.orderState ≠ action then do
    modify fun c => c.withAction node.orderState action
    let c ← get
    if State.rank .active ≤ c.state.rank then
      Exec.ofExcept (c.checkJobChainNode node)
    pure true
  else pure false

/-- `job_chain_node.modify` with its attribute `action`, on the node of a state. -/
def executeXml (state action : String) : Exec JobChain Failure Bool := do
  let c ← get
  let node ← Exec.ofExcept (c.nodeFromState (some state))
  if action ≠ "" then do
    let action ← Exec.ofExcept (actionFromString action)
    setAction node action
  else pure false

/-- `Job_chain::database_read_node_record`, for the node of a record if the
    chain has it: `none` is a null in the column `action`. -/
def databaseReadNodeRecord (state : String) (action : Option String) :
    Exec JobChain Failure Bool := do
  let c ← get
  match c.nodeFromStateOrNull (some state) with
  | none => pure false
  | some node =>
      let action ← Exec.ofExcept (match action with
        | none => .ok .process
        | some str => actionFromString str)
      setAction node action

/-! ## Finding nodes -/

variable {c : JobChain} {m n : Node} {s t : String} {a : Action}

/-- A state of the chain: one of its nodes has it. -/
def JobChain.Known (c : JobChain) (s : String) : Prop := ∃ n ∈ c.nodes, n.orderState = s

theorem JobChain.known_of_mem (h : n ∈ c.nodes) : c.Known n.orderState := ⟨n, h, rfl⟩

@[simp] theorem nodeFromStateOrNull_none : c.nodeFromStateOrNull none = none := rfl

theorem nodeFromStateOrNull_some :
    c.nodeFromStateOrNull (some s) = c.nodes.find? fun n => n.orderState = s := rfl

/-- The node that is found is one of the chain, and has the state. -/
theorem mem_of_nodeFromStateOrNull (h : c.nodeFromStateOrNull (some s) = some n) :
    n ∈ c.nodes ∧ n.orderState = s := by
  rw [nodeFromStateOrNull_some] at h
  have hs := List.find?_some h
  exact ⟨List.mem_of_find?_eq_some h, by simpa using hs⟩

/-- Every node of the chain is found from its state. -/
theorem nodeFromStateOrNull_of_mem (h : n ∈ c.nodes) :
    c.nodeFromStateOrNull (some n.orderState) = some n := by
  cases hf : c.nodeFromStateOrNull (some n.orderState) with
  | some m =>
      obtain ⟨hm, hs⟩ := mem_of_nodeFromStateOrNull hf
      rw [c.statesUnique m hm n h hs]
  | none =>
      rw [nodeFromStateOrNull_some, List.find?_eq_none] at hf
      exact absurd (by simp) (hf n h)

theorem nodeOrThrow_some {state : Option String} {text : String}
    (h : c.nodeFromStateOrNull state = some n) : c.nodeOrThrow state text = .ok n := by
  show (match c.nodeFromStateOrNull state with
    | some n => (.ok n : Except Failure Node)
    | none => _) = _
  rw [h]

theorem nodeOrThrow_none {state : Option String} {text : String}
    (h : c.nodeFromStateOrNull state = none) :
    c.nodeOrThrow state text = .error (.xc "SCHEDULER-149" [c.path, text]) := by
  show (match c.nodeFromStateOrNull state with
    | some n => (.ok n : Except Failure Node)
    | none => _) = _
  rw [h]

theorem nodeFromState_of_mem (h : n ∈ c.nodes) :
    c.nodeFromState (some n.orderState) = .ok n :=
  nodeOrThrow_some (nodeFromStateOrNull_of_mem h)

theorem nodeFromState_of_known (h : c.Known s) :
    ∃ n ∈ c.nodes, n.orderState = s ∧ c.nodeFromState (some s) = .ok n := by
  obtain ⟨n, hn, rfl⟩ := h
  exact ⟨n, hn, rfl, nodeFromState_of_mem hn⟩

theorem mem_of_nodeOrThrow {state : Option String} {text : String}
    (h : c.nodeOrThrow state text = .ok n) : n ∈ c.nodes ∧ state = some n.orderState := by
  cases hf : c.nodeFromStateOrNull state with
  | none =>
      rw [nodeOrThrow_none hf] at h
      cases h
  | some m =>
      rw [nodeOrThrow_some hf] at h
      cases h
      cases state with
      | none => cases hf
      | some s =>
          obtain ⟨hn, hs⟩ := mem_of_nodeFromStateOrNull hf
          exact ⟨hn, congrArg some hs.symm⟩

theorem mem_of_nodeFromState {state : Option String} (h : c.nodeFromState state = .ok n) :
    n ∈ c.nodes ∧ state = some n.orderState := mem_of_nodeOrThrow h

/-- A node with a next state has a next node: `fill_holes` has looked it up. -/
theorem nextNode_of_nextState (hm : m ∈ c.nodes) (hs : m.nextState = some s) :
    ∃ n ∈ c.nodes, n.orderState = s ∧ c.nextNode m = .ok n := by
  obtain ⟨n, hn, rfl⟩ := c.nextKnown m hm s hs
  refine ⟨n, hn, rfl, nodeOrThrow_some ?_⟩
  rw [hs]
  exact nodeFromStateOrNull_of_mem hn

/-- The search ends at a node of the chain that is not skipped. -/
theorem mem_of_skipLoop {i : Nat} {node : Node} (hm : m ∈ c.nodes)
    (h : c.skipLoop node i m = .ok n) : n ∈ c.nodes ∧ c.action n.orderState ≠ .nextState := by
  induction i generalizing m with
  | zero => cases h
  | succ i ih =>
      by_cases ha : c.action m.orderState = .nextState
      · rw [JobChain.skipLoop, if_pos ha] at h
        cases hn : c.nextNode m with
        | error e =>
            rw [hn] at h
            cases h
        | ok next =>
            rw [hn] at h
            exact ih (mem_of_nodeOrThrow hn).1 h
      · rw [JobChain.skipLoop, if_neg ha] at h
        cases h
        exact ⟨hm, ha⟩

theorem mem_of_referencedNodeFromState {state : Option String}
    (h : c.referencedNodeFromState state = .ok n) :
    n ∈ c.nodes ∧ c.action n.orderState ≠ .nextState := by
  cases hn : c.nodeFromState state with
  | error e =>
      rw [JobChain.referencedNodeFromState, hn] at h
      cases h
  | ok node =>
      rw [JobChain.referencedNodeFromState, hn] at h
      exact mem_of_skipLoop (mem_of_nodeFromState hn).1 h

/-! ## Changing an action -/

@[simp] theorem withAction_path : (c.withAction s a).path = c.path := rfl
@[simp] theorem withAction_state : (c.withAction s a).state = c.state := rfl
@[simp] theorem withAction_nodes : (c.withAction s a).nodes = c.nodes := rfl

theorem withAction_action :
    (c.withAction s a).action = Function.update c.action s a := rfl

@[simp] theorem withAction_action_self : (c.withAction s a).action s = a :=
  Function.update_self ..

theorem withAction_action_of_ne (h : t ≠ s) : (c.withAction s a).action t = c.action t :=
  Function.update_of_ne h ..

@[simp] theorem withAction_nodeFromStateOrNull {state : Option String} :
    (c.withAction s a).nodeFromStateOrNull state = c.nodeFromStateOrNull state := rfl

theorem setAction_same (h : c.action n.orderState = a) : setAction n a c = (.ok false, c) := by
  simp only [setAction, bind_run, get_run]
  rw [if_neg (fun hn => hn h)]
  rfl

/-- On a chain that is not yet active the action is written, and that is all. -/
theorem setAction_inactive (h : c.action n.orderState ≠ a)
    (hs : c.state.rank < State.rank .active) :
    setAction n a c = (.ok true, c.withAction n.orderState a) := by
  have hs' : ¬State.rank .active ≤ (c.withAction n.orderState a).state.rank := by
    rw [withAction_state]
    omega
  simp only [setAction, bind_run, get_run]
  rw [if_pos h]
  simp only [bind_run, modify_run, get_run]
  rw [if_neg hs']
  rfl

/-- On an active chain the written action stays, also where the check fails. -/
theorem setAction_active (h : c.action n.orderState ≠ a)
    (hs : State.rank .active ≤ c.state.rank) :
    setAction n a c = (match (c.withAction n.orderState a).checkJobChainNode n with
      | .ok () => .ok true
      | .error e => .error e, c.withAction n.orderState a) := by
  have hs' : State.rank .active ≤ (c.withAction n.orderState a).state.rank := hs
  simp only [setAction, bind_run, get_run]
  rw [if_pos h]
  simp only [bind_run, modify_run, get_run]
  rw [if_pos hs']
  simp only [bind_run, ofExcept_run]
  cases (c.withAction n.orderState a).checkJobChainNode n with
  | ok _ => rfl
  | error e => rfl

/-- Whatever the result, the chain that is left has the new action. -/
theorem setAction_final (n : Node) (a : Action) (c : JobChain) :
    final (setAction n a) c = c.withAction n.orderState a := by
  by_cases h : c.action n.orderState = a
  · show (setAction n a c).2 = _
    rw [setAction_same h]
    show c = { c with action := Function.update c.action n.orderState a }
    rw [← h, Function.update_eq_self]
  · show (setAction n a c).2 = _
    by_cases hs : State.rank .active ≤ c.state.rank
    · rw [setAction_active h hs]
    · rw [setAction_inactive h (by omega)]

end JobChainNode
