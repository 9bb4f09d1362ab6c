import SchedulerEngine.PredecessorsProofs
import SchedulerEngine.SkippedNodeProofs

/-! # The skipped states of a node

    The Scala side of a job chain keeps the edges of the skipped nodes, and collects
    from them the states that are skipped to a given one.  The C++ side walks from a
    state along the skipped nodes.  The edges are dropped when the action of a node has
    been changed. -/

namespace SkippedStates

open FileBased (Failure)
open Execution RunInvariant JobChainNode SkippedNode PartialWalk Predecessors

/-! ## Both sides of a job chain -/

/-- `string_next_state`: a missing state is empty. -/
def stringNextState (n : Node) : String := n.nextState.getD ""

/-- The edges of the nodes with the action `next_state`. -/
def edgeSet (c : JobChain) : Finset (String × String) :=
  ((c.nodes.filter fun n => c.action n.orderState = .nextState).map fun n =>
    (n.orderState, stringNextState n)).toFinset

structure Chain where
  chain : JobChain
  /-- `_edgeSet`, when it has been computed. -/
  cache : Option (Finset (String × String))

/-- `cppSkippedStates`.  The map of predecessors keeps nothing but the edges. -/
def cppSkippedStates (s : Chain) (state : String) : Finset String × Chain :=
  let edges := s.cache.getD (edgeSet s.chain)
  (allPredecessors edges state, { s with cache := some edges })

/-- `onNextStateActionChanged`. -/
def onNextStateActionChanged (s : Chain) : Chain := { s with cache := none }

/-- `Node::set_action`, with the call of the Scala side after the check. -/
def setActionOfChain (n : Node) (a : Action) (s : Chain) : Except Failure Bool × Chain :=
  let nextStateChanged := s.chain.action n.orderState = .nextState ∨ a = .nextState
  match setAction n a s.chain with
  | (.ok true, c) =>
      (.ok true, if nextStateChanged then onNextStateActionChanged ⟨c, s.cache⟩ else ⟨c, s.cache⟩)
  | (result, c) => (result, ⟨c, s.cache⟩)

/-- The loop of `skipped_order_queue_nodes`. -/
def orderQueueNodes (c : JobChain) : List String → Except Failure (List Node)
  | [] => .ok []
  | state :: states =>
      match c.nodeFromState (some state), orderQueueNodes c states with
      | .ok n, .ok nodes => .ok (if n.type.isOrderQueue then n :: nodes else nodes)
      | .error e, _ => .error e
      | _, .error e => .error e

/-! ## Runs -/

inductive Op where
  | setAction (n : Node) (a : Action)
  | skippedStates (state : String)

def perform (s : Chain) : Op → Chain
  | .setAction n a => (setActionOfChain n a s).2
  | .skippedStates state => (cppSkippedStates s state).2

/-- The call of `set_action` is one of a node of the chain, and it succeeds. -/
def Succeeds (s : Chain) : Op → Prop
  | .setAction n a => n ∈ s.chain.nodes ∧ ∃ b, (setActionOfChain n a s).1 = .ok b
  | .skippedStates _ => True

def Step (s : Chain) (op : Op) (s' : Chain) : Prop := Succeeds s op ∧ s' = perform s op

/-- Nothing has been computed.  No node has an empty state. -/
structure Initial (s : Chain) : Prop where
  cache : s.cache = none
  statesGiven : ∀ n ∈ s.chain.nodes, n.orderState ≠ ""

/-- The node of the state is skipped, and the walk from it ends at `t`. -/
def IsSkippedTo (c : JobChain) (state : String) (t : Node) : Prop :=
  ∃ n ∈ c.nodes, n.orderState = state ∧ c.action state = .nextState ∧
    ∃ k, FirstNotSkipped c k state t.orderState

/-- What is skipped to a node on the Scala side and on the C++ side. -/
structure Agrees (c : JobChain) (skipped : Finset String) (t : Node) : Prop where
  mem_iff : ∀ state, state ≠ t.orderState → (state ∈ skipped ↔ IsSkippedTo c state t)
  /-- The walk of `referenced_node_from_state` has less than 1000 steps. -/
  referenced_iff : ∀ state, state ≠ t.orderState →
    (c.referencedNodeFromState (some state) = .ok t ↔
      ∃ k < 1000, FirstNotSkipped c k state t.orderState)
  /-- Orders are fetched on behalf of the nodes with a queue. -/
  nodes : ∀ l : List String, l.toFinset = skipped → ∃ nodes, orderQueueNodes c l = .ok nodes ∧
    ∀ n, n ∈ nodes ↔ n ∈ c.nodes ∧ n.type.isOrderQueue = true ∧ IsSkippedTo c n.orderState t

/-! ## Edges and steps of the walk -/

variable {s s' : Chain} {c : JobChain} {n t : Node} {a : Action} {x y : String} {op : Op}

theorem edge_iff : Edge (edgeSet c) x y ↔
    ∃ n ∈ c.nodes, n.orderState = x ∧ c.action x = .nextState ∧ stringNextState n = y := by
  rw [Edge, edgeSet, List.mem_toFinset, List.mem_map]
  constructor
  · rintro ⟨n, hn, heq⟩
    obtain ⟨hn, ha⟩ := List.mem_filter.mp hn
    cases heq
    exact ⟨n, hn, rfl, of_decide_eq_true ha, rfl⟩
  · rintro ⟨n, hn, rfl, ha, rfl⟩
    exact ⟨n, List.mem_filter.mpr ⟨hn, decide_eq_true ha⟩, rfl⟩

/-- An edge to a state that is given is a step of the walk. -/
theorem edge_iff_skip (hy : y ≠ "") : Edge (edgeSet c) x y ↔ skip c x = some y := by
  rw [edge_iff]
  constructor
  · rintro ⟨n, hn, rfl, ha, hnext⟩
    rw [skip_of_mem hn ha]
    rw [stringNextState] at hnext
    cases hs : n.nextState with
    | none =>
        rw [hs] at hnext
        exact absurd hnext.symm hy
    | some z =>
        rw [hs] at hnext
        exact congrArg some hnext
  · intro h
    by_cases ha : c.action x = .nextState
    · simp only [skip] at h
      rw [if_pos ha] at h
      obtain ⟨n, hf, hn⟩ := Option.bind_eq_some_iff.mp h
      obtain ⟨hmem, hstate⟩ := mem_of_nodeFromStateOrNull hf
      refine ⟨n, hmem, hstate, ha, ?_⟩
      rw [stringNextState, hn]
      rfl
    · rw [skip_of_ne ha] at h
      cases h

/-- Along edges a node is reached that the walk comes to. -/
theorem reaches_iff_walk (hgiven : ∀ n ∈ c.nodes, n.orderState ≠ "") (hy : y ≠ "") :
    Relation.ReflTransGen (Edge (edgeSet c)) x y ↔ ∃ k, walk (skip c) k x = some y := by
  constructor
  · intro h
    induction h using Relation.ReflTransGen.head_induction_on with
    | refl => exact ⟨0, rfl⟩
    | @head u v hedge hrest ih =>
        obtain ⟨k, hk⟩ := ih
        -- the target of the edge has a node, or is the end
        have hne : v ≠ "" := by
          rcases hrest.cases_head with rfl | ⟨z, hz, -⟩
          · exact hy
          · obtain ⟨n, hn, rfl, -⟩ := edge_iff.mp hz
            exact hgiven n hn
        exact ⟨k + 1, (walk_succ_of_next ((edge_iff_skip hne).mp hedge)).trans hk⟩
  · rintro ⟨k, hk⟩
    induction k generalizing x with
    | zero =>
        rw [Option.some.inj hk]
    | succ k ih =>
        cases hs : skip c x with
        | none =>
            rw [walk_succ_of_none hs] at hk
            cases hk
        | some z =>
            rw [walk_succ_of_next hs] at hk
            have hz : z ≠ "" := by
              obtain ⟨n, hn, rfl⟩ := known_of_skip hs
              exact hgiven n hn
            exact (ih hk).head ((edge_iff_skip hz).mpr hs)

/-- A walk that ends at another node starts at a skipped one. -/
theorem isSkippedTo_iff (hne : x ≠ t.orderState) :
    IsSkippedTo c x t ↔ ∃ k, FirstNotSkipped c k x t.orderState := by
  constructor
  · rintro ⟨n, -, -, -, hk⟩
    exact hk
  · rintro ⟨k, hk⟩
    obtain ⟨-, heq, -⟩ | ⟨i, z, -, hs, -⟩ := hk.cases_on_skip
    · exact absurd heq hne
    · by_cases ha : c.action x = .nextState
      · by_cases hknown : c.Known x
        · obtain ⟨n, hn, rfl⟩ := hknown
          exact ⟨n, hn, rfl, ha, k, hk⟩
        · rw [skip_unknown hknown] at hs
          cases hs
      · rw [skip_of_ne ha] at hs
        cases hs

theorem mem_allPredecessors_iff (hgiven : ∀ n ∈ c.nodes, n.orderState ≠ "") (ht : t ∈ c.nodes)
    (ha : c.action t.orderState ≠ .nextState) (hne : x ≠ t.orderState) :
    x ∈ allPredecessors (edgeSet c) t.orderState ↔ IsSkippedTo c x t := by
  rw [mem_allPredecessors, isSkippedTo_iff hne, reaches_iff_walk hgiven (hgiven t ht)]
  constructor
  · rintro ⟨-, k, hk⟩
    exact ⟨k, ⟨hk, skip_of_ne ha⟩, ha⟩
  · rintro ⟨k, hk⟩
    exact ⟨hne, k, hk.1.1⟩

theorem referenced_iff (ht : t ∈ c.nodes) (hne : x ≠ t.orderState) :
    c.referencedNodeFromState (some x) = .ok t ↔
      ∃ k < 1000, FirstNotSkipped c k x t.orderState := by
  by_cases hknown : c.Known x
  · obtain ⟨n, hn, rfl⟩ := hknown
    rw [referencedNodeFromState_ok_iff hn]
    exact and_iff_right ht
  · constructor
    · intro h
      cases hf : c.nodeFromState (some x) with
      | error e =>
          rw [JobChain.referencedNodeFromState, hf] at h
          cases h
      | ok n =>
          obtain ⟨hn, hs⟩ := mem_of_nodeFromState hf
          exact absurd ⟨n, hn, (Option.some.inj hs).symm⟩ hknown
    · rintro ⟨k, -, hk⟩
      obtain ⟨-, heq, -⟩ | ⟨i, z, -, hs, -⟩ := hk.cases_on_skip
      · exact absurd heq hne
      · rw [skip_unknown hknown] at hs
        cases hs

/-- The nodes with a queue, of states that are all known. -/
theorem orderQueueNodes_ok {l : List String} (h : ∀ x ∈ l, c.Known x) :
    ∃ nodes, orderQueueNodes c l = .ok nodes ∧
      ∀ n, n ∈ nodes ↔ n ∈ c.nodes ∧ n.type.isOrderQueue = true ∧ n.orderState ∈ l := by
  induction l with
  | nil =>
      refine ⟨[], rfl, ?_⟩
      intro n
      simp
  | cons x l ih =>
      obtain ⟨nodes, hnodes, hmem⟩ := ih fun y hy => h y (List.mem_cons_of_mem _ hy)
      obtain ⟨m, hm, rfl, hok⟩ := nodeFromState_of_known (h x List.mem_cons_self)
      refine ⟨if m.type.isOrderQueue then m :: nodes else nodes, ?_, ?_⟩
      · rw [orderQueueNodes, hok, hnodes]
      · intro n
        have hsame : n ∈ c.nodes → n.orderState = m.orderState → n = m :=
          fun hn heq => c.statesUnique n hn m hm heq
        split
        · rename_i hqueue
          rw [List.mem_cons, hmem, List.mem_cons]
          constructor
          · rintro (rfl | ⟨hn, htype, hl⟩)
            · exact ⟨hm, hqueue, Or.inl rfl⟩
            · exact ⟨hn, htype, Or.inr hl⟩
          · rintro ⟨hn, htype, heq | hl⟩
            · exact Or.inl (hsame hn heq)
            · exact Or.inr ⟨hn, htype, hl⟩
        · rename_i hqueue
          rw [hmem, List.mem_cons]
          constructor
          · rintro ⟨hn, htype, hl⟩
            exact ⟨hn, htype, Or.inr hl⟩
          · rintro ⟨hn, htype, heq | hl⟩
            · rw [hsame hn heq] at htype
              exact absurd htype hqueue
            · exact ⟨hn, htype, hl⟩

theorem agrees_of_edgeSet (hgiven : ∀ n ∈ c.nodes, n.orderState ≠ "") (ht : t ∈ c.nodes)
    (ha : c.action t.orderState ≠ .nextState) :
    Agrees c (allPredecessors (edgeSet c) t.orderState) t := by
  have hnot : t.orderState ∉ allPredecessors (edgeSet c) t.orderState :=
    fun hmem => (mem_allPredecessors.mp hmem).1 rfl
  have hmem_ne : ∀ x ∈ allPredecessors (edgeSet c) t.orderState, x ≠ t.orderState :=
    fun x hx => (mem_allPredecessors.mp hx).1
  refine ⟨fun x hne => mem_allPredecessors_iff hgiven ht ha hne,
    fun x hne => referenced_iff ht hne, ?_⟩
  intro l hl
  have hmem : ∀ x, x ∈ l ↔ x ∈ allPredecessors (edgeSet c) t.orderState := by
    intro x
    rw [← hl, List.mem_toFinset]
  obtain ⟨nodes, hok, hiff⟩ := orderQueueNodes_ok (c := c) (l := l) (by
    intro x hx
    have hx' := (hmem x).mp hx
    obtain ⟨n, hn, heq, -⟩ := (mem_allPredecessors_iff hgiven ht ha (hmem_ne x hx')).mp hx'
    exact ⟨n, hn, heq⟩)
  refine ⟨nodes, hok, ?_⟩
  intro n
  rw [hiff, hmem]
  refine and_congr_right fun _ => and_congr_right fun _ => ?_
  by_cases hne : n.orderState = t.orderState
  · rw [hne]
    constructor
    · intro h
      exact absurd h hnot
    · rintro ⟨-, -, -, hskip, -⟩
      exact absurd hskip ha
  · exact mem_allPredecessors_iff hgiven ht ha hne

/-! ## The cache -/

/-- Between `process` and `stop` the edges stay the same. -/
theorem edgeSet_withAction (hold : c.action n.orderState ≠ .nextState) (hnew : a ≠ .nextState) :
    edgeSet (c.withAction n.orderState a) = edgeSet c := by
  rw [edgeSet, edgeSet]
  have hfilter : ∀ m : Node,
      ((c.withAction n.orderState a).action m.orderState = .nextState) ↔
        (c.action m.orderState = .nextState) := by
    intro m
    by_cases hm : m.orderState = n.orderState
    · rw [hm, withAction_action_self]
      exact iff_of_false hnew hold
    · rw [withAction_action_of_ne hm]
  simp only [hfilter, withAction_nodes]

/-- A call that returns `false` has changed nothing. -/
theorem setAction_false {c' : JobChain} (h : setAction n a c = (.ok false, c')) : c' = c := by
  by_cases hsame : c.action n.orderState = a
  · rw [setAction_same hsame] at h
    exact (congrArg Prod.snd h).symm
  · by_cases hs : State.rank .active ≤ c.state.rank
    · rw [setAction_active hsame hs] at h
      have hfst := congrArg Prod.fst h
      cases hcheck : (c.withAction n.orderState a).checkJobChainNode n with
      | ok u =>
          rw [hcheck] at hfst
          cases hfst
      | error e =>
          rw [hcheck] at hfst
          cases hfst
    · rw [setAction_inactive hsame (by omega)] at h
      cases congrArg Prod.fst h

structure Inv (s : Chain) : Prop where
  statesGiven : ∀ n ∈ s.chain.nodes, n.orderState ≠ ""
  /-- The edges that are kept are those of the chain as it is. -/
  cache : ∀ edges ∈ s.cache, edges = edgeSet s.chain

theorem inv_initial (h : Initial s) : Inv s := by
  refine ⟨h.statesGiven, ?_⟩
  intro edges hmem
  rw [h.cache] at hmem
  cases hmem

theorem Inv.edges (h : Inv s) : s.cache.getD (edgeSet s.chain) = edgeSet s.chain := by
  cases hc : s.cache with
  | none => rfl
  | some edges => exact h.cache edges hc

theorem inv_skippedStates (h : Inv s) : Inv (cppSkippedStates s x).2 := by
  refine ⟨h.statesGiven, ?_⟩
  intro edges hmem
  rw [← Option.some.inj hmem]
  exact h.edges

theorem inv_setAction (h : Inv s) {b : Bool} (hok : (setActionOfChain n a s).1 = .ok b) :
    Inv (setActionOfChain n a s).2 := by
  have hfinal : (setAction n a s.chain).2 = s.chain.withAction n.orderState a :=
    setAction_final n a s.chain
  cases hset : setAction n a s.chain with
  | mk result c =>
      rw [hset] at hfinal
      have hc : c = s.chain.withAction n.orderState a := hfinal
      have hgiven : ∀ m ∈ c.nodes, m.orderState ≠ "" := by
        rw [hc]
        exact h.statesGiven
      rw [setActionOfChain, hset] at hok ⊢
      cases result with
      | error e => cases hok
      | ok r =>
          cases r with
          | false =>
              rw [setAction_false hset]
              exact h
          | true =>
              show Inv (if s.chain.action n.orderState = .nextState ∨ a = .nextState
                then onNextStateActionChanged ⟨c, s.cache⟩ else ⟨c, s.cache⟩)
              split
              · refine ⟨hgiven, ?_⟩
                intro edges hmem
                cases hmem
              · rename_i hor
                rw [not_or] at hor
                refine ⟨hgiven, ?_⟩
                intro edges hmem
                rw [h.cache edges hmem, hc]
                exact (edgeSet_withAction hor.1 hor.2).symm

theorem inv_step (h : Inv s) (hstep : Step s op s') : Inv s' := by
  obtain ⟨hok, rfl⟩ := hstep
  cases op with
  | setAction n a =>
      obtain ⟨-, b, hb⟩ := hok
      exact inv_setAction h hb
  | skippedStates state => exact inv_skippedStates h

/-- A chain of nested job chains, the first of which is skipped. -/
def nestedChain : JobChain where
  path := "/chain"
  state := .active
  nodes :=
    [{ type := .jobChain, orderState := "a", nextState := some "b", errorState := none },
     { type := .jobChain, orderState := "b", nextState := some "end", errorState := none },
     { type := .endNode, orderState := "end", nextState := none, errorState := none }]
  action := fun s => if s = "a" then .nextState else .process
  statesUnique := by decide
  nextKnown := by decide
  errorKnown := by decide

/-- The state of the node `i` of a long chain. -/
def longState (i : Nat) : String := String.ofList (List.replicate (i + 1) 'x')

theorem longState_injective {i j : Nat} (h : longState i = longState j) : i = j := by
  have hlen := congrArg List.length (String.ofList_injective h)
  rw [List.length_replicate, List.length_replicate] at hlen
  omega

def longNode (m i : Nat) : Node :=
  { type := if i < m then .job else .endNode, orderState := longState i,
    nextState := if i < m then some (longState (i + 1)) else none, errorState := none }

theorem mem_longNodes {m : Nat} : n ∈ (List.range (m + 1)).map (longNode m) ↔
    ∃ i ≤ m, n = longNode m i := by
  rw [List.mem_map]
  constructor
  · rintro ⟨i, hi, rfl⟩
    exact ⟨i, Nat.lt_succ_iff.mp (List.mem_range.mp hi), rfl⟩
  · rintro ⟨i, hi, rfl⟩
    exact ⟨i, List.mem_range.mpr (Nat.lt_succ_of_le hi), rfl⟩

/-- A chain of `m` job nodes, all of them skipped, and an end node. -/
def longChain (m : Nat) : JobChain where
  path := "/chain"
  state := .active
  nodes := (List.range (m + 1)).map (longNode m)
  action := fun s => if s = longState m then .process else .nextState
  statesUnique := by
    intro n hn n' hn' heq
    obtain ⟨i, -, rfl⟩ := mem_longNodes.mp hn
    obtain ⟨j, -, rfl⟩ := mem_longNodes.mp hn'
    rw [longState_injective heq]
  nextKnown := by
    intro n hn s hs
    obtain ⟨i, hi, rfl⟩ := mem_longNodes.mp hn
    by_cases hlt : i < m
    · rw [longNode, if_pos hlt, if_pos hlt] at hs
      cases hs
      exact ⟨longNode m (i + 1), mem_longNodes.mpr ⟨i + 1, hlt, rfl⟩, rfl⟩
    · rw [longNode, if_neg hlt, if_neg hlt] at hs
      cases hs
  errorKnown := by
    intro n hn s hs
    obtain ⟨i, -, rfl⟩ := mem_longNodes.mp hn
    cases hs

theorem longNode_mem {m i : Nat} (h : i ≤ m) : longNode m i ∈ (longChain m).nodes :=
  mem_longNodes.mpr ⟨i, h, rfl⟩

theorem skip_longChain {m i : Nat} (h : i < m) :
    skip (longChain m) (longState i) = some (longState (i + 1)) := by
  have hne : longState i ≠ longState m := fun heq => Nat.ne_of_lt h (longState_injective heq)
  have hskip := skip_of_mem (c := longChain m) (longNode_mem (Nat.le_of_lt h)) (if_neg hne)
  rw [longNode] at hskip
  exact hskip.trans (if_pos h)

/-- The walk through a long chain ends at its end node. -/
theorem firstNotSkipped_longChain {m : Nat} (k i : Nat) (h : i + k = m) :
    FirstNotSkipped (longChain m) k (longState i) (longState m) := by
  induction k generalizing i with
  | zero =>
      rw [← h, Nat.add_zero]
      exact FirstNotSkipped.here (by
        show (if longState i = longState i then Action.process else .nextState) ≠ .nextState
        rw [if_pos rfl]
        decide)
  | succ k ih =>
      exact (ih (i + 1) (by omega)).succ (skip_longChain (by omega))

theorem acyclic_longChain (m : Nat) : Acyclic (skip (longChain m)) := by
  refine acyclic_of_ends ?_
  intro s
  by_cases hknown : (longChain m).Known s
  · obtain ⟨n, hn, rfl⟩ := hknown
    obtain ⟨i, hi, rfl⟩ := mem_longNodes.mp hn
    exact ⟨m - i, longState m, (firstNotSkipped_longChain (m - i) i (by omega)).1⟩
  · exact ⟨0, s, Ends.zero (skip_unknown hknown)⟩

theorem acyclic_nestedChain : Acyclic (skip nestedChain) := by
  have hskip : ∀ s, s ≠ "a" → skip nestedChain s = none := by
    intro s hs
    exact skip_of_ne (by
      show (if s = "a" then Action.nextState else .process) ≠ .nextState
      rw [if_neg hs]
      decide)
  refine acyclic_of_ends ?_
  intro s
  by_cases hs : s = "a"
  · subst hs
    have hb : skip nestedChain "a" = some "b" := by decide
    exact ⟨1, "b", (Ends.zero (hskip "b" (by decide))).succ hb⟩
  · exact ⟨0, s, Ends.zero (hskip s hs)⟩

/-- A chain that has just been read. -/
theorem initial_of (hgiven : ∀ n ∈ c.nodes, n.orderState ≠ "") : Initial ⟨c, none⟩ := ⟨rfl, hgiven⟩

theorem longState_ne_empty (i : Nat) : longState i ≠ "" := by
  intro heq
  have hlen := congrArg List.length (String.ofList_injective (show _ = String.ofList [] from heq))
  rw [List.length_replicate] at hlen
  cases hlen

/-- The first node of a long chain is skipped to its end, which is not found. -/
theorem longChain_lost {m : Nat} (hm : 1000 ≤ m) :
    ∃ s, Reach Initial Step s ∧ Acyclic (skip s.chain) ∧ ∃ t ∈ s.chain.nodes,
      s.chain.action t.orderState ≠ .nextState ∧ ∃ n ∈ s.chain.nodes, n.type = .job ∧
        n.orderState ∈ (cppSkippedStates s t.orderState).1 ∧
        s.chain.referencedNodeFromState (some n.orderState) ≠ .ok t := by
  have hgiven : ∀ n ∈ (longChain m).nodes, n.orderState ≠ "" := by
    intro n hn
    obtain ⟨i, -, rfl⟩ := mem_longNodes.mp hn
    exact longState_ne_empty i
  have hend := longNode_mem (Nat.le_refl m)
  have hne : longState 0 ≠ longState m := by
    intro heq
    have hzero := longState_injective heq
    omega
  have hwalk := firstNotSkipped_longChain (m := m) m 0 (Nat.zero_add m)
  refine ⟨⟨longChain m, none⟩, Reach.start (initial_of hgiven), acyclic_longChain m,
    longNode m m, hend, hwalk.2, longNode m 0, longNode_mem (Nat.zero_le m), ?_, ?_, ?_⟩
  · exact if_pos (by omega)
  · refine (mem_allPredecessors_iff hgiven hend hwalk.2 hne).mpr ?_
    exact (isSkippedTo_iff hne).mpr ⟨m, hwalk⟩
  · intro hfound
    obtain ⟨k, hk, hfirst⟩ := (referenced_iff hend hne).mp hfound
    have heq := (hfirst.1.unique hwalk.1).1
    omega

end SkippedStates
