import Mathlib.Data.List.Perm.Subperm
import SchedulerEngine.JobChainNodeProofs
import SchedulerEngine.PartialWalkProofs
import SchedulerEngine.RunInvariantProofs

/-! # Skipped nodes

    A node with the action `next_state` is skipped: an order that would get
    there goes on to the node's next state.  The skipped nodes of a chain are a
    partial function on its states, and following it is a walk.
    `check_job_chain_node` asks whether the walk from the changed node ends, but
    only after the new action has been written; and
    `referenced_node_from_state` follows the walk for less than 1000 steps. -/

namespace SkippedNode

open FileBased (Failure)
open Execution RunInvariant JobChainNode PartialWalk

/-- Where an order in this state goes on because its node is skipped. -/
def skip (c : JobChain) (s : String) : Option String :=
  if c.action s = .nextState then
    (c.nodeFromStateOrNull (some s)).bind fun n => n.nextState
  else none

/-- The first node from `s` on that is not skipped has the state `r`, and `k`
    nodes before it are. -/
def FirstNotSkipped (c : JobChain) (k : Nat) (s r : String) : Prop :=
  Ends (skip c) k s r ∧ c.action r ≠ .nextState

variable {c : JobChain} {n m start : Node} {s t r : String} {j k fuel : Nat}
  {a : Action} {nodeSet : List String}

/-! ## The walk over skipped nodes -/

theorem skip_of_ne (h : c.action s ≠ .nextState) : skip c s = none := if_neg h

theorem skip_of_mem (hn : n ∈ c.nodes) (h : c.action n.orderState = .nextState) :
    skip c n.orderState = n.nextState := by
  simp only [skip]
  rw [if_pos h, nodeFromStateOrNull_of_mem hn]
  rfl

theorem skip_unknown (h : ¬c.Known s) : skip c s = none := by
  cases hf : c.nodeFromStateOrNull (some s) with
  | none => simp only [skip, hf, Option.bind_none, ite_self]
  | some n => exact absurd ⟨n, mem_of_nodeFromStateOrNull hf⟩ h

/-- A state that is skipped goes on to a state of the chain. -/
theorem known_of_skip (h : skip c s = some t) : c.Known t := by
  by_cases ha : c.action s = .nextState
  · simp only [skip] at h
    rw [if_pos ha] at h
    obtain ⟨n, hf, hn⟩ := Option.bind_eq_some_iff.mp h
    exact c.nextKnown n (mem_of_nodeFromStateOrNull hf).1 t hn
  · rw [skip_of_ne ha] at h
    cases h

/-- What the next node of a skipped node is. -/
theorem nextNode_of_skip (hn : n ∈ c.nodes) (h : skip c n.orderState = some t) :
    c.action n.orderState = .nextState ∧
      ∃ m ∈ c.nodes, m.orderState = t ∧ c.nextNode n = .ok m := by
  by_cases ha : c.action n.orderState = .nextState
  · rw [skip_of_mem hn ha] at h
    exact ⟨ha, nextNode_of_nextState hn h⟩
  · rw [skip_of_ne ha] at h
    cases h

/-- The next node that is found is the one the walk goes on to. -/
theorem skip_of_nextNode (hn : n ∈ c.nodes) (ha : c.action n.orderState = .nextState)
    (h : c.nextNode n = .ok m) : m ∈ c.nodes ∧ skip c n.orderState = some m.orderState := by
  obtain ⟨hm, hs⟩ := mem_of_nodeOrThrow h
  exact ⟨hm, (skip_of_mem hn ha).trans hs⟩

theorem FirstNotSkipped.here (h : c.action s ≠ .nextState) : FirstNotSkipped c 0 s s :=
  ⟨Ends.zero (skip_of_ne h), h⟩

theorem FirstNotSkipped.succ (hs : skip c s = some t) (h : FirstNotSkipped c k t r) :
    FirstNotSkipped c (k + 1) s r :=
  ⟨h.1.succ hs, h.2⟩

/-- Either the node itself is not skipped, or the one after it leads on. -/
theorem FirstNotSkipped.cases_on_skip (h : FirstNotSkipped c k s r) :
    (k = 0 ∧ s = r ∧ c.action s ≠ .nextState) ∨
      ∃ i t, k = i + 1 ∧ skip c s = some t ∧ FirstNotSkipped c i t r := by
  obtain ⟨hk, rfl, -⟩ | ⟨i, t, hk, hs, he⟩ := h.1.cases_on_next
  · exact Or.inl ⟨hk, rfl, h.2⟩
  · exact Or.inr ⟨i, t, hk, hs, he, h.2⟩

/-! ## What the loops compute -/

/-- `referenced_node_from_state` finds exactly the first node that is not
    skipped, if it has steps left for the skipped ones. -/
theorem skipLoop_ok_iff (hn : n ∈ c.nodes) :
    c.skipLoop start fuel n = .ok m ↔
      m ∈ c.nodes ∧ ∃ k < fuel, FirstNotSkipped c k n.orderState m.orderState := by
  induction fuel generalizing n with
  | zero =>
      constructor
      · intro h
        cases h
      · rintro ⟨-, k, hk, -⟩
        omega
  | succ fuel ih =>
      simp only [JobChain.skipLoop]
      by_cases ha : c.action n.orderState = .nextState
      · rw [if_pos ha]
        cases hf : c.nextNode n with
        | error e =>
            constructor
            · intro h
              cases h
            · rintro ⟨-, k, -, hk⟩
              obtain ⟨-, -, hna⟩ | ⟨i, t, -, hs, -⟩ := hk.cases_on_skip
              · exact absurd ha hna
              · obtain ⟨-, m', -, -, hok⟩ := nextNode_of_skip hn hs
                rw [hf] at hok
                cases hok
        | ok next =>
            obtain ⟨hnext, hs⟩ := skip_of_nextNode hn ha hf
            refine (ih hnext).trans (and_congr_right fun _ => ?_)
            constructor
            · rintro ⟨k, hk, hw⟩
              exact ⟨k + 1, by omega, hw.succ hs⟩
            · rintro ⟨k, hk, hw⟩
              obtain ⟨-, -, hna⟩ | ⟨i, t, hi, hs', hw'⟩ := hw.cases_on_skip
              · exact absurd ha hna
              · rw [hs] at hs'
                cases hs'
                exact ⟨i, by omega, hw'⟩
      · rw [if_neg ha]
        constructor
        · intro h
          cases h
          exact ⟨hn, 0, by omega, FirstNotSkipped.here ha⟩
        · rintro ⟨hm, k, -, hw⟩
          obtain ⟨-, hnm, -⟩ | ⟨i, t, -, hs, -⟩ := hw.cases_on_skip
          · rw [c.statesUnique n hn m hm hnm]
          · rw [skip_of_ne ha] at hs
            cases hs

/-- **WHAT `referenced_node_from_state` RETURNS**: the first node that is not
    skipped, if fewer than 1000 nodes before it are; and nothing else. -/
theorem referencedNodeFromState_ok_iff (hn : n ∈ c.nodes) :
    c.referencedNodeFromState (some n.orderState) = .ok m ↔
      m ∈ c.nodes ∧ ∃ k < 1000, FirstNotSkipped c k n.orderState m.orderState := by
  simp only [JobChain.referencedNodeFromState]
  rw [nodeFromState_of_mem hn]
  exact skipLoop_ok_iff hn

/-- The visited nodes are nodes of the chain, so there are not more of them. -/
theorem nodeSet_length (hnd : nodeSet.Nodup) (hsub : ∀ t ∈ nodeSet, c.Known t) :
    nodeSet.length ≤ c.nodes.length := by
  have hs : nodeSet ⊆ c.nodes.map Node.orderState := by
    intro t ht
    obtain ⟨n, hn, rfl⟩ := hsub t ht
    exact List.mem_map_of_mem hn
  have := (hnd.subperm hs).length_le
  rwa [List.length_map] at this

/-- A walk that comes back to a visited node makes the check fail with
    `SCHEDULER-403`.  The loop does not stop earlier: while it has only seen
    nodes once, it has a round left. -/
theorem checkLoop_circular (hn : n ∈ c.nodes) (hnd : nodeSet.Nodup)
    (hsub : ∀ t ∈ nodeSet, c.Known t) (hnew : n.orderState ∉ nodeSet)
    (hfuel : c.nodes.length < fuel + nodeSet.length)
    (hback : ∃ j, ∃ t ∈ n.orderState :: nodeSet,
      walk (skip c) (j + 1) n.orderState = some t) :
    c.checkLoop start fuel nodeSet n = .error (.xc "SCHEDULER-403" [start.orderState]) := by
  induction fuel generalizing n nodeSet with
  | zero =>
      have := nodeSet_length hnd hsub
      omega
  | succ fuel ih =>
      obtain ⟨j, t, ht, hw⟩ := hback
      cases hs : skip c n.orderState with
      | none =>
          rw [walk_succ_of_none hs] at hw
          cases hw
      | some t' =>
          rw [walk_succ_of_next hs] at hw
          obtain ⟨ha, next, hnext, rfl, hok⟩ := nextNode_of_skip hn hs
          simp only [JobChain.checkLoop]
          rw [if_pos ha, hok]
          by_cases hseen : next.orderState ∈ n.orderState :: nodeSet
          · exact if_pos hseen
          · refine (if_neg hseen).trans (ih hnext (List.nodup_cons.mpr ⟨hnew, hnd⟩) ?_ hseen ?_ ?_)
            · intro u hu
              obtain rfl | hu := List.mem_cons.mp hu
              · exact JobChain.known_of_mem hn
              · exact hsub u hu
            · rw [List.length_cons]
              omega
            · cases j with
              | zero =>
                  -- the walk is back already: then the next node was seen
                  cases hw
                  exact absurd ht hseen
              | succ j => exact ⟨j, t, List.mem_cons_of_mem _ ht, hw⟩

/-- A walk that ends at a node that is not skipped passes the check. -/
theorem checkLoop_ok (hn : n ∈ c.nodes) (hnd : nodeSet.Nodup)
    (hsub : ∀ t ∈ nodeSet, c.Known t) (hnew : n.orderState ∉ nodeSet)
    (hfuel : c.nodes.length < fuel + nodeSet.length)
    (hapart : ∀ i t, walk (skip c) i n.orderState = some t → t ∉ nodeSet)
    (hfirst : FirstNotSkipped c k n.orderState r) :
    c.checkLoop start fuel nodeSet n = .ok () := by
  induction fuel generalizing n nodeSet k with
  | zero =>
      have := nodeSet_length hnd hsub
      omega
  | succ fuel ih =>
      simp only [JobChain.checkLoop]
      obtain ⟨-, -, hna⟩ | ⟨i, t, hi, hs, hrest⟩ := hfirst.cases_on_skip
      · exact if_neg hna
      · obtain ⟨ha, next, hnext, rfl, hok⟩ := nextNode_of_skip hn hs
        -- the walk does not come back to `n`, for it ends
        have hne : ∀ i, walk (skip c) i next.orderState ≠ some n.orderState := by
          intro i' hw
          have hback : walk (skip c) (i' + 1) n.orderState = some n.orderState :=
            (walk_succ_of_next hs).trans hw
          have hlen := (hfirst.1.unique (hfirst.1.rest hback)).1
          have hle := hfirst.1.le hback
          omega
        have hapart' : ∀ i t, walk (skip c) i next.orderState = some t →
            t ∉ n.orderState :: nodeSet := by
          intro i' t hw hmem
          obtain rfl | hmem := List.mem_cons.mp hmem
          · exact hne i' hw
          · exact hapart (i' + 1) t ((walk_succ_of_next hs).trans hw) hmem
        have hseen := hapart' 0 next.orderState rfl
        rw [if_pos ha, hok]
        refine (if_neg hseen).trans
          (ih hnext (List.nodup_cons.mpr ⟨hnew, hnd⟩) ?_ hseen ?_ hapart' hrest)
        · intro u hu
          obtain rfl | hu := List.mem_cons.mp hu
          · exact JobChain.known_of_mem hn
          · exact hsub u hu
        · rw [List.length_cons]
          omega

/-- The check of a walk that comes back to its start. -/
theorem checkJobChainNode_circular (hn : n ∈ c.nodes)
    (hback : walk (skip c) (k + 1) n.orderState = some n.orderState) :
    c.checkJobChainNode n = .error (.xcCause "SCHEDULER-406" [n.orderState]
      (.xc "SCHEDULER-403" [n.orderState])) := by
  simp only [JobChain.checkJobChainNode]
  rw [checkLoop_circular hn List.nodup_nil (fun _ h => absurd h List.not_mem_nil)
    List.not_mem_nil (by simp) ⟨k, n.orderState, List.mem_cons_self .., hback⟩]

/-- The check of a walk that ends at a node that is not skipped. -/
theorem checkJobChainNode_ok (hn : n ∈ c.nodes) (h : FirstNotSkipped c k n.orderState r) :
    c.checkJobChainNode n = .ok () := by
  simp only [JobChain.checkJobChainNode]
  rw [checkLoop_ok hn List.nodup_nil (fun _ h => absurd h List.not_mem_nil)
    List.not_mem_nil (by simp) (fun _ _ _ => List.not_mem_nil) h]

/-! ## Changing an action -/

/-- Writing an action changes the walk at that node only. -/
theorem skip_withAction (hn : n ∈ c.nodes) :
    skip (c.withAction n.orderState a) = Function.update (skip c) n.orderState
      (if a = .nextState then n.nextState else none) := by
  funext s
  by_cases hs : s = n.orderState
  · subst hs
    rw [Function.update_self]
    by_cases ha : a = .nextState
    · rw [if_pos ha]
      exact skip_of_mem (c := c.withAction _ _) hn (by rw [withAction_action_self, ha])
    · rw [if_neg ha]
      exact skip_of_ne (by rwa [withAction_action_self])
  · rw [Function.update_of_ne hs]
    simp only [skip, withAction_action_of_ne hs, withAction_nodeFromStateOrNull]

/-- The call makes the node skipped, and the walk then comes back to it. -/
def Closes (c : JobChain) (n : Node) : Prop :=
  c.action n.orderState ≠ .nextState ∧
    ∃ k, walk (skip (c.withAction n.orderState .nextState)) (k + 1) n.orderState
      = some n.orderState

/-- The condition on a call: it skips a node only where another node follows
    that is not skipped, and no 1000 nodes are then skipped one after another. -/
def Fits (c : JobChain) (n : Node) (a : Action) : Prop :=
  a = .nextState → c.action n.orderState ≠ .nextState →
    ∃ s ∈ n.nextState, ∃ k r, FirstNotSkipped c k s r ∧ r ≠ n.orderState ∧
      ∀ t j, Ends (skip c) j t n.orderState → j + (1 + k) < 1000

/-- From every state a node that is not skipped follows, before 1000 steps. -/
def Directed (c : JobChain) : Prop :=
  ∀ s, c.Known s → ∃ k < 1000, ∃ r, FirstNotSkipped c k s r

theorem withAction_same (h : c.action s = a) : c.withAction s a = c := by
  show { c with action := Function.update c.action s a } = c
  rw [← h, Function.update_eq_self]

/-- A call that fits keeps a chain directed. -/
theorem Directed.withAction (hd : Directed c) (hn : n ∈ c.nodes) (hfit : Fits c n a) :
    Directed (c.withAction n.orderState a) := by
  intro s hs
  obtain ⟨j, hj, e, hend, hne⟩ := hd s hs
  by_cases hsame : c.action n.orderState = a
  · rw [withAction_same hsame]
    exact ⟨j, hj, e, hend, hne⟩
  by_cases ha : a = .nextState
  · -- the node becomes skipped: walks that ended there go on to `r`
    subst ha
    obtain ⟨t, ht, k, r, ⟨hr, hra⟩, hrn, hlen⟩ := hfit rfl hsame
    have hskip : skip (c.withAction n.orderState .nextState)
        = Function.update (skip c) n.orderState (some t) := by
      rw [skip_withAction hn, if_pos rfl, ht]
    obtain ⟨he, hend'⟩ | ⟨he, hend'⟩ := Ends.link (skip_of_ne hsame) hr hrn hend
    · refine ⟨j + (1 + k), hlen s j (he ▸ hend), r, by rwa [hskip], ?_⟩
      rwa [withAction_action_of_ne hrn]
    · refine ⟨j, hj, e, by rwa [hskip], ?_⟩
      rwa [withAction_action_of_ne he]
  · -- the node is no longer skipped: walks that passed it end there
    have hskip : skip (c.withAction n.orderState a)
        = Function.update (skip c) n.orderState none := by
      rw [skip_withAction hn, if_neg ha]
    obtain ⟨i, hi, e', hend', hor⟩ := hend.unlink (n := n.orderState)
    refine ⟨i, by omega, e', by rwa [hskip], ?_⟩
    by_cases he' : e' = n.orderState
    · rw [he', withAction_action_self]
      exact ha
    · rw [withAction_action_of_ne he']
      rwa [hor.resolve_left he']

/-- A directed chain has no cycle of skipped nodes. -/
theorem Directed.acyclic (hd : Directed c) : Acyclic (skip c) := by
  refine acyclic_of_ends fun s => ?_
  by_cases hs : c.Known s
  · obtain ⟨k, -, r, he, -⟩ := hd s hs
    exact ⟨k, r, he⟩
  · exact ⟨0, s, Ends.zero (skip_unknown hs)⟩

/-- A directed chain finds a node for every state. -/
theorem Directed.referenced (hd : Directed c) (hn : n ∈ c.nodes) :
    ∃ m ∈ c.nodes, (∃ k, FirstNotSkipped c k n.orderState m.orderState) ∧
      c.referencedNodeFromState (some n.orderState) = .ok m := by
  obtain ⟨k, hk, r, hfirst⟩ := hd _ (JobChain.known_of_mem hn)
  have hr : c.Known r := by
    -- the walk only passes states of the chain
    clear hk
    induction k generalizing n with
    | zero =>
        obtain ⟨-, hnr, -⟩ | ⟨i, t, hi, -⟩ := hfirst.cases_on_skip
        · exact hnr ▸ JobChain.known_of_mem hn
        · omega
    | succ k ih =>
        obtain ⟨hk, -⟩ | ⟨i, t, hi, hs, hrest⟩ := hfirst.cases_on_skip
        · omega
        · obtain rfl : k = i := by omega
          obtain ⟨n', hn', rfl⟩ := known_of_skip hs
          exact ih hn' hrest
  obtain ⟨m, hm, rfl⟩ := hr
  exact ⟨m, hm, ⟨k, hfirst⟩, (referencedNodeFromState_ok_iff hn).mpr ⟨hm, k, hk, hfirst⟩⟩

/-- On an active chain, a call that would close a cycle fails. -/
theorem setAction_closes (hact : c.state = .active) (hn : n ∈ c.nodes) (hcl : Closes c n) :
    (setAction n .nextState c).1 = .error (.xcCause "SCHEDULER-406" [n.orderState]
      (.xc "SCHEDULER-403" [n.orderState])) := by
  obtain ⟨hne, k, hback⟩ := hcl
  have hback' := checkJobChainNode_circular (c := c.withAction n.orderState .nextState) hn hback
  rw [setAction_active hne (Nat.le_of_eq (congrArg State.rank hact).symm), hback']

/-- On an active directed chain, a call that fits does not fail. -/
theorem setAction_fits (hact : c.state = .active) (hd : Directed c) (hn : n ∈ c.nodes)
    (hfit : Fits c n a) : ∃ b, (setAction n a c).1 = .ok b := by
  by_cases hsame : c.action n.orderState = a
  · exact ⟨false, by rw [setAction_same hsame]⟩
  · obtain ⟨k, -, r, hfirst⟩ := hd.withAction hn hfit _ (JobChain.known_of_mem hn)
    have hok := checkJobChainNode_ok (c := c.withAction n.orderState a) hn hfirst
    exact ⟨true, by rw [setAction_active hsame (Nat.le_of_eq (congrArg State.rank hact).symm), hok]⟩

/-! ## Runs -/

/-- What changes the actions and the state of a chain: a command, a record of
    the database, the end of `on_load`, and `on_activate`. -/
inductive Op where
  | modify (state action : String)
  | databaseRecord (state : String) (action : Option String)
  | onLoad
  | onActivate

/-- The call of `set_action` that an operation comes down to, if it does. -/
def Op.call (c : JobChain) : Op → Option (Node × Action)
  | .modify s text => do
      let n ← c.nodeFromStateOrNull (some s)
      if text = "" then none
      else return (n, ← (actionFromString text).toOption)
  | .databaseRecord s text => do
      let n ← c.nodeFromStateOrNull (some s)
      return (n, ← match text with
        | none => some .process
        | some text => (actionFromString text).toOption)
  | .onLoad => none
  | .onActivate => none

/-- The chain after an operation, whether the call returned or threw. -/
def perform (c : JobChain) : Op → JobChain
  | .modify s text => final (executeXml s text) c
  | .databaseRecord s text => final (databaseReadNodeRecord s text) c
  | .onLoad => if c.state.rank < State.rank .loaded then { c with state := .loaded } else c
  | .onActivate => if c.state.rank < State.rank .active then { c with state := .active } else c

/-- One operation. -/
def Step (c : JobChain) (op : Op) (c' : JobChain) : Prop := c' = perform c op

/-- A chain whose configuration has been read: every node is processed. -/
def IsInitialized (c : JobChain) : Prop :=
  c.state = .initialized ∧ ∀ s, c.action s = .process

/-- The operation's call, if it makes one, fits the chain it finds. -/
def OpFits (c : JobChain) (op : Op) : Prop :=
  ∀ n a, op.call c = some (n, a) → Fits c n a

/-- An operation writes the action of its call, or leaves nodes and actions alone. -/
theorem perform_cases (c : JobChain) (op : Op) :
    (∃ n ∈ c.nodes, ∃ a, op.call c = some (n, a) ∧ perform c op = c.withAction n.orderState a) ∨
      ∃ st, perform c op = { c with state := st } := by
  cases op with
  | modify s text =>
      show (∃ n ∈ c.nodes, ∃ a, (Op.modify s text).call c = some (n, a) ∧
        final (executeXml s text) c = c.withAction n.orderState a) ∨
        ∃ st, final (executeXml s text) c = { c with state := st }
      simp only [final, executeXml, bind_run, get_run, ofExcept_run, Op.call]
      cases hf : c.nodeFromStateOrNull (some s) with
      | none =>
          rw [show c.nodeFromState (some s) = _ from nodeOrThrow_none hf]
          exact Or.inr ⟨c.state, rfl⟩
      | some n =>
          rw [show c.nodeFromState (some s) = .ok n from nodeOrThrow_some hf]
          by_cases ht : text = ""
          · simp only [ht, ne_eq, not_true_eq_false, if_false]
            exact Or.inr ⟨c.state, rfl⟩
          · simp only [ht, ne_eq, not_false_eq_true, if_true, if_false, bind_run, ofExcept_run]
            cases ha : actionFromString text with
            | error e => exact Or.inr ⟨c.state, rfl⟩
            | ok a =>
                exact Or.inl ⟨n, (mem_of_nodeFromStateOrNull hf).1, a, rfl,
                  setAction_final n a c⟩
  | databaseRecord s text =>
      show (∃ n ∈ c.nodes, ∃ a, (Op.databaseRecord s text).call c = some (n, a) ∧
        final (databaseReadNodeRecord s text) c = c.withAction n.orderState a) ∨
        ∃ st, final (databaseReadNodeRecord s text) c = { c with state := st }
      simp only [final, databaseReadNodeRecord, bind_run, get_run, Op.call]
      cases hf : c.nodeFromStateOrNull (some s) with
      | none => exact Or.inr ⟨c.state, rfl⟩
      | some n =>
          simp only [bind_run, ofExcept_run]
          cases text with
          | none =>
              exact Or.inl ⟨n, (mem_of_nodeFromStateOrNull hf).1, .process, rfl,
                setAction_final n _ c⟩
          | some text =>
              cases ha : actionFromString text with
              | error e =>
                  refine Or.inr ⟨c.state, ?_⟩
                  simp only [ha]
              | ok a =>
                  refine Or.inl ⟨n, (mem_of_nodeFromStateOrNull hf).1, a, ?_, ?_⟩
                  · simp only [ha]
                    rfl
                  · simp only [ha]
                    exact setAction_final n a c
  | onLoad =>
      by_cases h : c.state.rank < State.rank .loaded
      · exact Or.inr ⟨.loaded, if_pos h⟩
      · exact Or.inr ⟨c.state, if_neg h⟩
  | onActivate =>
      by_cases h : c.state.rank < State.rank .active
      · exact Or.inr ⟨.active, if_pos h⟩
      · exact Or.inr ⟨c.state, if_neg h⟩

/-- What every reached chain is to satisfy. -/
structure Sound (c : JobChain) : Prop where
  /-- There is no cycle of skipped nodes. -/
  noCycle : Acyclic (skip c)
  /-- A call that would close one fails. -/
  closingFails : c.state = .active → ∀ n ∈ c.nodes, Closes c n →
    (setAction n .nextState c).1 = .error (.xcCause "SCHEDULER-406" [n.orderState]
      (.xc "SCHEDULER-403" [n.orderState]))
  /-- No other call fails, so none fails after it has written an action. -/
  fittingSucceeds : c.state = .active → ∀ n ∈ c.nodes, ∀ a, Fits c n a →
    ∃ b, (setAction n a c).1 = .ok b
  /-- Every state has a first node that is not skipped, and it is found. -/
  firstFound : ∀ n ∈ c.nodes, ∃ m ∈ c.nodes,
    (∃ k, FirstNotSkipped c k n.orderState m.orderState) ∧
      c.referencedNodeFromState (some n.orderState) = .ok m

theorem Directed.sound (hd : Directed c) : Sound c where
  noCycle := hd.acyclic
  closingFails hact _ hn hcl := setAction_closes hact hn hcl
  fittingSucceeds hact _ hn _ hfit := setAction_fits hact hd hn hfit
  firstFound _ hn := hd.referenced hn

theorem directed_of_initialized (h : IsInitialized c) : Directed c := by
  intro s _
  exact ⟨0, by omega, s, FirstNotSkipped.here (by rw [h.2 s]; nofun)⟩

theorem Directed.step {c' : JobChain} {op : Op} (hd : Directed c)
    (hs : Guarded OpFits Step c op c') : Directed c' := by
  obtain ⟨hfit, rfl⟩ := hs
  obtain ⟨n, hn, a, hcall, hp⟩ | ⟨st, hp⟩ := perform_cases c op
  · rw [hp]
    exact hd.withAction hn (hfit n a hcall)
  · rw [hp]
    exact hd

/-- **NO CYCLE OF SKIPPED NODES**, in every run whose calls fit: each skips a
    node only where another node follows that is not skipped, less than 1000
    nodes on. -/
theorem skipped_nodes_over_runs (h : Reach IsInitialized (Guarded OpFits Step) c) : Sound c :=
  Directed.sound (h.invariant (fun _ => directed_of_initialized)
    fun _ _ _ hd hs => hd.step hs)

/-! ## A cycle that stays -/

/-- Two job nodes that are each other's next state, and an end node. -/
def twoNodes : List Node :=
  [{ type := .job, orderState := "a", nextState := some "b", errorState := none },
   { type := .job, orderState := "b", nextState := some "a", errorState := none },
   { type := .endNode, orderState := "end", nextState := none, errorState := none }]

/-- The chain of these nodes, as its configuration leaves it. -/
def twoNodeChain : JobChain where
  path := "/chain"
  state := .initialized
  nodes := twoNodes
  action := fun _ => .process
  statesUnique := by decide
  nextKnown := by decide
  errorKnown := by decide

/-- The chain in operation, with its first node skipped. -/
def firstSkipped : JobChain :=
  [Op.onLoad, .onActivate, .modify "a" "next_state"].foldl perform twoNodeChain

/-- The command that skips the second node too fails with the cycle, and leaves
    it: the node's action is changed, and the walk from it comes back. -/
theorem closed_cycle_stays :
    ∃ n ∈ firstSkipped.nodes, Reach IsInitialized Step firstSkipped ∧
      firstSkipped.state = .active ∧ Closes firstSkipped n ∧
      (setAction n .nextState firstSkipped).1
        = .error (.xcCause "SCHEDULER-406" ["b"] (.xc "SCHEDULER-403" ["b"])) ∧
      (final (setAction n .nextState) firstSkipped).action "b" ≠ firstSkipped.action "b" ∧
      ¬Acyclic (skip (final (setAction n .nextState) firstSkipped)) := by
  have h0 : Reach IsInitialized Step twoNodeChain := Reach.start ⟨rfl, fun _ => rfl⟩
  have hstep : ∀ c op, Step c op (perform c op) := fun _ _ => rfl
  have hreach : Reach IsInitialized Step firstSkipped := Reach.foldl hstep h0 _
  have hback : walk (skip (final (setAction twoNodes[1] .nextState) firstSkipped)) 2 "b"
      = some "b" := by decide
  refine ⟨twoNodes[1], by decide, hreach, rfl, ⟨by decide, 1, ?_⟩, by decide, by decide, ?_⟩
  · rw [← setAction_final]
    exact hback
  · intro h
    exact h "b" 1 hback

/-- A run of calls that fit: skipping the first node of the chain. -/
theorem firstSkipped_sound : Sound firstSkipped := by
  refine skipped_nodes_over_runs ?_
  have hfits : ∀ c : JobChain, ∀ op : Op, op.call c = none → OpFits c op := by
    intro c op h n a hc
    rw [h] at hc
    cases hc
  have h0 : Reach IsInitialized (Guarded OpFits Step) twoNodeChain :=
    Reach.start ⟨rfl, fun _ => rfl⟩
  have h1 := h0.next (o := .onLoad) ⟨hfits _ _ rfl, rfl⟩
  have h2 := h1.next (o := .onActivate) ⟨hfits _ _ rfl, rfl⟩
  refine h2.next (o := .modify "a" "next_state") ⟨?_, rfl⟩
  intro n a hc _ _
  have hn : n = twoNodes[0] := (congrArg Prod.fst (Option.some.inj hc)).symm
  subst hn
  have hb : (perform (perform twoNodeChain .onLoad) .onActivate).action "b" ≠ .nextState := by
    decide
  refine ⟨"b", rfl, 0, "b", FirstNotSkipped.here hb, by decide, ?_⟩
  intro t j he
  have hnone : ∀ s, skip (perform (perform twoNodeChain .onLoad) .onActivate) s = none :=
    fun s => skip_of_ne (by show Action.process ≠ _; decide)
  have hj := (he.unique (Ends.zero (hnone t))).1
  omega

end SkippedNode
