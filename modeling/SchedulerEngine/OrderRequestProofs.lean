import SchedulerEngine.OrderStepProofs

/-! # Asking a node for an order, and fetching one

    A task asks the node of its job whether there is an order, and is started to fetch
    it.  Both go through the queue, the order sources of the node and those of the
    skipped nodes, each in a loop of its own.  An order source is what it answers: it is
    the same for both, since nothing changes between the two calls. -/

namespace OrderRequest

open FileBased (Failure)
open Execution Execution.Exec JobChainNode OrderWorld OrderQueue OrderMove OrderStep

/-- A pointer to an order source. -/
abbrev SourceRef := Nat

/-- An `Order_source`: what `request_order` returns, and the order of
    `fetch_and_occupy_order`. -/
structure OrderSource where
  requestOrder : Bool
  fetchAndOccupyOrder : Option OrderRef

/-- What a node sees of order sources and skipped nodes. -/
structure Sources where
  source : SourceRef → OrderSource
  /-- `_order_source_list` -/
  orderSourceList : NodeRef → List SourceRef
  skippedOrderQueueNodes : NodeRef → List NodeRef
  /-- `_has_tip_for_new_order` of the queue of a node -/
  hasTipForNewOrder : NodeRef → Bool

variable (S : Sources) (n : NodeRef) (task : Task) (time : Nat)

/-! ## Asking -/

/-- The variable `result`, and the sources that have answered true. -/
abbrev Answer := Bool × List SourceRef

/-- The loop through a source list; it leaves `result` alone if the list is empty. -/
def askSources : List SourceRef → Answer → Answer
  | [], a => a
  | j :: js, a =>
      if (S.source j).requestOrder then (true, j :: a.2) else askSources js (false, a.2)

/-- The loop through the skipped nodes. -/
def askSkippedNodes : List NodeRef → Answer → Answer
  | [], a => a
  | i :: is, a =>
      let a := askSources S (S.orderSourceList i) a
      if a.1 then a else askSkippedNodes is a

/-- `Order_queue::request_order` -/
def queueRequestOrder : Method Bool :=
  if S.hasTipForNewOrder n then pure true else OrderQueue.requestOrder n time

/-- `Order_queue_node::request_order` -/
def requestOrder : Method Answer := do
  let result ← queueRequestOrder S n time
  let w ← get
  if !result && w.untouchedIsAllowed n.chain then
    pure (askSkippedNodes S (S.skippedOrderQueueNodes n)
      (askSources S (S.orderSourceList n) (result, [])))
  else pure (result, [])

/-! ## Fetching -/

/-- The order, and the source that it comes from if it is not from the queue. -/
structure Fetched where
  order : OrderRef
  source : Option SourceRef

def fetchFromSources : List SourceRef → Option Fetched
  | [] => none
  | j :: js =>
      match (S.source j).fetchAndOccupyOrder with
      | some o => some ⟨o, some j⟩
      | none => fetchFromSources js

def fetchFromSkippedNodes : List NodeRef → Option Fetched
  | [] => none
  | i :: is =>
      match fetchFromSources S (S.orderSourceList i) with
      | some f => some f
      | none => fetchFromSkippedNodes is

/-- The sources of the node, and then those of the skipped nodes. -/
def fetchFromAllSources : Option Fetched :=
  match fetchFromSources S (S.orderSourceList n) with
  | some f => some f
  | none => fetchFromSkippedNodes S (S.skippedOrderQueueNodes n)

/-- `Order_queue::fetch_and_occupy_order` -/
def queueFetchAndOccupyOrder (untouchedIsAllowed : Bool) : Method (Option OrderRef) := do
  checkOrdersForReplacingOrRemoving n
  let order ← firstImmediatelyProcessableOrder n untouchedIsAllowed time
  match order with
  | none => pure none
  | some o => do
      occupyForTask o task
      pure (some o)

/-- `Order_queue_node::fetch_and_occupy_order`, without a required process class. -/
def fetchAndOccupyOrder : Method (Option Fetched) := do
  let w ← get
  if w.orderQueueNodeIsReady n then do
    let u := w.untouchedIsAllowed n.chain
    let order ← queueFetchAndOccupyOrder n task time u
    let w ← get
    let fetched : Option Fetched := match order with
      | some o => some ⟨o, none⟩
      | none => if u ∧ w.action n ≠ .nextState then fetchFromAllSources S n else none
    match fetched with
    | some f => do
        onOccupied f.order
        pure (some f)
    | none => pure none
  else pure none

/-! ## Whether they agree -/

/-- No order of this node waits for its replacement or removal, which fetching would do
    first. -/
def Quiet (w : World) : Prop :=
  ∀ o ∈ w.standingOrders, (w.order o).jobChainPath = (w.chain n.chain).path →
    (w.order o).state = some n.node.orderState → isRemovableOrReplaceable w o = true →
      (w.order o).fileChange = .unchanged

/-- If the answer is no, then no order is fetched from the queue or from a source that
    has answered yes. -/
def Agrees (w : World) : Prop :=
  ∀ yes w₁, requestOrder S n time w = (.ok (false, yes), w₁) →
    ∀ f w₂, fetchAndOccupyOrder S n task time w₁ = (.ok (some f), w₂) →
      ∃ s, f.source = some s ∧ s ∉ yes

/-- The first source of the node that has an order answers yes, and the sources of the
    skipped nodes, of which the first has some, all answer no. -/
structure Overwritten (w : World) : Prop where
  ready : w.orderQueueNodeIsReady n = true
  untouchedIsAllowed : w.untouchedIsAllowed n.chain = true
  action : w.action n ≠ .nextState
  noTip : S.hasTipForNewOrder n = false
  queue : w.firstEligible true time (w.queue n) = none
  own : ∃ l s r, S.orderSourceList n = l ++ s :: r ∧ (S.source s).requestOrder = true ∧
    (S.source s).fetchAndOccupyOrder.isSome = true ∧
    ∀ j ∈ l, (S.source j).requestOrder = false ∧ (S.source j).fetchAndOccupyOrder = none
  skipped : ∃ i is, S.skippedOrderQueueNodes n = i :: is ∧ S.orderSourceList i ≠ [] ∧
    ∀ k ∈ i :: is, ∀ j ∈ S.orderSourceList k, (S.source j).requestOrder = false

variable {S} {n} {task} {time}

/-! ## The loops -/

theorem askSources_no {js : List SourceRef} {a : Answer}
    (h : ∀ j ∈ js, (S.source j).requestOrder = false) :
    askSources S js a = if js = [] then a else (false, a.2) := by
  induction js generalizing a with
  | nil => rfl
  | cons j js ih =>
      rw [askSources, h j (List.mem_cons_self ..), if_neg (Bool.false_ne_true),
        ih fun x hx => h x (List.mem_cons_of_mem _ hx), if_neg (List.cons_ne_nil _ _)]
      split
      · rfl
      · rfl

/-- Either all answer no, or one is the first to answer yes. -/
theorem askSources_cases (js : List SourceRef) (a : Answer) :
    (∀ j ∈ js, (S.source j).requestOrder = false) ∨
    ∃ l s r, js = l ++ s :: r ∧ (S.source s).requestOrder = true ∧
      (∀ j ∈ l, (S.source j).requestOrder = false) ∧ askSources S js a = (true, s :: a.2) := by
  induction js generalizing a with
  | nil => exact .inl nofun
  | cons j js ih =>
      cases hj : (S.source j).requestOrder with
      | true =>
          refine .inr ⟨[], j, js, rfl, hj, nofun, ?_⟩
          rw [askSources, if_pos hj]
      | false =>
          rcases ih (false, a.2) with h | ⟨l, s, r, hjs, hs, hl, hask⟩
          · left
            intro x hx
            rcases List.mem_cons.mp hx with rfl | hx
            · exact hj
            · exact h x hx
          · refine .inr ⟨j :: l, s, r, by rw [hjs]; rfl, hs, fun x hx => ?_, ?_⟩
            · rcases List.mem_cons.mp hx with rfl | hx
              · exact hj
              · exact hl x hx
            · rw [askSources, hj, if_neg Bool.false_ne_true, hask]

/-- Without a yes before, the skipped nodes' answer is no only if all answer no. -/
theorem askSkippedNodes_eq_no {is : List NodeRef} {yes yes' : List SourceRef}
    (h : askSkippedNodes S is (false, yes) = (false, yes')) :
    yes' = yes ∧ ∀ k ∈ is, ∀ j ∈ S.orderSourceList k, (S.source j).requestOrder = false := by
  induction is with
  | nil =>
      cases h
      exact ⟨rfl, nofun⟩
  | cons i is ih =>
      rw [askSkippedNodes] at h
      rcases askSources_cases (S.orderSourceList i) (false, yes) with hno | ⟨l, s, r, _, _, _, hask⟩
      · have hstep : askSources S (S.orderSourceList i) (false, yes) = (false, yes) := by
          rw [askSources_no hno, ite_self]
        rw [hstep] at h
        obtain ⟨h1, h2⟩ := ih h
        refine ⟨h1, fun k hk => ?_⟩
        rcases List.mem_cons.mp hk with rfl | hk
        · exact hno
        · exact h2 k hk
      · rw [hask] at h
        cases h

theorem askSkippedNodes_no {is : List NodeRef} {yes : List SourceRef}
    (h : ∀ k ∈ is, ∀ j ∈ S.orderSourceList k, (S.source j).requestOrder = false) :
    askSkippedNodes S is (false, yes) = (false, yes) := by
  induction is with
  | nil => rfl
  | cons i is ih =>
      have hstep : askSources S (S.orderSourceList i) (false, yes) = (false, yes) := by
        rw [askSources_no (h i (List.mem_cons_self ..)), ite_self]
      rw [askSkippedNodes, hstep]
      exact ih fun k hk => h k (List.mem_cons_of_mem _ hk)

/-- After a yes, the answer is no only if the first skipped node has sources, and all
    answer no. -/
theorem askSkippedNodes_overwrites {is : List NodeRef} {yes yes' : List SourceRef}
    (h : askSkippedNodes S is (true, yes) = (false, yes')) :
    yes' = yes ∧ ∃ i rest, is = i :: rest ∧ S.orderSourceList i ≠ [] ∧
      ∀ k ∈ is, ∀ j ∈ S.orderSourceList k, (S.source j).requestOrder = false := by
  cases is with
  | nil => cases h
  | cons i rest =>
      rw [askSkippedNodes] at h
      rcases askSources_cases (S.orderSourceList i) (true, yes) with hno | ⟨l, s, r, _, _, _, hask⟩
      · rw [askSources_no hno] at h
        by_cases hnil : S.orderSourceList i = []
        · rw [if_pos hnil] at h
          cases h
        · rw [if_neg hnil] at h
          obtain ⟨h1, h2⟩ := askSkippedNodes_eq_no h
          refine ⟨h1, i, rest, rfl, hnil, fun k hk => ?_⟩
          rcases List.mem_cons.mp hk with rfl | hk
          · exact hno
          · exact h2 k hk
      · rw [hask] at h
        cases h

/-- The first source that has an order. -/
theorem fetchFromSources_eq_some {js : List SourceRef} {f : Fetched}
    (h : fetchFromSources S js = some f) :
    ∃ l s r, js = l ++ s :: r ∧ f.source = some s ∧
      (S.source s).fetchAndOccupyOrder = some f.order ∧
      ∀ j ∈ l, (S.source j).fetchAndOccupyOrder = none := by
  induction js with
  | nil => cases h
  | cons j js ih =>
      rw [fetchFromSources] at h
      cases hj : (S.source j).fetchAndOccupyOrder with
      | some o =>
          rw [hj] at h
          cases h
          exact ⟨[], j, js, rfl, rfl, hj, nofun⟩
      | none =>
          rw [hj] at h
          obtain ⟨l, s, r, hjs, h1, h2, h3⟩ := ih h
          refine ⟨j :: l, s, r, by rw [hjs]; rfl, h1, h2, fun x hx => ?_⟩
          rcases List.mem_cons.mp hx with rfl | hx
          · exact hj
          · exact h3 x hx

theorem fetchFromSources_eq_none {js : List SourceRef} (h : fetchFromSources S js = none) :
    ∀ j ∈ js, (S.source j).fetchAndOccupyOrder = none := by
  induction js with
  | nil => exact nofun
  | cons j js ih =>
      rw [fetchFromSources] at h
      cases hj : (S.source j).fetchAndOccupyOrder with
      | some o =>
          rw [hj] at h
          cases h
      | none =>
          rw [hj] at h
          intro x hx
          rcases List.mem_cons.mp hx with rfl | hx
          · exact hj
          · exact ih h x hx

theorem fetchFromSources_append {l r : List SourceRef} {s : SourceRef} {o : OrderRef}
    (hl : ∀ j ∈ l, (S.source j).fetchAndOccupyOrder = none)
    (hs : (S.source s).fetchAndOccupyOrder = some o) :
    fetchFromSources S (l ++ s :: r) = some ⟨o, some s⟩ := by
  induction l with
  | nil =>
      rw [List.nil_append, fetchFromSources, hs]
  | cons j l ih =>
      rw [List.cons_append, fetchFromSources, hl j (List.mem_cons_self ..)]
      exact ih fun x hx => hl x (List.mem_cons_of_mem _ hx)

/-- From a skipped node comes an order of one of its sources. -/
theorem fetchFromSkippedNodes_eq_some {is : List NodeRef} {f : Fetched}
    (h : fetchFromSkippedNodes S is = some f) :
    ∃ s, f.source = some s ∧ (S.source s).fetchAndOccupyOrder = some f.order := by
  induction is with
  | nil => cases h
  | cons i is ih =>
      rw [fetchFromSkippedNodes] at h
      cases hi : fetchFromSources S (S.orderSourceList i) with
      | some f' =>
          rw [hi] at h
          cases h
          obtain ⟨_, s, _, _, h1, h2, _⟩ := fetchFromSources_eq_some hi
          exact ⟨s, h1, h2⟩
      | none =>
          rw [hi] at h
          exact ih h

/-! ## Both calls -/

variable {w w₁ : World} {yes : List SourceRef}

/-- What is known when the answer is no; nothing has changed. -/
structure SaidNo (S : Sources) (n : NodeRef) (time : Nat) (w w₁ : World) (yes : List SourceRef) :
    Prop where
  same : w₁ = w
  noTip : S.hasTipForNewOrder n = false
  queue : w.firstEligible (w.untouchedIsAllowed n.chain) time (w.queue n) = none
  sources : (w.untouchedIsAllowed n.chain = false ∧ yes = []) ∨
    (w.untouchedIsAllowed n.chain = true ∧
      askSkippedNodes S (S.skippedOrderQueueNodes n)
        (askSources S (S.orderSourceList n) (false, [])) = (false, yes))

theorem queueRequestOrder_no (ht : S.hasTipForNewOrder n = false)
    (hq : w.firstEligible (w.untouchedIsAllowed n.chain) time (w.queue n) = none) :
    queueRequestOrder S n time w = (.ok false, w) := by
  rw [queueRequestOrder, ht]
  simp [OrderQueue.requestOrder, firstImmediatelyProcessableOrder, hq]

variable (S n time) in
theorem queueRequestOrder_cases (w : World) :
    (queueRequestOrder S n time w).1 = .ok true ∨
    (S.hasTipForNewOrder n = false ∧
      w.firstEligible (w.untouchedIsAllowed n.chain) time (w.queue n) = none) := by
  cases ht : S.hasTipForNewOrder n with
  | true =>
      left
      rw [queueRequestOrder, ht]
      rfl
  | false =>
      cases hq : w.firstEligible (w.untouchedIsAllowed n.chain) time (w.queue n) with
      | some o =>
          left
          rw [queueRequestOrder, ht]
          simp [OrderQueue.requestOrder, firstImmediatelyProcessableOrder, hq, write]
      | none => exact .inr ⟨rfl, rfl⟩

theorem requestOrder_no (h : requestOrder S n time w = (.ok (false, yes), w₁)) :
    SaidNo S n time w w₁ yes := by
  rcases queueRequestOrder_cases S n time w with hq | ⟨ht, hf⟩
  · rcases hr : queueRequestOrder S n time w with ⟨r, w'⟩
    rw [hr] at hq
    cases hq
    simp only [requestOrder, bind_run] at h
    rw [hr] at h
    cases h
  · simp only [requestOrder, bind_run] at h
    rw [queueRequestOrder_no ht hf] at h
    simp only [get_run, Bool.not_false, Bool.true_and] at h
    cases hu : w.untouchedIsAllowed n.chain with
    | true =>
        rw [hu, if_pos rfl] at h
        simp only [pure_run, Prod.mk.injEq, Except.ok.injEq] at h
        exact ⟨h.2.symm, ht, hf, .inr ⟨hu, h.1⟩⟩
    | false =>
        rw [hu, if_neg Bool.false_ne_true] at h
        cases h
        exact ⟨rfl, ht, hf, .inl ⟨hu, rfl⟩⟩

theorem requestOrder_run (ht : S.hasTipForNewOrder n = false)
    (hu : w.untouchedIsAllowed n.chain = true)
    (hq : w.firstEligible true time (w.queue n) = none) :
    requestOrder S n time w = (.ok (askSkippedNodes S (S.skippedOrderQueueNodes n)
      (askSources S (S.orderSourceList n) (false, []))), w) := by
  simp only [requestOrder, bind_run]
  rw [queueRequestOrder_no ht (by rw [hu, hq])]
  simp only [get_run, hu]
  rfl

/-- A quiet node is not changed before the search. -/
theorem checkOrdersForReplacingOrRemoving_quiet (h : Quiet n w) :
    checkOrdersForReplacingOrRemoving n w = (.ok (), w) := by
  have hloop : Triple (fun s => s = w) (checkOrdersForReplacingOrRemoving n) (fun _ s => s = w)
      fun _ _ => False := by
    refine Triple.get_bind_at (Triple.forEach fun o ho => Triple.get_bind_at ?_)
    refine Triple.onlyIf (fun hc => ?_) fun _ _ h => h
    refine Triple.tryCatch (F := fun _ _ => False) (Triple.get_bind_at ?_) fun _ _ h => h.elim
    refine Triple.onlyIf (fun hr => ?_) fun _ _ h => h
    rw [h o ho hc.1 hc.2 hr]
    exact Triple.pure fun _ h => h
  have hrun := hloop w rfl
  rcases hc : checkOrdersForReplacingOrRemoving n w with ⟨r, s⟩
  rw [hc] at hrun
  cases r with
  | ok u =>
      have hs : s = w := hrun
      rw [hs]
  | error e => exact False.elim hrun

theorem queueFetchAndOccupyOrder_none {u : Bool} (h : Quiet n w)
    (hq : w.firstEligible u time (w.queue n) = none) :
    queueFetchAndOccupyOrder n task time u w = (.ok none, w) := by
  rw [queueFetchAndOccupyOrder, bind_run, checkOrdersForReplacingOrRemoving_quiet h]
  simp only [firstImmediatelyProcessableOrder, bind_run, get_run, hq]
  rfl

variable (S task) in
/-- What is fetched when the queue has no order: one of a source, if one is asked. -/
theorem fetchAndOccupyOrder_run (h : Quiet n w)
    (hq : w.firstEligible (w.untouchedIsAllowed n.chain) time (w.queue n) = none) :
    (fetchAndOccupyOrder S n task time w).1 =
      .ok (if w.orderQueueNodeIsReady n = true ∧ w.untouchedIsAllowed n.chain = true ∧
        w.action n ≠ .nextState then fetchFromAllSources S n else none) := by
  simp only [fetchAndOccupyOrder, bind_run, get_run]
  cases hr : w.orderQueueNodeIsReady n with
  | false =>
      rw [if_neg Bool.false_ne_true, if_neg fun h => Bool.false_ne_true h.1]
      rfl
  | true =>
      rw [if_pos rfl, bind_run, queueFetchAndOccupyOrder_none h hq]
      simp only [bind_run, get_run]
      by_cases hu : w.untouchedIsAllowed n.chain = true ∧ w.action n ≠ .nextState
      · rw [if_pos hu, if_pos ⟨trivial, hu⟩]
        cases fetchFromAllSources S n with
        | none => rfl
        | some f => rfl
      · rw [if_neg hu, if_neg fun h => hu h.2]
        rfl

/-- The sources of the node come first. -/
theorem fetchFromAllSources_eq_some {f : Fetched} (h : fetchFromAllSources S n = some f) :
    fetchFromSources S (S.orderSourceList n) = some f ∨
    (fetchFromSources S (S.orderSourceList n) = none ∧
      ∃ s, f.source = some s ∧ (S.source s).fetchAndOccupyOrder = some f.order) := by
  rw [fetchFromAllSources] at h
  cases ho : fetchFromSources S (S.orderSourceList n) with
  | some f' =>
      rw [ho] at h
      exact .inl h
  | none =>
      rw [ho] at h
      exact .inr ⟨rfl, fetchFromSkippedNodes_eq_some h⟩

/-- A source that has answered yes before a no is one of the node, the first to do so. -/
theorem SaidNo.overwrites {s : SourceRef} (h : SaidNo S n time w w₁ yes) (hs : s ∈ yes) :
    w.untouchedIsAllowed n.chain = true ∧ (∃ l r, S.orderSourceList n = l ++ s :: r ∧
        (S.source s).requestOrder = true ∧ ∀ j ∈ l, (S.source j).requestOrder = false) ∧
      ∃ i is, S.skippedOrderQueueNodes n = i :: is ∧ S.orderSourceList i ≠ [] ∧
        ∀ k ∈ i :: is, ∀ j ∈ S.orderSourceList k, (S.source j).requestOrder = false := by
  rcases h.sources with ⟨_, hnil⟩ | ⟨hu, hask⟩
  · rw [hnil] at hs
    cases hs
  · refine ⟨hu, ?_⟩
    rcases askSources_cases (S.orderSourceList n) (false, []) with hno | ⟨l, t, r, hl, ht, hlno, hown⟩
    · have hown : askSources S (S.orderSourceList n) (false, []) = (false, []) := by
        rw [askSources_no hno, ite_self]
      rw [hown] at hask
      rw [(askSkippedNodes_eq_no hask).1] at hs
      cases hs
    · rw [hown] at hask
      obtain ⟨hyes, i, is, hskip, hne, hall⟩ := askSkippedNodes_overwrites hask
      rw [hyes] at hs
      have hst : s = t := List.mem_singleton.mp hs
      rw [hst]
      exact ⟨⟨l, r, hl, ht, hlno⟩, i, is, hskip, hne, by rwa [hskip] at hall⟩

/-- The source whose order is fetched is the one that has answered yes: it is the first
    of both kinds. -/
theorem first_of_both {own l r : List SourceRef} {s : SourceRef} {f : Fetched}
    (hl : own = l ++ s :: r) (hno : ∀ j ∈ l, (S.source j).requestOrder = false)
    (hf : fetchFromSources S own = some f) (hs : f.source = some s) :
    ∃ l' r', own = l' ++ s :: r' ∧ (S.source s).fetchAndOccupyOrder.isSome = true ∧
      ∀ j ∈ l', (S.source j).requestOrder = false ∧ (S.source j).fetchAndOccupyOrder = none := by
  obtain ⟨l', t, r', hl', ht, horder, hnone⟩ := fetchFromSources_eq_some hf
  have hst : t = s := Option.some.inj (ht.symm.trans hs)
  rw [hst] at hl' horder
  refine ⟨l', r', hl', by rw [horder]; rfl, fun j hj => ⟨?_, hnone j hj⟩⟩
  rcases List.append_eq_append_iff.mp (hl.symm.trans hl') with ⟨a, ha, hsa⟩ | ⟨a, ha, _⟩
  · cases a with
    | nil =>
        rw [ha, List.append_nil] at hj
        exact hno j hj
    | cons x a =>
        -- the source would stand among those that have no order
        cases hsa
        have hin : s ∈ l' := by
          rw [ha]
          exact List.mem_append_right _ (List.mem_cons_self ..)
        rw [hnone s hin] at horder
        cases horder
  · refine hno j ?_
    rw [ha]
    exact List.mem_append_left _ hj

theorem Overwritten.said_no (h : Overwritten S n time w) :
    ∃ s o, requestOrder S n time w = (.ok (false, [s]), w) ∧
      fetchFromAllSources S n = some ⟨o, some s⟩ := by
  obtain ⟨l, s, r, hl, hs, hf, hlno⟩ := h.own
  obtain ⟨i, is, hskip, hne, hall⟩ := h.skipped
  obtain ⟨o, ho⟩ := Option.isSome_iff_exists.mp hf
  have hown : askSources S (S.orderSourceList n) (false, []) = (true, [s]) := by
    rw [hl]
    clear hl
    induction l with
    | nil => rw [List.nil_append, askSources, if_pos hs]
    | cons j l ih =>
        rw [List.cons_append, askSources, (hlno j (List.mem_cons_self ..)).1,
          if_neg Bool.false_ne_true]
        exact ih fun x hx => hlno x (List.mem_cons_of_mem _ hx)
  refine ⟨s, o, ?_, ?_⟩
  · rw [requestOrder_run h.noTip h.untouchedIsAllowed h.queue, hown, hskip, askSkippedNodes,
      askSources_no (hall i (List.mem_cons_self ..)), if_neg hne]
    show (Except.ok (askSkippedNodes S is (false, [s])), w) = _
    rw [askSkippedNodes_no fun k hk => hall k (List.mem_cons_of_mem _ hk)]
  · rw [fetchFromAllSources, hl, fetchFromSources_append (fun j hj => (hlno j hj).2) ho]

/-- Where nothing waits to be replaced, asking and fetching agree unless a yes is
    overwritten. -/
theorem agrees_iff (S : Sources) (n : NodeRef) (task : Task) (time : Nat) (w : World)
    (hquiet : Quiet n w) : Agrees S n task time w ↔ ¬ Overwritten S n time w := by
  constructor
  · intro hagrees h
    obtain ⟨s, o, hask, hall⟩ := h.said_no
    have hrun := fetchAndOccupyOrder_run S task hquiet
      (by rw [h.untouchedIsAllowed, h.queue])
    rw [if_pos ⟨h.ready, h.untouchedIsAllowed, h.action⟩, hall] at hrun
    obtain ⟨t, ht, hnot⟩ := hagrees [s] w hask _ _ (Prod.ext hrun rfl)
    cases ht
    exact hnot (List.mem_singleton_self s)
  · intro hnot yes w₁ hask f w₂ hfetch
    have hno := requestOrder_no hask
    have hrun := fetchAndOccupyOrder_run S task hquiet hno.queue
    rw [← hno.same, hfetch] at hrun
    by_cases hguard : w₁.orderQueueNodeIsReady n = true ∧ w₁.untouchedIsAllowed n.chain = true ∧
        w₁.action n ≠ .nextState
    · rw [if_pos hguard] at hrun
      have hall : fetchFromAllSources S n = some f := (Except.ok.inj hrun).symm
      rcases fetchFromAllSources_eq_some hall with hown | ⟨hown, s, hs, horder⟩
      · obtain ⟨_, s, _, _, hs, _⟩ := fetchFromSources_eq_some hown
        refine ⟨s, hs, fun hin => hnot ?_⟩
        obtain ⟨hu, ⟨l, r, hl, hyes, hlno⟩, hskip⟩ := hno.overwrites hin
        obtain ⟨l', r', hl', hsome, hnone⟩ := first_of_both hl hlno hown hs
        rw [hno.same] at hguard
        exact ⟨hguard.1, hu, hguard.2.2, hno.noTip, by rw [← hno.queue, hu],
          ⟨l', s, r', hl', hyes, hsome, hnone⟩, hskip⟩
      · refine ⟨s, hs, fun hin => ?_⟩
        obtain ⟨_, ⟨l, r, hl, _, _⟩, _⟩ := hno.overwrites hin
        have hnone := fetchFromSources_eq_none hown s (by
          rw [hl]
          exact List.mem_append_right _ (List.mem_cons_self ..))
        rw [hnone] at horder
        cases horder
    · rw [if_neg hguard] at hrun
      cases hrun

/-! ### A directory at a node and at a skipped node -/

/-- `first` is skipped to `work`. -/
def sampleFirst : Node :=
  { type := .job, orderState := "first", nextState := some "work", errorState := none }

def sampleWork : Node :=
  { type := .job, orderState := "work", nextState := none, errorState := none }

def sampleChain : Chain where
  path := "/chain"
  state := .active
  nodes := [sampleFirst, sampleWork]
  action := fun s => if s = "first" then .nextState else .process
  statesUnique := by decide
  nextKnown := by decide
  errorKnown := by decide
  maxOrders := none
  isStopped := false
  isToBeRemoved := false
  hasInitializedReplacement := false
  ordersAreRecoverable := false
  orderIdSpace := []
  orderMap := ∅
  blacklistMap := ∅
  queue := fun _ => []

def sampleWorld : World where
  order := fun _ => {}
  chain := fun _ => sampleChain
  jobChainOrNull := fun _ => none
  standingOrders := []
  now := 0

def sampleTask : Task := ⟨"Task", 0, fun _ => 0⟩

/-- A file for `work` itself, and if `file` is true, one for `first`. -/
def sampleSources (file : Bool) : Sources where
  source := fun s => if s = 0 then ⟨true, some 7⟩ else ⟨file, none⟩
  orderSourceList := fun n => if n.node.orderState = "work" then [0] else [1]
  skippedOrderQueueNodes := fun _ => [⟨0, sampleFirst⟩]
  hasTipForNewOrder := fun _ => false

theorem sampleWorld_quiet : Quiet ⟨0, sampleWork⟩ sampleWorld := nofun

theorem sampleSources_agree : Quiet ⟨0, sampleWork⟩ sampleWorld ∧
    (Agrees (sampleSources true) ⟨0, sampleWork⟩ sampleTask 5 sampleWorld ↔
      ¬ Overwritten (sampleSources true) ⟨0, sampleWork⟩ 5 sampleWorld) :=
  ⟨sampleWorld_quiet,
    agrees_iff (sampleSources true) ⟨0, sampleWork⟩ sampleTask 5 sampleWorld sampleWorld_quiet⟩

/-- The file of `work` is fetched, though the answer was no. -/
theorem sampleSources_disagree :
    ¬ Agrees (sampleSources false) ⟨0, sampleWork⟩ sampleTask 5 sampleWorld := by
  intro h
  obtain ⟨s, hs, hnot⟩ := h [0] sampleWorld rfl ⟨7, some 0⟩ _ rfl
  cases hs
  exact hnot (List.mem_singleton_self 0)

end OrderRequest
