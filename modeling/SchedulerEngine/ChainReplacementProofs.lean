import SchedulerEngine.OrderSetbackProofs

/-! # Replacing a job chain

    When the file of a job chain has changed, the chain hands its orders over to
    its replacement and is closed.  Only orders that stand in the queue of a node
    whose state is a state of the new chain are handed over.  The file-based ones
    leave their chain, to be loaded again, and all others leave it as well. -/

namespace ChainReplacement

open FileBased (Failure)
open Execution Execution.Exec JobChainNode OrderWorld OrderQueue OrderMove OrderPlacement
open OrderClosed OrderMethods
open OrderSetback (anyMove sampleChain sampleEmpty)

/-! ## The methods -/

/-- `Standing_order_subsystem::order_or_null`, with the name of a file-based order
    taken apart. -/
def standingOrderOrNull (w : World) (path id : String) : Option OrderRef :=
  w.standingOrders.find? fun o =>
    (w.order o).fileBasedJobChainPath = path && (w.order o).id = id

/-- `Job_chain::has_order_in_task`. -/
def hasOrderInTask (w : World) (c : ChainRef) : Bool :=
  (w.chain c).nodes.any fun n =>
    n.type.isOrderQueue && (w.queue ⟨c, n⟩).any fun o => (w.order o).task.isSome

/-- `Job_chain::can_be_replaced_now`. -/
def canBeReplacedNow (w : World) (c : ChainRef) : Bool :=
  (w.chain c).hasInitializedReplacement && !hasOrderInTask w c

/-- The orders in the `_order_map` of a job chain. -/
def ordersOf (w : World) (c : ChainRef) : List OrderRef :=
  (w.chain c).orderMap.entries.map Sigma.snd

/-- `Job_chain::remove_all_pending_orders`, for the copy of the `_order_map` that it goes
    through. -/
def removeAllPendingOrders (c : ChainRef) (leaveInDatabase : Bool) (orders : List OrderRef) :
    Method Unit :=
  forEach (fun o => do
    let w ← get
    onlyIf ((w.order o).task.isNone = true)
      (if leaveInDatabase then removeFromChain c o else removeFromJobChain o true)) orders

/-- `Job_chain::close`, as far as it is about orders.  `visit` is the order in which a hash
    map is gone through. -/
def closeJobChain (visit : List OrderRef → List OrderRef) (c : ChainRef) : Method Unit := do
  let w ← get
  removeAllPendingOrders c true (visit (ordersOf w c))
  modify fun w => w.setChain c fun ch => { ch with blacklistMap := ∅, state := .closed }

/-- One order of an old queue goes to the replacement `r`. -/
def takeOrder (c r : ChainRef) (o : OrderRef) : Method Unit := do
  let w ← get
  onlyIf ((standingOrderOrNull w (w.chain c).path (w.order o).id).isNone = true) do
    removeFromChain c o
    addToJobChain r o

/-- The orders of the old node that has the state of a new one. -/
def takeOrders (c r : ChainRef) (new : Node) : Method Unit := do
  let w ← get
  onlyIf (new.type.isOrderQueue = true)
    (match (w.chain c).nodeFromStateOrNull (some new.orderState) with
    | some old =>
        onlyIf (old.type.isOrderQueue = true) (forEach (takeOrder c r) (w.queue ⟨c, old⟩))
    | none => pure ())

/-- A file-based order of the job chain leaves it. -/
def leaveByFile (c : ChainRef) (o : OrderRef) : Method Unit := do
  let w ← get
  onlyIf ((w.order o).jobChain.isSome = true
      ∧ (w.order o).fileBasedJobChainPath = (w.chain c).path)
    (removeFromChain c o)

/-- The file-based orders of the job chain leave it. -/
def removeStandingOrders (c : ChainRef) : Method Unit := do
  let w ← get
  forEach (leaveByFile c) w.standingOrders

/-- `Job_chain::on_replace_now`, up to the exchange of the two in their folder. -/
def onReplaceNow (visit : List OrderRef → List OrderRef) (c r : ChainRef) : Method Unit := do
  let w ← get
  require (canBeReplacedNow w c) (.function "on_replace_now")
  forEach (takeOrders c r) (w.chain r).nodes
  onlyIf ((w.chain c).containsNestedJobChains = false) (removeStandingOrders c)
  closeJobChain visit c
  onlyIf ((w.chain c).containsNestedJobChains = false) do
    let w ← get
    forEach (fun o => do
      let w ← get
      onlyIf ((w.order o).fileBasedJobChainPath = (w.chain c).path)
        (require (w.order o).jobChain.isNone (.assertion "!o->_job_chain"))) w.standingOrders

/-! ## What becomes of the orders -/

/-- An order that has left its job chain, for its task the one with this path. -/
def left (path : String) (x : Order) : Order :=
  let x := { x with
    isOnBlacklist := false, isInOrderQueue := false, jobChainNode := none
    jobChain := none, jobChainPath := "" }
  if x.task.isSome then { x with removedFromJobChainPath := path, moved := true } else x

/-- `set_state2`. -/
def withState (state : Option String) (x : Order) : Order :=
  let x := { x with state := state }
  if x.initialStateSet then x else { x with initialState := state, initialStateSet := true }

/-- An order whose state `add_order` has corrected to the one of its node. -/
def corrected (state : Option String) (x : Order) : Order :=
  if x.state ≠ state then withState state x else x

/-- An order that has got into the queue of a node. -/
def entered (path : String) (n : NodeRef) (x : Order) : Order :=
  { corrected (some n.node.orderState) x with
    jobChain := some n.chain, jobChainPath := path, removedFromJobChainPath := ""
    jobChainNode := some n, isInOrderQueue := true }

/-- The node at which a state leads into the job chain, if orders can wait there. -/
def entry (ch : JobChain) (state : Option String) : Option Node :=
  match ch.referencedNodeFromState state with
  | .ok node => if node.type.isOrderQueue then some node else none
  | .error _ => none

/-- An order that is handed over. -/
def taken (w : World) (c r : ChainRef) (x : Order) : Order :=
  match entry (w.chain r).toJobChain x.state with
  | some node => entered (w.chain r).path ⟨r, node⟩ (left (w.chain c).path x)
  | none => x

/-- Whether a file-based order has the name of the order. -/
def isStanding (w : World) (c : ChainRef) (o : OrderRef) : Bool :=
  (standingOrderOrNull w (w.chain c).path (w.order o).id).isSome

/-- Whether an order is handed over to the nodes `new`: it stands in the queue of a node, one
    of them has an order queue for the state of that node, and no file-based order has the
    name of the order. -/
def isTakenBy (w : World) (c : ChainRef) (new : List Node) (o : OrderRef) : Bool :=
  new.any (fun m => m.type.isOrderQueue && inQueueOf (w.order o) c m.orderState)
    && !isStanding w c o

/-- Whether an order is handed over. -/
def isTaken (w : World) (c r : ChainRef) (o : OrderRef) : Bool :=
  isTakenBy w c (w.chain r).nodes o

/-- What the loop over an old queue makes of an order. -/
def handed (w : World) (c r : ChainRef) (o : OrderRef) : Order :=
  if isStanding w c o then w.order o else taken w c r (w.order o)

/-- Whether an order leaves as a file-based order of the job chain. -/
def leavesByFile (w : World) (c : ChainRef) (o : OrderRef) : Bool :=
  !(w.chain c).containsNestedJobChains && decide (o ∈ w.standingOrders)
    && (w.order o).fileBasedJobChainPath = (w.chain c).path

/-- What an order is after the replacement of `c` by `r`. -/
def afterReplacement (w : World) (c r : ChainRef) (o : OrderRef) : Order :=
  let x := w.order o
  if x.jobChain ≠ some c then x
  else if isTaken w c r o then taken w c r x
  else if x.task.isSome && !leavesByFile w c o then x
  else left (w.chain c).path x

variable {w w' w₀ : World} {o p : OrderRef} {c r : ChainRef} {n : NodeRef} {node : Node}

/-! ## One order leaves, one order enters -/

/-- What no method of an order writes: the file-based orders, the order id spaces and the
    limits. -/
structure Rest (w w' : World) : Prop where
  standingOrders : w'.standingOrders = w.standingOrders
  orderIdSpace : ∀ d, (w'.chain d).orderIdSpace = (w.chain d).orderIdSpace
  maxOrders : ∀ d, (w'.chain d).maxOrders = (w.chain d).maxOrders

theorem Rest.trans {u v : World} (h : Rest u v) (h' : Rest v w) : Rest u w where
  standingOrders := h'.standingOrders.trans h.standingOrders
  orderIdSpace d := (h'.orderIdSpace d).trans (h.orderIdSpace d)
  maxOrders d := (h'.maxOrders d).trans (h.maxOrders d)

theorem rest_setChain {g : Chain → Chain} (hg : ∀ ch, (g ch).orderIdSpace = ch.orderIdSpace
    ∧ (g ch).maxOrders = ch.maxOrders) : Rest w (w.setChain c g) := by
  have hd : ∀ d, ((w.setChain c g).chain d).orderIdSpace = (w.chain d).orderIdSpace
      ∧ ((w.setChain c g).chain d).maxOrders = (w.chain d).maxOrders := by
    intro d
    by_cases hd : d = c
    · rw [hd, World.setChain_chain_self]
      exact hg _
    · rw [World.setChain_chain_of_ne hd]
      exact ⟨rfl, rfl⟩
  exact ⟨rfl, fun d => (hd d).1, fun d => (hd d).2⟩

theorem rest_setOrder {f : Order → Order} : Rest w (w.setOrder o f) :=
  ⟨rfl, fun _ => rfl, fun _ => rfl⟩

theorem rest_setQueue {q : List OrderRef → List OrderRef} : Rest w (w.setQueue n q) :=
  rest_setChain fun _ => ⟨rfl, rfl⟩

theorem rest_dequeue : Rest w (dequeue w n o) :=
  Rest.trans (v := w.setQueue n _) rest_setQueue rest_setOrder

theorem rest_enqueue : Rest w (enqueue w n o) :=
  Rest.trans (v := w.setQueue n _) rest_setQueue rest_setOrder

theorem rest_blacklist : Rest w (OrderPlacement.blacklist w c o) :=
  (rest_setChain (g := fun ch =>
    { ch with blacklistMap := ch.blacklistMap.insert (w.order o).id o }) fun _ => ⟨rfl, rfl⟩).trans
    rest_setOrder

theorem rest_unblacklist : Rest w (OrderPlacement.unblacklist w c o) :=
  (rest_setChain (g := fun ch =>
    { ch with blacklistMap := ch.blacklistMap.erase (w.order o).id }) fun _ => ⟨rfl, rfl⟩).trans
    rest_setOrder

theorem rest_register {f : Order → Order} : Rest w (OrderPlacement.register w c o f) :=
  rest_setOrder.trans (rest_setChain fun _ => ⟨rfl, rfl⟩)

theorem rest_unregister : Rest w (OrderPlacement.unregister w c o) :=
  rest_setOrder.trans (rest_setChain fun _ => ⟨rfl, rfl⟩)

theorem Rest.refl (w : World) : Rest w w := ⟨rfl, fun _ => rfl, fun _ => rfl⟩

/-- Every move of an order leaves them alone. -/
theorem rest_of_move {μ : Mode} (hm : Move μ o w w') : Rest w w' := by
  cases hm with
  | write f hf hkey => exact rest_setOrder
  | rekey f hf =>
      rw [rekeyed]
      split
      · exact (rest_setOrder.trans rest_dequeue).trans rest_enqueue
      · exact rest_setOrder
  | leave n hq hn => exact rest_dequeue.trans rest_setOrder
  | settle t f hq ht hf => exact rest_setOrder
  | arrive n f he hq hc hn hty hb hf => exact rest_setOrder.trans rest_enqueue
  | blacklist c hc hq => exact rest_blacklist
  | unblacklist c hc => exact rest_unblacklist
  | register c f he hnone hb hfree ht hf => exact rest_register
  | registerBlacklisted c f he hnone hfree ht hf => exact rest_register.trans rest_blacklist
  | unregister c hc hb hn => exact rest_unregister
  | reouter path f ho hf hkey ht => exact rest_setOrder

/-- From `w₀` only the order `o` has moved. -/
structure Moved (o : OrderRef) (w₀ w : World) : Prop where
  placed : Placed w
  order : ∀ p, p ≠ o → w.order p = w₀.order p
  jobChain : ∀ d, (w.chain d).toJobChain = (w₀.chain d).toJobChain
  rest : Rest w₀ w

theorem Moved.refl (h : Placed w) : Moved o w w := ⟨h, fun _ _ => rfl, fun _ => rfl, .refl w⟩

theorem Moved.trans {u v : World} (h : Moved o u v) (h' : Moved o v w) : Moved o u w where
  placed := h'.placed
  order p hp := (h'.order p hp).trans (h.order p hp)
  jobChain d := (h'.jobChain d).trans (h.jobChain d)
  rest := h.rest.trans h'.rest

theorem closed_moved (w₀ : World) (o : OrderRef) : Closed anyMove o (Moved o w₀) where
  placed _ hw := hw.placed
  move _ _ hw hm := hw.trans ⟨hm.placed hw.placed, (hm.moves hw.placed).order,
    (hm.moves hw.placed).jobChain, rest_of_move hm⟩

/-- `remove_order` of an order of the job chain. -/
theorem removeFromChain_left (h : Placed w) (hc : (w.order o).jobChain = some c) :
    ∃ w', removeFromChain c o w = (.ok (), w') ∧ Moved o w w'
      ∧ w'.order o = left (w.chain c).path (w.order o) := by
  have C := closed_moved w o
  have hord₁ : (unblacklisted w c o).order o = { w.order o with isOnBlacklist := false } :=
    unblacklisted_order_self
  obtain ⟨w₂, hrun, hw₂, hord₂⟩ := leaveNode_run C (keeps_unblacklisted C (.refl h) hc)
    (w.order o).jobChainNode.isSome (w.order o).isInOrderQueue (by rw [hord₁]) (by rw [hord₁])
  rw [hord₁] at hord₂
  have hw₃ : Moved o w (unregister w₂ c o) :=
    C.move w₂ _ hw₂ (.unregister c (by rw [hord₂]; exact hc) (by rw [hord₂]) (by rw [hord₂]))
  have hord₃ : (unregister w₂ c o).order o = { w.order o with
      isOnBlacklist := false, isInOrderQueue := false, jobChainNode := none
      jobChain := none, jobChainPath := "" } := by
    rw [unregister_order_self, hord₂]
  have hrest : removeFromChain c o w
      = (Exec.onlyIf ((w.order o).task.isSome = true) (write o fun x =>
          { x with removedFromJobChainPath := (w.chain c).path, moved := true }))
          (unregister w₂ c o) := by
    have hunreg := unregisterOrder_run (w := w₂) (o := o) (c := c) (by rw [hord₂])
    simp only [removeFromChain, bind_run, get_run, require_run, hc, decide_true, if_true,
      removeFromBlacklist_run hc, hrun]
    simp only [write, modify_run, hunreg]
  rw [hrest, left]
  cases ht : (w.order o).task.isSome with
  | false =>
      refine ⟨_, rfl, hw₃, ?_⟩
      rw [hord₃]
      rfl
  | true =>
      refine ⟨(unregister w₂ c o).setOrder o fun x =>
          { x with removedFromJobChainPath := (w.chain c).path, moved := true }, rfl,
        C.move _ _ hw₃ (.write _ (.of_eq rfl) fun _ => rfl), ?_⟩
      rw [World.setOrder_order_self, hord₃]
      rfl

/-- The part of `add_order` that corrects the state. -/
theorem correctState_run (state : Option String) :
    (Exec.onlyIf ((w.order o).state ≠ state) (setState2 o state) : Method Unit) w
      = (.ok (), w.setOrder o (corrected state)) := by
  by_cases hs : (w.order o).state ≠ state
  · rw [Exec.onlyIf, if_pos hs]
    simp only [setState2, write, modify_run, World.setOrder, corrected, if_pos hs]
    rfl
  · rw [Exec.onlyIf, if_neg hs]
    simp only [pure_run, World.setOrder, corrected, if_neg hs, Function.update_eq_self]

/-- The correction of the state moves the order nowhere. -/
theorem same_corrected (state : Option String) (x : Order) : Same x (corrected state x) := by
  rw [corrected]
  by_cases hs : x.state ≠ state
  · rw [if_pos hs]
    exact .of_eq (members_setState2 state x)
  · rw [if_neg hs]
    exact .refl x

theorem orderKey_corrected (state : Option String) (x : Order) :
    orderKey (corrected state x) = orderKey x := by
  rw [corrected]
  by_cases hs : x.state ≠ state
  · rw [if_pos hs]
    exact orderKey_setState2 state x
  · rw [if_neg hs]

/-- `add_order` fails where the state does not lead to an order queue, and leaves the order
    in no job chain. -/
theorem addToJobChain_refused (hnone : (w.order o).jobChain = none)
    (hb : (w.order o).isOnBlacklist = false) (hentry : entry (w.chain c).toJobChain (w.order o).state = none) :
    ∃ e w', addToJobChain c o w = (.error e, w') ∧ (w'.order o).jobChain = none := by
  cases hid : chainWithOrderId w c (w.order o).id with
  | some d =>
      refine ⟨.xc "SCHEDULER-186" [w.objName o, (w.chain d).path], w, ?_, hnone⟩
      simp only [addToJobChain, bind_run, get_run, hid]
      rfl
  | none =>
      cases hn : (w.chain c).referencedNodeFromState (w.order o).state with
      | error e =>
          refine ⟨e, w, ?_, hnone⟩
          simp only [addToJobChain, bind_run, get_run, hid, hn]
          rfl
      | ok node =>
          have hty : node.type.isOrderQueue = false := by
            rw [entry, hn] at hentry
            cases hty : node.type.isOrderQueue with
            | false => rfl
            | true => simp [hty] at hentry
          have hsame := same_corrected (some node.orderState) (w.order o)
          refine ⟨.xc "SCHEDULER-149" [(w.chain c).path,
              debugString (corrected (some node.orderState) (w.order o)).state],
            w.setOrder o (corrected (some node.orderState)), ?_, ?_⟩
          · simp only [addToJobChain, bind_run, get_run, hid, hn, ofExcept_run, correctState_run,
              World.setOrder_order_self, hsame.isOnBlacklist, hb, hty, require_run, Bool.and_false,
              Bool.or_false]
            rfl
          · rw [World.setOrder_order_self, hsame.jobChain]
            exact hnone

/-- `add_order` of an order that is in no job chain, under an id that is free. -/
theorem addToJobChain_entered (h : Placed w) (hnone : (w.order o).jobChain = none)
    (hb : (w.order o).isOnBlacklist = false)
    (hfree : chainWithOrderId w c (w.order o).id = none)
    (hentry : entry (w.chain c).toJobChain (w.order o).state = some node) :
    ∃ w', addToJobChain c o w = (.ok (), w') ∧ Moved o w w'
      ∧ w'.order o = entered (w.chain c).path ⟨c, node⟩ (w.order o) := by
  obtain ⟨hn, hty⟩ : (w.chain c).referencedNodeFromState (w.order o).state = .ok node
      ∧ node.type.isOrderQueue = true := by
    rw [entry] at hentry
    cases hn : (w.chain c).referencedNodeFromState (w.order o).state with
    | error e =>
        rw [hn] at hentry
        cases hentry
    | ok m =>
        cases hty : m.type.isOrderQueue with
        | false => simp [hn, hty] at hentry
        | true =>
            simp only [hn, hty, if_true, Option.some.injEq] at hentry
            exact ⟨congrArg _ hentry, hentry ▸ hty⟩
  have C := closed_moved w o
  generalize hcorr : corrected (some node.orderState) = corr
  have hsame : Same (w.order o) (corr (w.order o)) := hcorr ▸ same_corrected _ _
  have hkey : orderKey (corr (w.order o)) = orderKey (w.order o) := hcorr ▸ orderKey_corrected _ _
  have hq : (w.order o).isInOrderQueue = false := ((h o).unqueued_of_unplaced hnone).2
  have hw₁ : Moved o w (w.setOrder o corr) := C.move w _ (.refl h) (.write corr hsame fun _ => hkey)
  generalize hf : (fun x : Order => { x with
    jobChain := some c, jobChainPath := (w.chain c).path, removedFromJobChainPath := "" }) = f
  have hord₁ : (w.setOrder o corr).order o = corr (w.order o) := World.setOrder_order_self
  have hreg := registerOrder_run (w := w.setOrder o corr) (o := o) (c := c) (f := f)
    (by rw [hord₁, hsame.id]; exact free_of_chainWithOrderId hfree) fun x => by rw [← hf]
  have hw₂ : Moved o w (register (w.setOrder o corr) c o f) := by
    refine C.move _ _ hw₁ (.register c f trivial ?_ ?_ ?_ False.elim ?_)
    all_goals rw [hord₁]
    · exact hsame.jobChain.trans hnone
    · exact hsame.isOnBlacklist.trans hb
    · rw [hsame.id]
      exact free_of_chainWithOrderId hfree
    · rw [← hf]
      exact .of_eq rfl
  have hord₂ : (register (w.setOrder o corr) c o f).order o = f (corr (w.order o)) := by
    rw [register_order_self, hord₁]
  refine ⟨enqueue ((register (w.setOrder o corr) c o f).setOrder o fun x =>
    { x with jobChainNode := some ⟨c, node⟩ }) ⟨c, node⟩ o, ?_, ?_, ?_⟩
  · simp only [addToJobChain, bind_run, get_run, hfree, hn, ofExcept_run, correctState_run, hcorr,
      World.setOrder_order_self, hsame.isOnBlacklist, hb, hty, require_run, Bool.and_false,
      Bool.false_or, write, modify_run, if_true, World.setOrder_chain, hf, hreg]
    rfl
  · refine C.move _ _ hw₂ (.arrive ⟨c, node⟩ _ trivial ?_ ?_ ?_ hty (by intro he; cases he) (.of_eq rfl))
    · rw [hord₂, ← hf]
      exact hsame.isInOrderQueue.trans hq
    · rw [hord₂, ← hf]
    · rw [hw₂.jobChain]
      exact (mem_of_referencedNodeFromState hn).1
  · rw [enqueue_order_self, World.setOrder_order_self, hord₂, ← hf, ← hcorr]
    rfl

/-! ## Loops over orders -/

/-- The loop body makes `g` of the order `o` as it was in `w`, and leaves the others alone. -/
def Treats (I : World → Prop) (f : OrderRef → Method Unit) (g : OrderRef → Order) (w : World)
    (o : OrderRef) : Prop :=
  ∀ v, I v → v.order o = w.order o → ∃ v', f o v = (.ok (), v') ∧ I v'
    ∧ (∀ p, p ≠ o → v'.order p = v.order p) ∧ v'.order o = g o

/-- The loop body fails at the order `o`, and then `Q` holds. -/
def Refuses (I : World → Prop) (f : OrderRef → Method Unit) (Q : OrderRef → World → Prop)
    (w : World) (o : OrderRef) : Prop :=
  ∀ v, I v → v.order o = w.order o → ∃ e v', f o v = (.error e, v') ∧ Q o v'

variable {I : World → Prop} {f : OrderRef → Method Unit} {g : OrderRef → Order}
  {Q : OrderRef → World → Prop} {l : List OrderRef}

/-- What the loop does to an order later depends on the order alone. -/
theorem Treats.later {u : World} (h : Treats I f g w o) (ho : u.order o = w.order o) :
    Treats I f g u o := fun v hv hord => h v hv (hord.trans ho)

theorem Refuses.later {u : World} (h : Refuses I f Q w o) (ho : u.order o = w.order o) :
    Refuses I f Q u o := fun v hv hord => h v hv (hord.trans ho)

/-- A loop that treats every order. -/
theorem forEach_treats (hl : l.Nodup) (hw : I w) (h : ∀ o ∈ l, Treats I f g w o) :
    ∃ w', forEach f l w = (.ok (), w') ∧ I w'
      ∧ ∀ p, w'.order p = if p ∈ l then g p else w.order p := by
  induction l generalizing w with
  | nil => exact ⟨w, rfl, hw, fun p => (if_neg List.not_mem_nil).symm⟩
  | cons o l ih =>
      obtain ⟨hnot, hl⟩ := List.nodup_cons.mp hl
      obtain ⟨v, hrun, hv, hothers, hself⟩ := h o (List.mem_cons_self ..) w hw rfl
      have hne : ∀ p ∈ l, p ≠ o := fun p hp hpo => hnot (hpo ▸ hp)
      obtain ⟨w', hrest, hw', hord⟩ := ih hl hv fun p hp =>
        (h p (List.mem_cons_of_mem _ hp)).later (hothers p (hne p hp))
      refine ⟨w', ?_, hw', fun p => ?_⟩
      · rw [forEach_cons, bind_run, hrun]
        exact hrest
      · rw [hord p]
        by_cases hpo : p = o
        · rw [hpo, if_neg hnot, if_pos (List.mem_cons_self ..), hself]
        · by_cases hp : p ∈ l
          · rw [if_pos hp, if_pos (List.mem_cons_of_mem _ hp)]
          · rw [if_neg hp, if_neg (fun hm => (List.mem_cons.mp hm).elim hpo hp), hothers p hpo]

/-- A loop that refuses one order fails at an order that it refuses. -/
theorem forEach_refuses (hl : l.Nodup) (hw : I w)
    (h : ∀ o ∈ l, Treats I f g w o ∨ Refuses I f Q w o)
    (hbad : ∃ o ∈ l, Refuses I f Q w o) :
    ∃ o ∈ l, ∃ e w', forEach f l w = (.error e, w') ∧ Q o w' := by
  induction l generalizing w with
  | nil =>
      obtain ⟨o, ho, -⟩ := hbad
      cases ho
  | cons o l ih =>
      obtain ⟨hnot, hl⟩ := List.nodup_cons.mp hl
      by_cases hr : Refuses I f Q w o
      · obtain ⟨e, v, hrun, hq⟩ := hr w hw rfl
        refine ⟨o, List.mem_cons_self .., e, v, ?_, hq⟩
        rw [forEach_cons, bind_run, hrun]
      obtain ⟨v, hrun, hv, hothers, -⟩ :=
        (h o (List.mem_cons_self ..)).resolve_right hr w hw rfl
      have hne : ∀ p ∈ l, v.order p = w.order p := fun p hp => hothers p fun hpo => hnot (hpo ▸ hp)
      obtain ⟨p, hp, e, w', hrest, hq⟩ := ih hl hv
        (fun p hp => (h p (List.mem_cons_of_mem _ hp)).imp (·.later (hne p hp))
          (·.later (hne p hp)))
        (by
          obtain ⟨p, hp, hpr⟩ := hbad
          obtain rfl | hp := List.mem_cons.mp hp
          · exact absurd hpr hr
          · exact ⟨p, hp, hpr.later (hne p hp)⟩)
      refine ⟨p, List.mem_cons_of_mem _ hp, e, w', ?_, hq⟩
      rw [forEach_cons, bind_run, hrun]
      exact hrest

/-! ## Handing over -/

/-- What is known while `c` hands its orders over to `r`. -/
structure Handing (c r : ChainRef) (w₀ w : World) : Prop where
  placed : Placed w
  jobChain : ∀ d, (w.chain d).toJobChain = (w₀.chain d).toJobChain
  rest : Rest w₀ w
  id : ∀ p, (w.order p).id = (w₀.order p).id
  filePath : ∀ p, (w.order p).fileBasedJobChainPath = (w₀.order p).fileBasedJobChainPath
  fromOld : ∀ p, (w.order p).jobChain = some r → (w₀.order p).jobChain = some c

theorem Handing.standingOrderOrNull {path id : String} (h : Handing c r w₀ w) :
    standingOrderOrNull w path id = standingOrderOrNull w₀ path id := by
  simp only [ChainReplacement.standingOrderOrNull, h.rest.standingOrders, h.id, h.filePath]

theorem Handing.isStanding {v : World} (h : Handing c r w₀ v) (ho : v.order o = w₀.order o) :
    (ChainReplacement.standingOrderOrNull v (v.chain c).path (v.order o).id).isNone
      = !isStanding w₀ c o := by
  rw [ChainReplacement.isStanding, h.standingOrderOrNull, h.jobChain c, ho]
  cases ChainReplacement.standingOrderOrNull w₀ (w₀.chain c).path (w₀.order o).id <;> rfl

theorem left_fileBasedJobChainPath (path : String) (x : Order) :
    (left path x).fileBasedJobChainPath = x.fileBasedJobChainPath := by
  cases ht : x.task.isSome <;> simp [left, ht]

theorem left_id (path : String) (x : Order) : (left path x).id = x.id := by
  cases ht : x.task.isSome <;> simp [left, ht]

theorem left_jobChain (path : String) (x : Order) : (left path x).jobChain = none := by
  cases ht : x.task.isSome <;> simp [left, ht]

theorem left_isOnBlacklist (path : String) (x : Order) : (left path x).isOnBlacklist = false := by
  cases ht : x.task.isSome <;> simp [left, ht]

theorem left_state (path : String) (x : Order) : (left path x).state = x.state := by
  cases ht : x.task.isSome <;> simp [left, ht]

theorem entered_fileBasedJobChainPath (path : String) (x : Order) :
    (entered path n x).fileBasedJobChainPath = x.fileBasedJobChainPath := by
  show (corrected _ x).fileBasedJobChainPath = _
  rw [corrected]
  split
  · cases hi : x.initialStateSet <;> simp [withState, hi]
  · rfl

theorem entered_id (path : String) (x : Order) : (entered path n x).id = x.id :=
  (same_corrected (some n.node.orderState) x).id

/-- An order that leaves only. -/
theorem Handing.leaves (h : Handing c r w₀ w) (hm : Moved o w w')
    (hord : w'.order o = left (w₀.chain c).path (w₀.order o)) : Handing c r w₀ w' where
  placed := hm.placed
  jobChain d := (hm.jobChain d).trans (h.jobChain d)
  rest := h.rest.trans hm.rest
  id p := by
    by_cases hp : p = o
    · rw [hp, hord, left_id]
    · rw [hm.order p hp, h.id]
  filePath p := by
    by_cases hp : p = o
    · rw [hp, hord, left_fileBasedJobChainPath]
    · rw [hm.order p hp, h.filePath]
  fromOld p hr := by
    by_cases hp : p = o
    · rw [hp, hord, left_jobChain] at hr
      cases hr
    · rw [hm.order p hp] at hr
      exact h.fromOld p hr

theorem mem_queue_iff {s : String} (h : Placed w) :
    p ∈ (w.chain c).queue s ↔ inQueueOf (w.order p) c s = true := by
  rw [← List.count_pos_iff, (h p).inQueue]
  by_cases hq : inQueueOf (w.order p) c s = true
  · rw [if_pos hq]
    exact ⟨fun _ => hq, fun _ => Nat.one_pos⟩
  · rw [if_neg hq]
    exact ⟨fun h0 => absurd h0 (Nat.lt_irrefl 0), fun h => absurd h hq⟩

theorem nodup_queue {s : String} (h : Placed w) : ((w.chain c).queue s).Nodup := by
  refine List.nodup_iff_count_le_one.mpr fun p => ?_
  rw [(h p).inQueue]
  split
  · exact Nat.le_refl 1
  · exact Nat.zero_le 1

/-- An order in the queue of a node of `c` is in `c`. -/
theorem chain_of_inQueueOf {s : String} (h : Placed w) (hq : inQueueOf (w.order p) c s = true) :
    ∃ n, (w.order p).jobChainNode = some n ∧ n.chain = c ∧ n.node.orderState = s
      ∧ n.node ∈ (w.chain c).nodes ∧ n.node.type.isOrderQueue = true
      ∧ (w.order p).jobChain = some c := by
  cases hin : (w.order p).isInOrderQueue with
  | false =>
      rw [inQueueOf_of_not_queued hin] at hq
      cases hq
  | true =>
      obtain ⟨n, hn, hty⟩ := (h p).queued.mp hin
      obtain ⟨rfl, rfl⟩ := (inQueueOf_iff hin hn).mp hq
      obtain ⟨hc, hmem⟩ := (h p).nodeOfChain n hn
      exact ⟨n, hn, rfl, rfl, hmem, hty, hc⟩

/-- Whatever fails, orders are only moved. -/
theorem keeps_takeOrder {μ : Mode} (C : Closed μ o I) (he : μ.entering) (hk : ¬μ.counted)
    (c r : ChainRef) : Keeps I (takeOrder c r o) := by
  refine Keeps.get_bind_any fun w => Keeps.onlyIf fun _ => Keeps.of_triple ?_
  refine Triple.bind (removeFromChain_spec C c) fun _ => ?_
  refine (addToJobChain_spec C C (fun _ h => h) he r).consequence ?_ (fun _ _ h => h)
    fun _ _ h => h
  exact fun w h => ⟨h.1, h.2, fun h => absurd h hk⟩

theorem keeps_takeOrders {μ : Mode} (C : ∀ o, Closed μ o I) (he : μ.entering) (hk : ¬μ.counted)
    (c r : ChainRef) (new : Node) : Keeps I (takeOrders c r new) := by
  refine Keeps.get_bind_any fun w => Keeps.onlyIf fun _ => ?_
  cases (w.chain c).nodeFromStateOrNull (some new.orderState) with
  | none => exact Keeps.pure ()
  | some old =>
      exact Keeps.onlyIf fun _ => Keeps.forEach fun o _ => keeps_takeOrder (C o) he hk c r

/-- An order that cannot enter `r` is in no job chain afterwards. -/
theorem takeOrder_refuses (hc : (w₀.order o).jobChain = some c)
    (hs : isStanding w₀ c o = false)
    (hentry : entry (w₀.chain r).toJobChain (w₀.order o).state = none) :
    Refuses (Handing c r w₀) (takeOrder c r) (fun p v =>
      isStanding w₀ c p = false ∧ entry (w₀.chain r).toJobChain (w₀.order p).state = none
        ∧ (v.order p).jobChain = none) w₀ o := by
  intro v hv hp
  have hst := hv.isStanding hp
  obtain ⟨v₁, hrun₁, hm₁, hord₁⟩ := removeFromChain_left hv.placed (hp ▸ hc)
  rw [hv.jobChain c, hp] at hord₁
  obtain ⟨e, v₂, hrun₂, hnone⟩ := addToJobChain_refused (c := r) (o := o) (w := v₁)
    (by rw [hord₁, left_jobChain]) (by rw [hord₁, left_isOnBlacklist])
    (by rw [hm₁.jobChain, hv.jobChain, hord₁, left_state]; exact hentry)
  refine ⟨e, v₂, ?_, hs, hentry, hnone⟩
  rw [hs, Bool.not_false] at hst
  simp only [takeOrder, bind_run, get_run, Exec.onlyIf, hst, if_true, hrun₁]
  exact hrun₂

section

variable (h₀ : Placed w₀) (hspace : (w₀.chain r).orderIdSpace = [])
include h₀ hspace

/-- The id of an order of `c` is free in `r`, once the order has left `c`. -/
theorem Handing.free {v : World} (h : Handing c r w₀ v) (hp : v.order o = w₀.order o)
    (hc : (w₀.order o).jobChain = some c) (hm : Moved o v w)
    (hord : w.order o = left (w₀.chain c).path (w₀.order o)) :
    chainWithOrderId w r (w.order o).id = none := by
  have hlookup : (w.chain r).orderMap.lookup (w.order o).id = none := by
    cases hl : (w.chain r).orderMap.lookup (w.order o).id with
    | none => rfl
    | some q =>
        obtain ⟨hqr, hqid⟩ := ((hm.placed q).inMap r _).mp hl
        have hqo : q ≠ o := by
          rintro rfl
          rw [hord, left_jobChain] at hqr
          cases hqr
        rw [hm.order q hqo] at hqr hqid
        have hqc := h.fromOld q hqr
        have hin := ((h₀ q).inMap c _).mpr ⟨hqc, rfl⟩
        rw [← h.id q, hqid, hord, left_id] at hin
        exact absurd (h₀.unique hc hin) hqo
  have hs : (w.chain r).orderIdSpace = [] :=
    (hm.rest.orderIdSpace r).trans ((h.rest.orderIdSpace r).trans hspace)
  rw [chainWithOrderId, hs]
  refine List.find?_eq_none.mpr fun d hd => ?_
  rw [List.mem_singleton.mp hd, Chain.orderOrNull, hlookup]
  exact Bool.false_ne_true

/-- An order of a queue of `c` goes over, unless a file-based order has its name. -/
theorem takeOrder_treats (hc : (w₀.order o).jobChain = some c)
    (hentry : isStanding w₀ c o = false →
      (entry (w₀.chain r).toJobChain (w₀.order o).state).isSome = true) :
    Treats (Handing c r w₀) (takeOrder c r) (handed w₀ c r) w₀ o := by
  intro v hv hp
  have hst := hv.isStanding hp
  cases hs : isStanding w₀ c o with
  | true =>
      refine ⟨v, ?_, hv, fun _ _ => rfl, ?_⟩
      · rw [hs, Bool.not_true] at hst
        simp only [takeOrder, bind_run, get_run, Exec.onlyIf, hst]
        rfl
      · rw [handed, hs]
        exact hp
  | false =>
      obtain ⟨node, hnode⟩ := Option.isSome_iff_exists.mp (hentry hs)
      obtain ⟨v₁, hrun₁, hm₁, hord₁⟩ := removeFromChain_left hv.placed (hp ▸ hc)
      rw [hv.jobChain c, hp] at hord₁
      obtain ⟨v₂, hrun₂, hm₂, hord₂⟩ := addToJobChain_entered hm₁.placed
        (by rw [hord₁, left_jobChain]) (by rw [hord₁, left_isOnBlacklist])
        (hv.free h₀ hspace hp hc hm₁ hord₁)
        (by rw [hm₁.jobChain, hv.jobChain, hord₁, left_state]; exact hnode)
      rw [hm₁.jobChain, hv.jobChain, hord₁] at hord₂
      have hm : Moved o v v₂ := hm₁.trans hm₂
      refine ⟨v₂, ?_, ⟨hm.placed, fun d => (hm.jobChain d).trans (hv.jobChain d),
        hv.rest.trans hm.rest, fun p => ?_, fun p => ?_, fun p hpr => ?_⟩, hm.order, ?_⟩
      · rw [hs, Bool.not_false] at hst
        simp only [takeOrder, bind_run, get_run, Exec.onlyIf, hst, if_true, hrun₁]
        exact hrun₂
      · by_cases hpo : p = o
        · rw [hpo, hord₂, entered_id, left_id]
        · rw [hm.order p hpo, hv.id]
      · by_cases hpo : p = o
        · rw [hpo, hord₂, entered_fileBasedJobChainPath, left_fileBasedJobChainPath]
        · rw [hm.order p hpo, hv.filePath]
      · by_cases hpo : p = o
        · rw [hpo]
          exact hc
        · rw [hm.order p hpo] at hpr
          exact hv.fromOld p hpr
      · rw [hord₂, handed, hs, taken, hnode]
        rfl

/-- The nodes `ms` of `r` have taken over what they take. -/
structure Handed (c r : ChainRef) (ms : List Node) (w₀ w : World) : Prop
    extends Handing c r w₀ w where
  order : ∀ p, w.order p
    = if isTakenBy w₀ c ms p then taken w₀ c r (w₀.order p) else w₀.order p

/-- The order can enter `r`. -/
def Fits (w : World) (r : ChainRef) (o : OrderRef) : Prop :=
  (entry (w.chain r).toJobChain (w.order o).state).isSome = true

instance (w : World) (r : ChainRef) (o : OrderRef) : Decidable (Fits w r o) :=
  inferInstanceAs (Decidable (_ = _))

omit h₀ hspace in
theorem isTakenBy_append (w : World) (c : ChainRef) (ms ms' : List Node) (o : OrderRef) :
    isTakenBy w c (ms ++ ms') o = (isTakenBy w c ms o || isTakenBy w c ms' o) := by
  simp only [isTakenBy, List.any_append, Bool.and_or_distrib_right]

omit h₀ hspace in
theorem isTakenBy_singleton (w : World) (c : ChainRef) (m : Node) (o : OrderRef) :
    isTakenBy w c [m] o = true ↔ m.type.isOrderQueue = true
      ∧ inQueueOf (w.order o) c m.orderState = true ∧ isStanding w c o = false := by
  simp [isTakenBy, and_assoc]

omit h₀ hspace in
/-- An order that has been handed over is in no queue of `c`. -/
theorem not_inQueueOf_taken {s : String} (hcr : c ≠ r) (hfit : Fits w r o) :
    inQueueOf (taken w c r (w.order o)) c s = false := by
  obtain ⟨node, hnode⟩ := Option.isSome_iff_exists.mp hfit
  have hchain : decide (r = c) = false := decide_eq_false (Ne.symm hcr)
  simp only [taken, hnode, entered, inQueueOf, hchain, Bool.false_and, Bool.and_false]

omit h₀ hspace in
/-- What is left in the queues of `c`. -/
theorem Handed.inQueueOf_iff {ms : List Node} {v : World} {s : String} (hcr : c ≠ r)
    (h : Handed c r ms w₀ v) (hfit : ∀ p, isTakenBy w₀ c ms p = true → Fits w₀ r p) :
    inQueueOf (v.order p) c s = true
      ↔ isTakenBy w₀ c ms p = false ∧ inQueueOf (w₀.order p) c s = true := by
  rw [h.order p]
  cases ht : isTakenBy w₀ c ms p with
  | false => exact ⟨fun hq => ⟨rfl, hq⟩, fun hq => hq.2⟩
  | true =>
      rw [if_pos rfl, not_inQueueOf_taken hcr (hfit p ht)]
      exact ⟨nofun, fun hq => absurd hq.1 nofun⟩

/-- Every order in the queue of an old node is treated, or refused as it does not fit. -/
theorem queue_treats {ms : List Node} {v : World} {s : String} (hcr : c ≠ r)
    (h : Handed c r ms w₀ v) (hfit : ∀ p, isTakenBy w₀ c ms p = true → Fits w₀ r p)
    (ho : o ∈ (v.chain c).queue s) :
    isTakenBy w₀ c ms o = false ∧ inQueueOf (w₀.order o) c s = true
      ∧ (Fits w₀ r o ∨ isStanding w₀ c o = true →
        Treats (Handing c r w₀) (takeOrder c r) (handed w₀ c r) v o)
      ∧ (¬Fits w₀ r o → isStanding w₀ c o = false →
        Refuses (Handing c r w₀) (takeOrder c r) (fun p u =>
          isStanding w₀ c p = false ∧ entry (w₀.chain r).toJobChain (w₀.order p).state = none
            ∧ (u.order p).jobChain = none) v o) := by
  obtain ⟨hnot, hq⟩ := (h.inQueueOf_iff hcr hfit).mp ((mem_queue_iff h.placed).mp ho)
  obtain ⟨-, -, -, -, -, -, hc⟩ := chain_of_inQueueOf h₀ hq
  have hsame : v.order o = w₀.order o := by
    rw [h.order o, hnot]
    rfl
  refine ⟨hnot, hq, fun hor => ?_, fun hno hs => ?_⟩
  · refine (takeOrder_treats h₀ hspace hc fun hs => ?_).later hsame
    exact hor.resolve_right (by rw [hs]; nofun)
  · exact (takeOrder_refuses hc hs (Option.not_isSome_iff_eq_none.mp hno)).later hsame

omit hspace in
/-- A new node does nothing, or goes through the queue of the old one. -/
theorem takeOrders_cases {v : World} (h : Handing c r w₀ v) (m : Node) :
    (takeOrders c r m v = (.ok (), v) ∧ ∀ p, isTakenBy w₀ c [m] p = false)
      ∨ (takeOrders c r m v = forEach (takeOrder c r) ((v.chain c).queue m.orderState) v
        ∧ m.type.isOrderQueue = true) := by
  cases hty : m.type.isOrderQueue with
  | false =>
      refine Or.inl ⟨?_, fun p => ?_⟩
      · simp only [takeOrders, bind_run, get_run, Exec.onlyIf, hty]
        rfl
      · rw [Bool.eq_false_iff, ne_eq, isTakenBy_singleton, hty]
        exact fun hp => Bool.false_ne_true hp.1
  | true =>
      -- an order in a queue stands at a node of `c` that has this state
      have hnode : ∀ p, isTakenBy w₀ c [m] p = true → ∃ n,
          (v.chain c).nodeFromStateOrNull (some m.orderState) = some n
            ∧ n.type.isOrderQueue = true := by
        intro p hp
        obtain ⟨n, -, -, hs, hmem, hn, -⟩ :=
          chain_of_inQueueOf h₀ ((isTakenBy_singleton w₀ c m p).mp hp).2.1
        refine ⟨n.node, ?_, hn⟩
        rw [h.jobChain c, ← hs]
        exact nodeFromStateOrNull_of_mem hmem
      cases hold : (v.chain c).nodeFromStateOrNull (some m.orderState) with
      | none =>
          refine Or.inl ⟨?_, fun p => Bool.eq_false_iff.mpr fun hp => ?_⟩
          · simp only [takeOrders, bind_run, get_run, Exec.onlyIf, hty, if_true, hold, pure_run]
          · obtain ⟨n, hn, -⟩ := hnode p hp
            rw [hold] at hn
            cases hn
      | some old =>
          cases hq : old.type.isOrderQueue with
          | false =>
              refine Or.inl ⟨?_, fun p => Bool.eq_false_iff.mpr fun hp => ?_⟩
              · simp only [takeOrders, bind_run, get_run, Exec.onlyIf, hty, if_true, hold, hq]
                rfl
              · obtain ⟨n, hn, hnq⟩ := hnode p hp
                rw [hold] at hn
                cases hn
                rw [hq] at hnq
                cases hnq
          | true =>
              refine Or.inr ⟨?_, rfl⟩
              have hstate := (mem_of_nodeFromStateOrNull hold).2
              simp only [takeOrders, bind_run, get_run, Exec.onlyIf, hty, if_true, hold, hq,
                World.queue, hstate]

/-- One new node takes over what it takes. -/
theorem takeOrders_run {ms : List Node} {v : World} {m : Node} (hcr : c ≠ r)
    (h : Handed c r ms w₀ v)
    (hfit : ∀ p, isTakenBy w₀ c (ms ++ [m]) p = true → Fits w₀ r p) :
    ∃ v', takeOrders c r m v = (.ok (), v') ∧ Handed c r (ms ++ [m]) w₀ v' := by
  have hms : ∀ p, isTakenBy w₀ c ms p = true → Fits w₀ r p := fun p hp =>
    hfit p (by rw [isTakenBy_append, hp]; rfl)
  obtain ⟨hrun, hnone⟩ | ⟨hrun, hty⟩ := takeOrders_cases h₀ h.toHanding m
  · refine ⟨v, hrun, h.toHanding, fun p => ?_⟩
    rw [isTakenBy_append, hnone p, Bool.or_false]
    exact h.order p
  · obtain ⟨v', hloop, hv', hord⟩ := forEach_treats (nodup_queue h.placed) h.toHanding
      fun o ho => by
        obtain ⟨-, hq, htreats, -⟩ := queue_treats h₀ hspace hcr h hms ho
        refine htreats ?_
        cases hs : isStanding w₀ c o with
        | true => exact Or.inr rfl
        | false =>
            refine Or.inl (hfit o ?_)
            rw [isTakenBy_append, (isTakenBy_singleton w₀ c m o).mpr ⟨hty, hq, hs⟩, Bool.or_true]
    refine ⟨v', hrun.trans hloop, hv', fun p => ?_⟩
    rw [hord p, isTakenBy_append]
    by_cases hp : p ∈ (v.chain c).queue m.orderState
    · obtain ⟨hnot, hq, -, -⟩ := queue_treats h₀ hspace hcr h hms hp
      rw [if_pos hp, hnot, Bool.false_or, handed]
      cases hs : isStanding w₀ c p with
      | true =>
          rw [if_pos rfl, if_neg]
          rw [isTakenBy_singleton, hs]
          exact fun h => absurd h.2.2 nofun
      | false =>
          rw [if_neg nofun, if_pos ((isTakenBy_singleton w₀ c m p).mpr ⟨hty, hq, hs⟩)]
    · rw [if_neg hp, h.order p]
      cases ht : isTakenBy w₀ c ms p with
      | true => rfl
      | false =>
          rw [Bool.false_or, if_neg nofun, if_neg]
          rw [isTakenBy_singleton]
          rintro ⟨-, hq, -⟩
          exact hp ((mem_queue_iff h.placed).mpr ((h.inQueueOf_iff hcr hms).mpr ⟨ht, hq⟩))

/-- A new node that cannot take an order fails at such an order. -/
theorem takeOrders_fails {ms : List Node} {v : World} {m : Node} (hcr : c ≠ r)
    (h : Handed c r ms w₀ v) (hfit : ∀ p, isTakenBy w₀ c ms p = true → Fits w₀ r p)
    (hbad : ∃ p, isTakenBy w₀ c [m] p = true ∧ ¬Fits w₀ r p) :
    ∃ o e v', takeOrders c r m v = (.error e, v') ∧ isTakenBy w₀ c [m] o = true
      ∧ ¬Fits w₀ r o ∧ (v'.order o).jobChain = none := by
  obtain ⟨p, hp, hpfit⟩ := hbad
  obtain ⟨hrun, hnone⟩ | ⟨hrun, hty⟩ := takeOrders_cases h₀ h.toHanding m
  · rw [hnone p] at hp
    cases hp
  · obtain ⟨-, hpq, hps⟩ := (isTakenBy_singleton w₀ c m p).mp hp
    have hpnot : isTakenBy w₀ c ms p = false := Bool.eq_false_iff.mpr fun ht => hpfit (hfit p ht)
    have hpmem := (mem_queue_iff h.placed).mpr ((h.inQueueOf_iff hcr hfit).mpr ⟨hpnot, hpq⟩)
    obtain ⟨o, ho, e, v', hloop, hs, hentry, hgone⟩ := forEach_refuses (nodup_queue h.placed)
      h.toHanding (fun o ho => by
        obtain ⟨-, -, htreats, hrefuses⟩ := queue_treats h₀ hspace hcr h hfit ho
        by_cases hor : Fits w₀ r o ∨ isStanding w₀ c o = true
        · exact Or.inl (htreats hor)
        · exact Or.inr (hrefuses (fun hf => hor (Or.inl hf))
            (Bool.eq_false_iff.mpr fun hs => hor (Or.inr hs))))
      ⟨p, hpmem, (queue_treats h₀ hspace hcr h hfit hpmem).2.2.2 hpfit hps⟩
    have hoq := (queue_treats h₀ hspace hcr h hfit ho).2.1
    refine ⟨o, e, v', hrun.trans hloop, (isTakenBy_singleton w₀ c m o).mpr ⟨hty, hoq, hs⟩, ?_, hgone⟩
    rw [Fits, hentry]
    nofun

/-- The loop over the new nodes. -/
theorem handOver_run (rest : List Node) {ms : List Node} {v : World} (hcr : c ≠ r)
    (h : Handed c r ms w₀ v)
    (hfit : ∀ p, isTakenBy w₀ c (ms ++ rest) p = true → Fits w₀ r p) :
    ∃ v', forEach (takeOrders c r) rest v = (.ok (), v') ∧ Handed c r (ms ++ rest) w₀ v' := by
  induction rest generalizing ms v with
  | nil => exact ⟨v, rfl, by rw [List.append_nil]; exact h⟩
  | cons m rest ih =>
      rw [List.append_cons] at hfit ⊢
      obtain ⟨v₁, hrun₁, h₁⟩ := takeOrders_run h₀ hspace hcr h fun p hp =>
        hfit p (by rw [isTakenBy_append, hp]; rfl)
      obtain ⟨v₂, hrun₂, h₂⟩ := ih h₁ hfit
      refine ⟨v₂, ?_, h₂⟩
      rw [forEach_cons, bind_run, hrun₁]
      exact hrun₂

theorem handOver_fails (rest : List Node) {ms : List Node} {v : World} (hcr : c ≠ r)
    (h : Handed c r ms w₀ v)
    (hfit : ∀ p, isTakenBy w₀ c ms p = true → Fits w₀ r p)
    (hbad : ∃ p, isTakenBy w₀ c rest p = true ∧ ¬Fits w₀ r p) :
    ∃ o e v', forEach (takeOrders c r) rest v = (.error e, v') ∧ isTakenBy w₀ c rest o = true
      ∧ ¬Fits w₀ r o ∧ (v'.order o).jobChain = none := by
  induction rest generalizing ms v with
  | nil =>
      obtain ⟨p, hp, -⟩ := hbad
      cases hp
  | cons m rest ih =>
      by_cases hm : ∃ p, isTakenBy w₀ c [m] p = true ∧ ¬Fits w₀ r p
      · obtain ⟨o, e, v', hrun, ho, hno, hgone⟩ := takeOrders_fails h₀ hspace hcr h hfit hm
        refine ⟨o, e, v', ?_, ?_, hno, hgone⟩
        · rw [forEach_cons, bind_run, hrun]
        · rw [← List.singleton_append, isTakenBy_append, ho]
          rfl
      · have hms : ∀ p, isTakenBy w₀ c (ms ++ [m]) p = true → Fits w₀ r p := by
          intro p hp
          rw [isTakenBy_append, Bool.or_eq_true] at hp
          exact hp.elim (hfit p) fun hp => Classical.byContradiction fun hno => hm ⟨p, hp, hno⟩
        obtain ⟨v₁, hrun₁, h₁⟩ := takeOrders_run h₀ hspace hcr h hms
        obtain ⟨p, hp, hno⟩ := hbad
        rw [← List.singleton_append, isTakenBy_append, Bool.or_eq_true] at hp
        have hp := hp.resolve_left fun hp => hm ⟨p, hp, hno⟩
        obtain ⟨o, e, v', hrun, ho, hno, hgone⟩ := ih h₁ hms ⟨p, hp, hno⟩
        refine ⟨o, e, v', ?_, ?_, hno, hgone⟩
        · rw [forEach_cons, bind_run, hrun₁]
          exact hrun
        · rw [← List.singleton_append, isTakenBy_append, ho, Bool.or_true]

end

/-! ## Closing -/

theorem mem_ordersOf (h : Placed w) : p ∈ ordersOf w c ↔ (w.order p).jobChain = some c := by
  rw [ordersOf, List.mem_map]
  constructor
  · rintro ⟨⟨id, q⟩, hq, rfl⟩
    exact (((h q).inMap c id).mp (AList.mem_lookup_iff.mpr hq)).1
  · intro hc
    exact ⟨⟨(w.order p).id, p⟩, AList.mem_lookup_iff.mp (((h p).inMap c _).mpr ⟨hc, rfl⟩), rfl⟩

theorem nodup_ordersOf (h : Placed w) : (ordersOf w c).Nodup := by
  refine List.Nodup.map_on ?_ (w.chain c).orderMap.nodupKeys.nodup
  rintro ⟨id, q⟩ hq ⟨id', q'⟩ hq' (rfl : q = q')
  have hid := ((h q).inMap c id).mp (AList.mem_lookup_iff.mpr hq)
  have hid' := ((h q).inMap c id').mp (AList.mem_lookup_iff.mpr hq')
  rw [hid.2.symm.trans hid'.2]

/-- A file-based order of the job chain has its own name. -/
theorem isStanding_of_mem (ho : o ∈ w.standingOrders)
    (hpath : (w.order o).fileBasedJobChainPath = (w.chain c).path) : isStanding w c o = true := by
  refine List.find?_isSome.mpr ⟨o, ho, ?_⟩
  rw [hpath]
  simp

/-- A replacement `r` of `c` that has only been initialized.  Orders that come from files of
    the job chain are in no other chain. -/
structure Replaceable (w : World) (c r : ChainRef) : Prop where
  placed : Placed w
  different : c ≠ r
  empty : ∀ p, (w.order p).jobChain ≠ some r
  noSpace : (w.chain r).orderIdSpace = []
  standing : w.standingOrders.Nodup
  files : ∀ o ∈ w.standingOrders, (w.order o).fileBasedJobChainPath = (w.chain c).path →
    (w.order o).jobChain = none ∨ (w.order o).jobChain = some c

/-- The orders that are not handed over leave `c` one after the other: `gone` have left. -/
structure Leaving (c r : ChainRef) (gone : OrderRef → Bool) (w₀ w : World) : Prop
    extends Handing c r w₀ w where
  order : ∀ p, w.order p = if isTaken w₀ c r p = true then taken w₀ c r (w₀.order p)
    else if (w₀.order p).jobChain = some c ∧ gone p = true
      then left (w₀.chain c).path (w₀.order p) else w₀.order p

/-- After the loop over the new nodes no order has left. -/
theorem Handed.leaving (h : Handed c r (w₀.chain r).nodes w₀ w) :
    Leaving c r (fun _ => false) w₀ w where
  toHanding := h.toHanding
  order p := by
    rw [h.order p, if_neg (c := (w₀.order p).jobChain = some c ∧ false = true)
      fun h => nomatch h.2]
    rfl

section

variable (R : Replaceable w₀ c r) (hfit : ∀ p, isTaken w₀ c r p = true → Fits w₀ r p)
include R hfit

omit hfit in
theorem isTaken_chain (ht : isTaken w₀ c r p = true) : (w₀.order p).jobChain = some c := by
  obtain ⟨hany, -⟩ := Bool.and_eq_true_iff.mp ht
  obtain ⟨m, -, hm⟩ := List.any_eq_true.mp hany
  obtain ⟨-, -, -, -, -, -, hc⟩ := chain_of_inQueueOf R.placed (Bool.and_eq_true_iff.mp hm).2
  exact hc

omit R in
theorem taken_jobChain (ht : isTaken w₀ c r p = true) :
    (taken w₀ c r (w₀.order p)).jobChain = some r := by
  obtain ⟨node, hnode⟩ := Option.isSome_iff_exists.mp (hfit p ht)
  rw [taken, hnode]
  rfl

/-- The orders that are still in `c` are as they were. -/
theorem Leaving.stays {gone : OrderRef → Bool} {v : World} (h : Leaving c r gone w₀ v)
    (hp : (v.order p).jobChain = some c) :
    v.order p = w₀.order p ∧ gone p = false ∧ isTaken w₀ c r p = false := by
  rw [h.order p] at hp ⊢
  by_cases ht : isTaken w₀ c r p = true
  · rw [if_pos ht, taken_jobChain hfit ht] at hp
    exact absurd (Option.some.inj hp).symm R.different
  rw [if_neg ht] at hp ⊢
  by_cases hg : (w₀.order p).jobChain = some c ∧ gone p = true
  · rw [if_pos hg, left_jobChain] at hp
    cases hp
  rw [if_neg hg] at hp ⊢
  exact ⟨rfl, Bool.eq_false_iff.mpr fun hgp => hg ⟨hp, hgp⟩, Bool.eq_false_iff.mpr ht⟩

/-- A loop in which the orders in `m` leave `c`. -/
theorem Leaving.loop {gone m : OrderRef → Bool} {v : World} {l : List OrderRef}
    {b : OrderRef → Method Unit} (h : Leaving c r gone w₀ v) (hl : l.Nodup)
    (hleave : ∀ o ∈ l, ∀ u, u.order o = v.order o → Handing c r w₀ u →
      (v.order o).jobChain = some c → m o = true → b o u = removeFromChain c o u)
    (hstay : ∀ o ∈ l, ∀ u, u.order o = v.order o → Handing c r w₀ u →
      ¬((v.order o).jobChain = some c ∧ m o = true) → b o u = (.ok (), u)) :
    ∃ v', forEach b l v = (.ok (), v')
      ∧ Leaving c r (fun p => gone p || (decide (p ∈ l) && m p)) w₀ v' := by
  obtain ⟨v', hrun, hv', hord⟩ := forEach_treats (w := v) (f := b)
    (g := fun o => if (v.order o).jobChain = some c ∧ m o = true
      then left (w₀.chain c).path (w₀.order o) else v.order o) hl h.toHanding
    (fun o ho u hu heq => by
      by_cases hm : (v.order o).jobChain = some c ∧ m o = true
      · obtain ⟨u', hrun, hmoved, hord⟩ := removeFromChain_left hu.placed (heq ▸ hm.1)
        rw [hu.jobChain c, heq, (h.stays R hfit hm.1).1] at hord
        refine ⟨u', ?_, hu.leaves hmoved hord, hmoved.order, hord.trans (if_pos hm).symm⟩
        rw [hleave o ho u heq hu hm.1 hm.2, hrun]
      · exact ⟨u, hstay o ho u heq hu hm, hu, fun _ _ => rfl, heq.trans (if_neg hm).symm⟩)
  refine ⟨v', hrun, hv', fun p => ?_⟩
  rw [hord p]
  by_cases hc : (v.order p).jobChain = some c
  · obtain ⟨heq, hgone, htaken⟩ := h.stays R hfit hc
    rw [heq] at hc ⊢
    simp only [hc, hgone, htaken, true_and, Bool.false_or, Bool.and_eq_true, decide_eq_true_eq]
    by_cases hm : p ∈ l <;> simp [hm]
  · -- it has left `c` before, or was never in it
    have hno : ¬((v.order p).jobChain = some c ∧ m p = true) := fun hm => hc hm.1
    rw [if_neg hno, ite_self, h.order p]
    by_cases ht : isTaken w₀ c r p = true
    · rw [if_pos ht, if_pos ht]
    rw [if_neg ht, if_neg ht]
    by_cases hcc : (w₀.order p).jobChain = some c
    · have hg : gone p = true := by
        refine Classical.byContradiction fun hg => hc ?_
        rw [h.order p, if_neg ht, if_neg fun hcg => hg hcg.2]
        exact hcc
      rw [if_pos ⟨hcc, hg⟩, if_pos ⟨hcc, by rw [hg]; rfl⟩]
    · rw [if_neg fun hcg => hcc hcg.1, if_neg fun hcg => hcc hcg.1]

omit hfit in
/-- One round of the loop over the file-based orders. -/
theorem leaveByFile_run {v u : World} (h : Leaving c r (fun _ => false) w₀ v)
    (ho : o ∈ w₀.standingOrders) (heq : u.order o = v.order o) (hu : Handing c r w₀ u) :
    leaveByFile c o u = if (v.order o).jobChain = some c
        ∧ (w₀.order o).fileBasedJobChainPath = (w₀.chain c).path
      then removeFromChain c o u else (.ok (), u) := by
  have hpath : (u.order o).fileBasedJobChainPath = (u.chain c).path
      ↔ (w₀.order o).fileBasedJobChainPath = (w₀.chain c).path := by
    rw [hu.filePath, hu.jobChain c]
  have hcond : ((u.order o).jobChain.isSome = true
        ∧ (u.order o).fileBasedJobChainPath = (u.chain c).path)
      ↔ (v.order o).jobChain = some c
        ∧ (w₀.order o).fileBasedJobChainPath = (w₀.chain c).path := by
    rw [hpath, heq]
    refine and_congr_left fun hp => ⟨fun hsome => ?_, fun hc => by rw [hc]; rfl⟩
    have ht : ¬isTaken w₀ c r o = true := fun ht => by
      have hno := (Bool.and_eq_true_iff.mp ht).2
      rw [isStanding_of_mem ho hp] at hno
      cases hno
    have hsame : v.order o = w₀.order o := by
      rw [h.order o, if_neg ht, if_neg (fun h => nomatch h.2)]
    rw [hsame] at hsome ⊢
    refine (R.files o ho hp).resolve_left fun hnone => ?_
    rw [hnone] at hsome
    cases hsome
  by_cases hm : (v.order o).jobChain = some c
      ∧ (w₀.order o).fileBasedJobChainPath = (w₀.chain c).path
  · simp only [leaveByFile, bind_run, get_run, Exec.onlyIf, if_pos (hcond.mpr hm), if_pos hm]
  · simp only [leaveByFile, bind_run, get_run, Exec.onlyIf, if_neg fun h => hm (hcond.mp h),
      if_neg hm, pure_run]

/-- The file-based orders of the job chain leave it. -/
theorem removeStandingOrders_run {v : World} (h : Leaving c r (fun _ => false) w₀ v) :
    ∃ v', removeStandingOrders c v = (.ok (), v') ∧ Leaving c r (fun p =>
      decide (p ∈ w₀.standingOrders)
        && decide ((w₀.order p).fileBasedJobChainPath = (w₀.chain c).path)) w₀ v' := by
  obtain ⟨v', hrun, hv'⟩ := h.loop R hfit
    (m := fun p => decide ((w₀.order p).fileBasedJobChainPath = (w₀.chain c).path))
    (b := leaveByFile c) R.standing
    (fun o ho u heq hu hc hm => by
      rw [leaveByFile_run R h ho heq hu, if_pos ⟨hc, of_decide_eq_true hm⟩])
    (fun o ho u heq hu hno => by
      rw [leaveByFile_run R h ho heq hu, if_neg]
      exact fun hm => hno ⟨hm.1, decide_eq_true hm.2⟩)
  refine ⟨v', ?_, ?_⟩
  · rw [← h.rest.standingOrders] at hrun
    exact hrun
  · simpa only [Bool.false_or] using hv'

/-- What `remove_all_pending_orders` leaves: the orders that are in tasks. -/
theorem removeAllPendingOrders_run {gone : OrderRef → Bool} {v : World} {l : List OrderRef}
    (h : Leaving c r gone w₀ v) (hl : l.Perm (ordersOf v c)) :
    ∃ v', removeAllPendingOrders c true l v = (.ok (), v')
      ∧ Leaving c r (fun p => gone p || (w₀.order p).task.isNone) w₀ v' := by
  have hnodup : l.Nodup := hl.nodup_iff.mpr (nodup_ordersOf h.placed)
  have hmem : ∀ p, p ∈ l ↔ (v.order p).jobChain = some c := fun p =>
    hl.mem_iff.trans (mem_ordersOf h.placed)
  obtain ⟨v', hrun, hv'⟩ := h.loop R hfit (m := fun p => (w₀.order p).task.isNone)
    (b := fun o => do
      let w ← get
      onlyIf ((w.order o).task.isNone = true)
        (if true then removeFromChain c o else removeFromJobChain o true)) hnodup
    (fun o ho u heq hu hc hm => by
      have hidle : (u.order o).task.isNone = true := by
        rw [heq, (h.stays R hfit hc).1]
        exact hm
      simp only [bind_run, get_run, Exec.onlyIf, if_pos hidle, if_true])
    (fun o ho u heq hu hno => by
      have hc := (hmem o).mp ho
      have hbusy : ¬(u.order o).task.isNone = true := by
        rw [heq, (h.stays R hfit hc).1]
        exact fun hm => hno ⟨hc, hm⟩
      simp only [bind_run, get_run, Exec.onlyIf, if_neg hbusy, pure_run])
  refine ⟨v', hrun, hv'.toHanding, fun p => ?_⟩
  rw [hv'.order p]
  by_cases ht : isTaken w₀ c r p = true
  · rw [if_pos ht, if_pos ht]
  rw [if_neg ht, if_neg ht]
  refine if_congr (and_congr_right fun hc => ?_) rfl rfl
  cases hg : gone p with
  | true => exact Iff.rfl
  | false =>
      have hin : p ∈ l := by
        rw [hmem, h.order p, if_neg ht, if_neg fun hcg => by rw [hg] at hcg; cases hcg.2]
        exact hc
      rw [decide_eq_true hin, Bool.true_and]

omit R hfit in
/-- Orders stay placed when a job chain changes nothing that places them. -/
theorem placed_setChain {g : Chain → Chain} (h : Placed w)
    (hmap : (g (w.chain c)).orderMap = (w.chain c).orderMap)
    (hqueue : (g (w.chain c)).queue = (w.chain c).queue)
    (hnodes : (g (w.chain c)).nodes = (w.chain c).nodes)
    (hblack : ∀ p id, (g (w.chain c)).blacklistMap.lookup id = some p ↔
      (w.order p).jobChain = some c ∧ (w.order p).id = id ∧ (w.order p).isOnBlacklist = true) :
    Placed (w.setChain c g) := by
  intro p
  refine ⟨fun d id => ?_, fun d id => ?_, fun d s => ?_, fun n hn => ?_, (h p).queued⟩
  · by_cases hd : d = c
    · rw [hd, World.setChain_chain_self, hmap]
      exact (h p).inMap c id
    · rw [World.setChain_chain_of_ne hd]
      exact (h p).inMap d id
  · by_cases hd : d = c
    · rw [hd, World.setChain_chain_self]
      exact hblack p id
    · rw [World.setChain_chain_of_ne hd]
      exact (h p).onBlacklist d id
  · by_cases hd : d = c
    · rw [hd, World.setChain_chain_self, hqueue]
      exact (h p).inQueue c s
    · rw [World.setChain_chain_of_ne hd]
      exact (h p).inQueue d s
  · obtain ⟨hc, hmem⟩ := (h p).nodeOfChain n hn
    refine ⟨hc, ?_⟩
    by_cases hd : n.chain = c
    · rw [hd] at hmem ⊢
      rw [World.setChain_chain_self, hnodes]
      exact hmem
    · rw [World.setChain_chain_of_ne hd]
      exact hmem

/-- After `close` the job chain has only orders that are in tasks and not on its blacklist. -/
theorem closeJobChain_run {gone : OrderRef → Bool} {v : World}
    {visit : List OrderRef → List OrderRef} (hvisit : ∀ l, (visit l).Perm l)
    (h : Leaving c r gone w₀ v) :
    ∃ v', closeJobChain visit c v = (.ok (), v') ∧ (v'.chain c).state = .closed
      ∧ v'.standingOrders = w₀.standingOrders
      ∧ (∀ d, (v'.chain d).path = (w₀.chain d).path)
      ∧ (∀ p, v'.order p = if isTaken w₀ c r p = true then taken w₀ c r (w₀.order p)
        else if (w₀.order p).jobChain = some c ∧ (gone p || (w₀.order p).task.isNone) = true
          then left (w₀.chain c).path (w₀.order p) else w₀.order p)
      ∧ ((∀ p, (w₀.order p).jobChain = some c → (w₀.order p).task.isSome = true →
          (w₀.order p).isOnBlacklist = false) → Placed v') := by
  obtain ⟨u, hrun, hu⟩ := removeAllPendingOrders_run R hfit h (hvisit (ordersOf v c))
  have hchain : ∀ d, d ≠ c → (u.setChain c fun ch =>
      { ch with blacklistMap := ∅, state := .closed }).chain d = u.chain d := fun d hd =>
    World.setChain_chain_of_ne hd
  have hself : (u.setChain c fun ch => { ch with blacklistMap := ∅, state := .closed }).chain c
      = { u.chain c with blacklistMap := ∅, state := .closed } := World.setChain_chain_self
  refine ⟨u.setChain c fun ch => { ch with blacklistMap := ∅, state := .closed }, ?_, ?_,
    hu.rest.standingOrders, fun d => ?_, hu.order, fun hb p => ?_⟩
  · simp only [closeJobChain, bind_run, get_run, hrun, modify_run]
  · rw [hself]
  · by_cases hd : d = c
    · rw [hd, hself, ← hu.jobChain c]
    · rw [hchain d hd, hu.jobChain d]
  -- no order that is still in `c` is on its blacklist
  have hno : ∀ q, ¬((u.order q).jobChain = some c ∧ (u.order q).isOnBlacklist = true) := by
    rintro q ⟨hq, hqb⟩
    obtain ⟨heq, hgone, -⟩ := hu.stays R hfit hq
    rw [heq] at hq hqb
    rw [Bool.or_eq_false_iff] at hgone
    have hbusy : (w₀.order q).task.isSome = true := by
      rw [← Option.not_isNone, hgone.2]
      rfl
    rw [hb q hq hbusy] at hqb
    cases hqb
  exact placed_setChain hu.placed rfl rfl rfl (fun p id => by
    constructor
    · nofun
    · rintro ⟨hc, -, hbl⟩
      exact absurd ⟨hc, hbl⟩ (hno p)) p

omit hfit in
/-- Before the first order goes. -/
theorem handed_nil : Handed c r [] w₀ w₀ where
  placed := R.placed
  jobChain _ := rfl
  rest := .refl w₀
  id _ := rfl
  filePath _ := rfl
  fromOld p hp := absurd hp (R.empty p)
  order _ := rfl

/-- The file-based orders have left, unless the job chain contains nested ones. -/
theorem removeFiles_run {v : World} (h : Leaving c r (fun _ => false) w₀ v) :
    ∃ v', (Exec.onlyIf ((w₀.chain c).containsNestedJobChains = false) (removeStandingOrders c) :
        Method Unit) v = (.ok (), v')
      ∧ Leaving c r (leavesByFile w₀ c) w₀ v' := by
  cases hn : (w₀.chain c).containsNestedJobChains with
  | true =>
      refine ⟨v, rfl, h.toHanding, fun p => ?_⟩
      have hl : leavesByFile w₀ c p = false := by rw [leavesByFile, hn]; rfl
      rw [hl]
      exact h.order p
  | false =>
      obtain ⟨v', hrun, hv'⟩ := removeStandingOrders_run R hfit h
      refine ⟨v', hrun, hv'.toHanding, fun p => ?_⟩
      have hl : leavesByFile w₀ c p = (decide (p ∈ w₀.standingOrders)
          && decide ((w₀.order p).fileBasedJobChainPath = (w₀.chain c).path)) := by
        rw [leavesByFile, hn]
        rfl
      rw [hl]
      exact hv'.order p

omit R hfit in
/-- The loop that only asserts changes nothing. -/
theorem forEach_require {P : OrderRef → World → Prop} [∀ o v, Decidable (P o v)]
    {q : OrderRef → World → Bool} {e : Failure} {v : World} (l : List OrderRef)
    (h : ∀ o ∈ l, P o v → q o v = true) :
    forEach (fun o => do
      let w ← get
      onlyIf (P o w) (require (q o w) e)) l v = (.ok (), v) := by
  induction l with
  | nil => rfl
  | cons o l ih =>
      rw [forEach_cons, bind_run]
      have hone : (do
          let w ← get
          onlyIf (P o w) (require (q o w) e) : Method Unit) v = (.ok (), v) := by
        rw [bind_run, get_run]
        by_cases hp : P o v
        · simp only [Exec.onlyIf, if_pos hp, require_run, h o (List.mem_cons_self ..) hp, if_true]
        · simp only [Exec.onlyIf, if_neg hp, pure_run]
      rw [hone]
      exact ih fun o' ho' => h o' (List.mem_cons_of_mem _ ho')

end

theorem afterReplacement_filePath (w : World) (c r : ChainRef) (o : OrderRef) :
    (afterReplacement w c r o).fileBasedJobChainPath = (w.order o).fileBasedJobChainPath := by
  have htaken : (taken w c r (w.order o)).fileBasedJobChainPath
      = (w.order o).fileBasedJobChainPath := by
    rw [taken]
    split
    · rw [entered_fileBasedJobChainPath, left_fileBasedJobChainPath]
    · rfl
  simp only [afterReplacement]
  split
  · rfl
  split
  · exact htaken
  split
  · rfl
  · exact left_fileBasedJobChainPath _ _

/-- A file-based order of the job chain is in no job chain afterwards. -/
theorem afterReplacement_standing (R : Replaceable w c r)
    (hn : (w.chain c).containsNestedJobChains = false) (ho : o ∈ w.standingOrders)
    (hpath : (w.order o).fileBasedJobChainPath = (w.chain c).path) :
    (afterReplacement w c r o).jobChain = none := by
  have ht : ¬isTaken w c r o = true := fun ht => by
    have hno := (Bool.and_eq_true_iff.mp ht).2
    rw [isStanding_of_mem ho hpath] at hno
    cases hno
  have hl : leavesByFile w c o = true := by
    rw [leavesByFile, hn, decide_eq_true ho, decide_eq_true hpath]
    rfl
  simp only [afterReplacement]
  obtain hnone | hc := R.files o ho hpath
  · rw [if_pos (by rw [hnone]; nofun)]
    exact hnone
  · rw [if_neg fun h => h hc, if_neg ht, hl, if_neg (by rw [Bool.not_true, Bool.and_false]; nofun)]
    exact left_jobChain _ _

/-- The replacement of the job chain 0 has been initialized; no order is in a job chain. -/
def sampleBefore : World :=
  { sampleEmpty "work" with
    chain := fun d => if d = 0 then { sampleChain with hasInitializedReplacement := true }
      else sampleChain }

theorem sampleBefore_placed : Placed sampleBefore := by
  have hchain : ∀ d, (sampleBefore.chain d).orderMap = ∅ ∧ (sampleBefore.chain d).blacklistMap = ∅
      ∧ (sampleBefore.chain d).queue = fun _ => [] := by
    intro d
    simp only [sampleBefore]
    split <;> exact ⟨rfl, rfl, rfl⟩
  intro p
  refine ⟨fun d _ => ?_, fun d _ => ?_, fun d _ => ?_, nofun, nofun,
    fun h => nomatch h.choose_spec.1⟩
  · rw [(hchain d).1]
    exact ⟨nofun, fun h => nomatch h.1⟩
  · rw [(hchain d).2.1]
    exact ⟨nofun, fun h => nomatch h.1⟩
  · rw [(hchain d).2.2]
    rfl

/-- The order 0 waits in the job chain 0. -/
def sampleWaiting : World := (addToJobChain 0 0 sampleBefore).2

theorem sampleWaiting_moved : Moved 0 sampleBefore sampleWaiting
    ∧ sampleWaiting.order 0
      = entered "/chain" ⟨0, OrderSetback.sampleWork⟩ (sampleBefore.order 0) := by
  obtain ⟨w', hrun, hm, hord⟩ := addToJobChain_entered (c := 0) (o := 0) sampleBefore_placed rfl rfl
    rfl rfl
  rw [sampleWaiting, hrun]
  exact ⟨hm, hord⟩

theorem sampleWaiting_replaceable : Replaceable sampleWaiting 0 1 := by
  obtain ⟨hm, hord⟩ := sampleWaiting_moved
  have hstanding : sampleWaiting.standingOrders = [] := hm.rest.standingOrders
  refine ⟨hm.placed, by decide, fun p => ?_, hm.rest.orderIdSpace 1, ?_, fun o ho => ?_⟩
  · by_cases hp : p = 0
    · rw [hp, hord]
      nofun
    · rw [hm.order p hp]
      nofun
  · rw [hstanding]
    exact List.nodup_nil
  · rw [hstanding] at ho
    cases ho

end ChainReplacement
