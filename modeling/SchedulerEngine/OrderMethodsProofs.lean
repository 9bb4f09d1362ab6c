import SchedulerEngine.OrderClosedProofs

/-! # Methods keep what their moves keep

    For every method of an order, a queue or a job chain: a closed predicate
    holds after it, whether it ends normally or fails, and what the callers have
    to know besides. -/

namespace OrderMethods

open FileBased (Failure)
open Execution Execution.Exec JobChainNode OrderWorld OrderQueue OrderMove OrderPlacement OrderClosed

variable {μ : Mode} {o : OrderRef} {w : World} {I : World → Prop} {c : ChainRef}
  {n : NodeRef} {f g : Order → Order} {target : Option NodeRef}

/-! ## Assignments -/

theorem World.setOrder_setOrder :
    (w.setOrder o f).setOrder o g = w.setOrder o fun x => g (f x) := by
  simp only [World.setOrder, Function.update_self, Function.update_idem]

theorem World.setOrder_id : w.setOrder o (fun x => x) = w := by
  simp only [World.setOrder, Function.update_eq_self]

/-- An assignment that leaves the order at its place, and not more touched. -/
theorem keeps_writeSame (C : Closed μ o I) (hf : ∀ x, Same x (f x))
    (hk : μ.sorted → ∀ x, orderKey (f x) = orderKey x) : Keeps I (write o f) :=
  fun w hw => C.move w _ hw (.write f (hf _) fun hs => hk hs _)

/-- An assignment to members that neither place nor key depend on. -/
theorem keeps_write (C : Closed μ o I) (hf : ∀ x, members (f x) = members x)
    (hk : ∀ x, orderKey (f x) = orderKey x) : Keeps I (write o f) :=
  keeps_writeSame C (fun _ => .of_eq (hf _)) fun _ => hk

theorem members_setState2 (state : Option String) (x : Order) :
    let y := { x with state := state }
    members (if y.initialStateSet = true then y
      else { y with initialState := state, initialStateSet := true }) = members x := by
  cases x.initialStateSet <;> rfl

theorem orderKey_setState2 (state : Option String) (x : Order) :
    let y := { x with state := state }
    orderKey (if y.initialStateSet = true then y
      else { y with initialState := state, initialStateSet := true }) = orderKey x := by
  cases x.initialStateSet <;> rfl

theorem keeps_setState2 (C : Closed μ o I) (state : Option String) :
    Keeps I (setState2 o state) :=
  keeps_write C (members_setState2 state) (orderKey_setState2 state)

/-! ## Inserting again -/

theorem addOrder_run : addOrder n o w = (.ok (), enqueue w n o) := rfl

theorem removeOrder_run (h : PlacedAt w o) (hq : (w.order o).isInOrderQueue = true)
    (hn : (w.order o).jobChainNode = some n) :
    removeOrder n o w = (.ok (), dequeue w n o) := by
  have hmem : o ∈ w.queue n := h.mem_queue hq hn
  simp only [removeOrder, bind_run, get_run, require_run, hq, hmem, decide_true, if_true]
  rfl

theorem reinsertOrder_run (h : PlacedAt w o) (hq : (w.order o).isInOrderQueue = true)
    (hn : (w.order o).jobChainNode = some n) :
    reinsertOrder n o w = (.ok (), enqueue (dequeue w n o) n o) := by
  simp only [reinsertOrder, bind_run, removeOrder_run h hq hn, addOrder_run]

theorem orderQueue_run (hn : (w.order o).jobChainNode = some n)
    (hty : n.node.type.isOrderQueue = true) : orderQueue o w = (.ok n, w) := by
  simp only [orderQueue, bind_run, get_run, hn, hty, if_true, pure_run]

/-- A change followed by a new insertion. -/
theorem write_reinsert_run (h : PlacedAt w o) (hf : SamePlace (w.order o) (f (w.order o))) :
    (do write o f; reinsertIfInQueue o : Method Unit) w
      = (.ok (), rekeyed w o f) := by
  have h' : PlacedAt (w.setOrder o f) o := h.same hf
  have hord : (w.setOrder o f).order o = f (w.order o) := World.setOrder_order_self
  show reinsertIfInQueue o (w.setOrder o f) = _
  simp only [reinsertIfInQueue, bind_run, get_run, Exec.onlyIf]
  cases hq : (w.order o).isInOrderQueue with
  | false =>
      have hq' : ((w.setOrder o f).order o).isInOrderQueue = false := by
        rw [hord, hf.isInOrderQueue, hq]
      rw [rekeyed_of_not_queued hq, if_neg (by rw [hq']; nofun)]
      rfl
  | true =>
      obtain ⟨n, hn, hty⟩ := h.queued.mp hq
      have hq' : ((w.setOrder o f).order o).isInOrderQueue = true := by
        rw [hord, hf.isInOrderQueue, hq]
      have hn' : ((w.setOrder o f).order o).jobChainNode = some n := by
        rw [hord, hf.jobChainNode, hn]
      rw [if_pos hq', rekeyed_of_queued hq hn, bind_run, orderQueue_run hn' hty]
      exact reinsertOrder_run h' hq' hn'

theorem keeps_rekey (C : Closed μ o I) (hf : ∀ x, Same x (f x)) :
    Keeps I (do write o f; reinsertIfInQueue o : Method Unit) := by
  intro w hw
  show I ((do write o f; reinsertIfInQueue o : Method Unit) w).2
  rw [write_reinsert_run (C.placed w hw o) (hf _).toSamePlace]
  exact C.move w _ hw (.rekey f (hf _))

/-- The order stays at its place. -/
theorem keeps_rekey_place (C : Closed μ o I) (hf : ∀ x, Same x (f x)) (x : Order) :
    Keeps (fun w => I w ∧ SamePlace x (w.order o))
      (do write o f; reinsertIfInQueue o : Method Unit) := by
  rintro w ⟨hw, hx⟩
  have hp := C.placed w hw o
  show I ((do write o f; reinsertIfInQueue o : Method Unit) w).2 ∧ _
  have hsame := (hf (w.order o)).toSamePlace
  have hord : ((do write o f; reinsertIfInQueue o : Method Unit) w).2.order o
      = f (w.order o) := by
    rw [write_reinsert_run hp hsame]
    exact rekeyed_order_self hp hsame
  refine ⟨keeps_rekey C hf w hw, ?_⟩
  show SamePlace x (((do write o f; reinsertIfInQueue o : Method Unit) w).2.order o)
  rw [hord]
  exact ⟨hsame.id.trans hx.id, hsame.jobChain.trans hx.jobChain,
    hsame.jobChainNode.trans hx.jobChainNode, hsame.isInOrderQueue.trans hx.isInOrderQueue,
    hsame.isOnBlacklist.trans hx.isOnBlacklist⟩

/-! ## Start times, suspension, priority -/

theorem keeps_setSetback (C : Closed μ o I) (time : Nat) (keepSetbackCount : Bool) :
    Keeps I (setSetback o time keepSetbackCount) := by
  refine Keeps.get_bind fun w hw => ?_
  refine (Keeps.bind (Keeps.onlyIf fun _ => ?_) fun _ => Keeps.onlyIf fun _ => ?_) w hw
  · exact keeps_rekey C fun x => .of_eq rfl
  · exact keeps_write C (fun _ => rfl) fun _ => rfl

theorem keeps_clearSetback_place (C : Closed μ o I) (x : Order) :
    Keeps (fun w => I w ∧ SamePlace x (w.order o)) (clearSetback o) := by
  refine Keeps.of_triple (Triple.get_bind_any fun w => Keeps.triple (Keeps.onlyIf fun _ => ?_))
  refine Keeps.of_triple (Triple.get_bind_any fun w => Keeps.triple ?_)
  refine Keeps.bind (Keeps.onlyIf fun _ => ?_) fun _ => Keeps.onlyIf fun _ => ?_
  · exact keeps_rekey_place C (by exact fun x => .of_eq rfl) x
  · refine Keeps.of_triple (Triple.modify ?_)
    rintro w ⟨hw, hx⟩
    refine ⟨C.move w _ hw (.write _ (.of_eq rfl) fun _ => rfl), ?_⟩
    rw [World.setOrder_order_self]
    exact ⟨hx.id, hx.jobChain, hx.jobChainNode, hx.isInOrderQueue, hx.isOnBlacklist⟩

theorem keeps_clearSetback (C : Closed μ o I) : Keeps I (clearSetback o) :=
  Keeps.get_bind fun w hw => Keeps.onlyIf (fun _ => keeps_setSetback C 0 false) w hw

theorem keeps_setAt (C : Closed μ o I) (time : Nat) : Keeps I (setAt o time) := by
  refine Keeps.get_bind fun w hw => ?_
  cases ht : (w.order o).task with
  | some task => exact hw
  | none => exact (Keeps.require _ _).bind (fun _ => keeps_setSetback C time false) w hw

theorem keeps_setAtAfterDelay (C : Closed μ o I) (time : Nat) :
    Keeps I (setAtAfterDelay o time) :=
  keeps_setSetback C time true

/-- Changing the suspension of an order, unless it then leaves its job chain. -/
theorem setSuspended_run (h : PlacedAt w o) (suspended : Bool)
    (hs : (w.order o).suspended ≠ suspended)
    (hstay : (w.order o).isOnBlacklist = true → suspended = true) :
    setSuspended o suspended w
      = (.ok (), rekeyed w o fun x => { x with suspended := suspended }) := by
  have hcond : ¬((w.order o).isOnBlacklist && !suspended) = true := by
    cases hb : (w.order o).isOnBlacklist with
    | false => nofun
    | true => rw [hstay hb]; nofun
  rw [← write_reinsert_run (f := fun x => { x with suspended := suspended }) h
    ⟨rfl, rfl, rfl, rfl, rfl⟩]
  simp only [setSuspended, bind_run, get_run, Exec.onlyIf, if_pos hs, if_neg hcond]
  cases hc : (w.order o).jobChain with
  | some c => rfl
  | none =>
      -- an order in no job chain is in no queue
      have hq := (h.unqueued_of_unplaced hc).2
      simp only [write, modify_run, reinsertIfInQueue, bind_run, get_run, Exec.onlyIf,
        World.setOrder_order_self, hq]
      rfl

theorem keeps_suspend (C : Closed μ o I) : Keeps I (setSuspended o true) := by
  intro w hw
  show I (setSuspended o true w).2
  by_cases hs : (w.order o).suspended = true
  · have hrun : setSuspended o true w = (.ok (), w) := by
      simp only [setSuspended, bind_run, get_run, Exec.onlyIf, hs, ne_eq, not_true, if_false,
        pure_run]
    rw [hrun]
    exact hw
  · rw [setSuspended_run (C.placed w hw o) true hs fun _ => rfl]
    exact C.move w _ hw (.rekey _ (.of_eq rfl))

/-- Only the priority of an order in a task is written where it stands. -/
theorem setPriority_spec (C : Closed μ o I) (priority : Int) :
    Triple (fun w => I w ∧ (μ.sorted → (w.order o).task.isNone = true)) (setPriority o priority)
      (fun _ => I) fun _ => I := by
  refine Triple.at_state fun w hpre => Triple.get_bind_at ?_
  obtain ⟨hw, ht⟩ := hpre
  refine Triple.consequence (P := I) (Keeps.triple (Keeps.onlyIf fun _ => ?_)) (fun _ h => h ▸ hw)
    (fun _ _ h => h) fun _ _ h => h
  by_cases hn : (w.order o).task.isNone = true
  · rw [show Exec.onlyIf ((w.order o).task.isNone = true) (reinsertIfInQueue o)
      = reinsertIfInQueue o from if_pos hn]
    exact keeps_rekey C fun x => .of_eq rfl
  · rw [show (Exec.onlyIf ((w.order o).task.isNone = true) (reinsertIfInQueue o) : Method Unit)
      = pure () from if_neg hn]
    refine Keeps.bind (keeps_writeSame C (fun _ => .of_eq rfl) fun hs => ?_) fun _ => Keeps.pure ()
    exact absurd (ht hs) hn

theorem orderQueue_spec {P : World → Prop} :
    Triple P (orderQueue o)
      (fun n w => P w ∧ (w.order o).jobChainNode = some n ∧ n.node.type.isOrderQueue = true)
      fun _ => P := by
  intro w hw
  cases hn : (w.order o).jobChainNode with
  | none =>
      simp only [orderQueue, bind_run, get_run, hn, throw_run]
      exact hw
  | some n =>
      cases hty : n.node.type.isOrderQueue with
      | true =>
          rw [orderQueue_run hn hty]
          exact ⟨hw, hn, hty⟩
      | false =>
          simp only [orderQueue, bind_run, get_run, hn, hty]
          exact hw

/-- What `setback` makes of an order in a task: beyond the limit it is set back for
    ever. -/
def SetBack (task : Task) (x y : Order) : Prop :=
  ∃ time, y = { x with setbackCount := x.setbackCount + 1, setbackCalled := true, setback := time }
    ∧ (task.maxOrderSetbacks < x.setbackCount + 1 → time = never)

theorem setback_spec (C : Closed μ o I) (x : Order) :
    Triple (fun w => I w ∧ w.order o = x) (setback o)
      (fun _ w => I w ∧ ∃ task, x.task = some task ∧ SetBack task x (w.order o)) fun _ => I := by
  refine Triple.at_state fun w hpre => Triple.get_bind_at ?_
  obtain ⟨hw, rfl⟩ := hpre
  cases ht : (w.order o).task with
  | none =>
      rintro _ rfl
      exact hw
  | some task =>
      have hE : ∀ (_ : Failure) s, s = w → I s := fun _ _ h => h ▸ hw
      refine Triple.bind (Q := fun _ s => s = w)
        (Triple.require (fun _ _ h => h) fun _ => hE (.function "")) fun _ => ?_
      refine Triple.bind (Q := fun _ s => s = w)
        (Triple.require (fun _ _ h => h) fun _ => hE (.function "")) fun _ => ?_
      refine Triple.bind (orderQueue_spec.consequence (fun _ h => h) (fun _ _ h => h) hE)
        fun n => ?_
      rintro w' ⟨rfl, hn, hty⟩
      -- the assignments and the insertion are one move
      have hq : (w'.order o).isInOrderQueue = true :=
        (C.placed w' hw o).queued.mpr ⟨n, hn, hty⟩
      have hmove : ∀ f : Order → Order, Same (w'.order o) (f (w'.order o)) →
          I (enqueue (dequeue (w'.setOrder o f) n o) n o)
          ∧ (enqueue (dequeue (w'.setOrder o f) n o) n o).order o = f (w'.order o) := by
        intro f hf
        rw [← rekeyed_of_queued hq hn]
        exact ⟨C.move w' _ hw (.rekey f hf),
          rekeyed_order_self (C.placed w' hw o) hf.toSamePlace⟩
      simp only [bind_run, write, modify_run]
      rw [reinsertOrder_run ((C.placed w' hw o).same ⟨rfl, rfl, rfl, rfl, rfl⟩)
        (by rw [World.setOrder_order_self]; exact hq)
        (by rw [World.setOrder_order_self]; exact hn)]
      refine ⟨(hmove _ ?_).1, task, rfl, _, (hmove _ ?_).2, fun hlt => if_neg ?_⟩
      · exact .of_eq rfl
      · exact .of_eq rfl
      · omega

/-! ## The blacklist -/

theorem setOnBlacklist_run (hc : (w.order o).jobChain = some c) :
    setOnBlacklist o w = (.ok (), blacklist w c o) := by
  simp only [setOnBlacklist, bind_run, get_run, hc]
  rfl

theorem setOnBlacklist_spec (C : Closed μ o I) :
    Triple (fun w => I w ∧ (μ.apart → (w.order o).isInOrderQueue = false)) (setOnBlacklist o)
      (fun _ w => I w ∧ (μ.apart → (w.order o).isInOrderQueue = false)) fun _ => I := by
  rintro w ⟨hw, hq⟩
  cases hc : (w.order o).jobChain with
  | none =>
      simp only [setOnBlacklist, bind_run, get_run, hc]
      exact hw
  | some c =>
      rw [setOnBlacklist_run hc]
      refine ⟨C.move w _ hw (.blacklist c hc hq), ?_⟩
      rw [blacklist_order_self]
      exact hq

/-- An order off the blacklist. -/
def unblacklisted (w : World) (c : ChainRef) (o : OrderRef) : World :=
  if (w.order o).isOnBlacklist = true then unblacklist w c o else w

theorem removeFromBlacklist_run (hc : (w.order o).jobChain = some c) :
    removeFromBlacklist o w = (.ok (), unblacklisted w c o) := by
  simp only [removeFromBlacklist, bind_run, get_run, Exec.onlyIf, unblacklisted]
  cases hb : (w.order o).isOnBlacklist with
  | false => rfl
  | true =>
      rw [if_pos rfl, if_pos rfl, hc]
      rfl

theorem unblacklisted_order_self :
    (unblacklisted w c o).order o = { w.order o with isOnBlacklist := false } := by
  cases hb : (w.order o).isOnBlacklist with
  | false =>
      rw [unblacklisted, hb, if_neg nofun, ← hb]
  | true =>
      rw [unblacklisted, hb, if_pos rfl]
      exact unblacklist_order_self

theorem keeps_unblacklisted (C : Closed μ o I) (hw : I w)
    (hc : (w.order o).jobChain = some c) : I (unblacklisted w c o) := by
  by_cases hb : (w.order o).isOnBlacklist = true
  · rw [unblacklisted, if_pos hb]
    exact C.move w _ hw (.unblacklist c hc)
  · rw [unblacklisted, if_neg hb]
    exact hw

/-- Afterwards it is not on the blacklist, at the same place otherwise. -/
theorem removeFromBlacklist_spec (C : Closed μ o I) :
    Triple I (removeFromBlacklist o) (fun _ w => I w ∧ (w.order o).isOnBlacklist = false)
      fun _ => I := by
  intro w hw
  cases hc : (w.order o).jobChain with
  | some c =>
      rw [removeFromBlacklist_run hc]
      exact ⟨keeps_unblacklisted C hw hc, by rw [unblacklisted_order_self]⟩
  | none =>
      simp only [removeFromBlacklist, bind_run, get_run, Exec.onlyIf, hc]
      cases hb : (w.order o).isOnBlacklist with
      | false => exact ⟨hw, hb⟩
      | true => exact hw

/-! ## Leaving a job chain -/

/-- Off the node, and out of its queue. -/
theorem leaveNode_run (C : Closed μ o I) (hw : I w) (hasNode queued : Bool)
    (hn : (w.order o).jobChainNode.isSome = hasNode)
    (hq : (w.order o).isInOrderQueue = queued) :
    ∃ w', (Exec.onlyIf (hasNode = true) do
        Exec.onlyIf (queued = true) do
          let n ← orderQueue o
          removeOrder n o
        write o fun x => { x with jobChainNode := none } : Method Unit) w = (.ok (), w') ∧ I w'
      ∧ w'.order o = { w.order o with isInOrderQueue := false, jobChainNode := none } := by
  have hp := C.placed w hw o
  subst hn hq
  cases hn : (w.order o).jobChainNode with
  | none =>
      have hq : (w.order o).isInOrderQueue = false := by
        rw [Bool.eq_false_iff]
        intro hq
        obtain ⟨n, hn', -⟩ := hp.queued.mp hq
        rw [hn] at hn'
        cases hn'
      exact ⟨w, rfl, hw, by rw [← hq, ← hn]⟩
  | some n =>
      cases hq : (w.order o).isInOrderQueue with
      | false =>
          refine ⟨w.setOrder o fun x => { x with jobChainNode := none }, rfl, ?_, ?_⟩
          · exact C.move w _ hw (.settle none _ hq nofun (.of_eq rfl))
          · rw [World.setOrder_order_self, ← hq]
      | true =>
          obtain ⟨m, hm, hty⟩ := hp.queued.mp hq
          obtain rfl : n = m := Option.some.inj (hn.symm.trans hm)
          refine ⟨(dequeue w n o).setOrder o fun x => { x with jobChainNode := none }, ?_,
            C.move w _ hw (.leave n hq hn), ?_⟩
          · simp only [Exec.onlyIf, Option.isSome_some, if_true, bind_run,
              orderQueue_run hn hty, removeOrder_run hp hq hn, write, modify_run]
          · rw [World.setOrder_order_self, dequeue_order_self]

theorem unregisterOrder_run (hb : (w.order o).isOnBlacklist = false) :
    unregisterOrder c o (w.setOrder o fun x => { x with jobChain := none, jobChainPath := "" })
      = (.ok (), unregister w c o) := by
  simp only [unregisterOrder, bind_run, get_run, require_run, World.setOrder_order_self, hb,
    Bool.not_false, if_true, modify_run]
  rfl

/-- `remove_order` of an order of the job chain does not fail. -/
theorem removeFromChain_run (C : Closed μ o I) (hw : I w) (hc : (w.order o).jobChain = some c) :
    ∃ w', removeFromChain c o w = (.ok (), w') ∧ I w' ∧ (w'.order o).jobChain = none := by
  have hord₁ : (unblacklisted w c o).order o = { w.order o with isOnBlacklist := false } :=
    unblacklisted_order_self
  obtain ⟨w₂, hrun, hw₂, hord₂⟩ := leaveNode_run C (keeps_unblacklisted C hw hc)
    (w.order o).jobChainNode.isSome (w.order o).isInOrderQueue (by rw [hord₁]) (by rw [hord₁])
  rw [hord₁] at hord₂
  have hw₃ : I (unregister w₂ c o) :=
    C.move w₂ _ hw₂ (.unregister c (by rw [hord₂]; exact hc) (by rw [hord₂]) (by rw [hord₂]))
  have hnone : ((unregister w₂ c o).order o).jobChain = none := by
    rw [unregister_order_self]
  have hrest : removeFromChain c o w
      = (Exec.onlyIf ((w.order o).task.isSome = true) (write o fun x =>
          { x with removedFromJobChainPath := (w.chain c).path, moved := true }))
          (unregister w₂ c o) := by
    have hunreg := unregisterOrder_run (w := w₂) (o := o) (c := c) (by rw [hord₂])
    simp only [removeFromChain, bind_run, get_run, require_run, hc, decide_true, if_true,
      removeFromBlacklist_run hc, hrun]
    simp only [write, modify_run, hunreg]
  rw [hrest]
  cases (w.order o).task.isSome with
  | false => exact ⟨_, rfl, hw₃, hnone⟩
  | true =>
      refine ⟨(unregister w₂ c o).setOrder o fun x =>
          { x with removedFromJobChainPath := (w.chain c).path, moved := true }, rfl,
        C.move _ _ hw₃ (.write _ (.of_eq rfl) fun _ => rfl), ?_⟩
      rw [World.setOrder_order_self]
      exact hnone

theorem removeFromChain_spec (C : Closed μ o I) (c : ChainRef) :
    Triple I (removeFromChain c o) (fun _ w => I w ∧ (w.order o).jobChain = none)
      fun _ => I := by
  intro w hw
  by_cases hc : (w.order o).jobChain = some c
  · obtain ⟨w', hrun, hw', hnone⟩ := removeFromChain_run C hw hc
    rw [hrun]
    exact ⟨hw', hnone⟩
  · simp only [removeFromChain, bind_run, get_run, require_run, hc, decide_false]
    exact hw

theorem leaveJobChain_spec (C : Closed μ o I) {E : Failure → World → Prop} :
    Triple I (leaveJobChain o) (fun _ w => I w ∧ (w.order o).jobChain = none) E := by
  intro w hw
  cases hc : (w.order o).jobChain with
  | none =>
      simp only [leaveJobChain, bind_run, get_run, hc]
      exact ⟨hw, hc⟩
  | some c =>
      obtain ⟨w', hrun, hw', hnone⟩ := removeFromChain_run C hw hc
      simp only [leaveJobChain, bind_run, get_run, hc, hrun]
      exact ⟨hw', hnone⟩

/-- An order in no job chain is in no queue: its keys may be written. -/
theorem writeOut_spec (C : Closed μ o I) (hf : ∀ x, x.jobChain = none → Same x (f x))
    {E : Failure → World → Prop} :
    Triple (fun w => I w ∧ (w.order o).jobChain = none) (write o f)
      (fun _ w => I w ∧ (w.order o).jobChain = none) E := by
  rintro w ⟨hw, hnone⟩
  have hq := ((C.placed w hw o).unqueued_of_unplaced hnone).2
  have hsame := hf _ hnone
  have hmove : I (w.setOrder o f) := by
    rw [← rekeyed_of_not_queued hq]
    exact C.move w _ hw (.rekey f hsame)
  refine ⟨hmove, ?_⟩
  show ((w.setOrder o f).order o).jobChain = none
  rw [World.setOrder_order_self, hsame.jobChain]
  exact hnone

/-- `close` does not fail, and leaves the order in no job chain. -/
theorem close_spec (C : Closed μ o I) {E : Failure → World → Prop} :
    Triple I (close o) (fun _ w => I w ∧ (w.order o).jobChain = none) E := by
  refine Triple.bind (Q := fun _ => I) (Triple.modify fun w hw => ?_) fun _ => ?_
  · exact C.move w _ hw (.write _ (.of_eq rfl) fun _ => rfl)
  refine Triple.bind (Q := fun _ => I) (Triple.modify fun w hw => ?_) fun _ => ?_
  · exact C.move w _ hw (.write _ (.of_eq rfl) fun _ => rfl)
  exact leaveJobChain_spec C

theorem keeps_close (C : Closed μ o I) : Keeps I (close o) :=
  Keeps.of_triple ((close_spec C).consequence (fun _ h => h) (fun _ _ h => h.1) fun _ _ h => h)

/-- `remove_from_job_chain` does not fail, and leaves the order in no job chain. -/
theorem removeFromJobChain_spec (C : Closed μ o I) (fromStack : Bool)
    (ho : fromStack = true → μ.outer) {E : Failure → World → Prop} :
    Triple I (removeFromJobChain o fromStack)
      (fun _ w => I w ∧ (w.order o).jobChain = none) E := by
  refine Triple.get_bind fun w => ?_
  refine Triple.bind (Q := fun _ => I) (Triple.onlyIf (fun _ => Triple.modify ?_) ?_) fun _ => ?_
  · rintro w' ⟨-, hw⟩
    exact C.move w' _ hw (.write _ (.of_eq rfl) fun _ => rfl)
  · rintro - w' ⟨-, hw⟩
    exact hw
  refine (leaveJobChain_spec C).bind fun _ => ?_
  refine Triple.bind (writeOut_spec C ?_) fun _ => ?_
  · exact fun _ _ => .of_eq rfl
  refine Triple.bind (writeOut_spec C ?_) fun _ => ?_
  · exact fun _ _ => .of_eq rfl
  refine Triple.bind (writeOut_spec C ?_) fun _ => ?_
  · exact fun x hx => ⟨⟨rfl, hx.symm, rfl, rfl, rfl⟩, rfl, rfl, id, id⟩
  refine Triple.onlyIf (fun hs => ?_) fun _ _ h => h
  refine Triple.bind (Q := fun _ w => I w ∧ (w.order o).jobChain = none)
    (Triple.modify ?_) fun _ => ?_
  · rintro w ⟨hw, hnone⟩
    refine ⟨C.move w _ hw (.reouter "" _ (ho hs) (.of_eq rfl) rfl (Or.inl hnone)), ?_⟩
    rw [World.setOrder_order_self]
    exact hnone
  refine Triple.get_bind fun w => Triple.onlyIf (fun _ => ?_) fun _ _ h => h.2
  exact (close_spec C).consequence (fun _ h => h.2.1) (fun _ _ h => h) fun _ _ h => h

theorem keeps_removeFromJobChain (C : Closed μ o I) (fromStack : Bool)
    (ho : fromStack = true → μ.outer) : Keeps I (removeFromJobChain o fromStack) :=
  Keeps.of_triple ((removeFromJobChain_spec C fromStack ho).consequence (fun _ h => h)
    (fun _ _ h => h.1) fun _ _ h => h)

/-! ## Going to another node -/

/-- The method only assigns to members of the order, which stays where it is. -/
def OnlyWrites (o : OrderRef) (m : Method Unit) (w : World) : Prop :=
  ∃ f : Order → Order, m w = (.ok (), w.setOrder o f) ∧ Same (w.order o) (f (w.order o))

theorem onlyWrites_pure : OnlyWrites o (pure ()) w :=
  ⟨fun x => x, by rw [World.setOrder_id]; rfl, Same.refl _⟩

theorem onlyWrites_write (hf : ∀ x, Same x (f x)) : OnlyWrites o (write o f) w :=
  ⟨f, rfl, hf _⟩

theorem OnlyWrites.bind {m k : Method Unit} (hm : OnlyWrites o m w)
    (hk : ∀ w', Same (w.order o) (w'.order o) → OnlyWrites o k w') :
    OnlyWrites o (m >>= fun _ => k) w := by
  obtain ⟨f, hrun, hf⟩ := hm
  have hf' : Same (w.order o) ((w.setOrder o f).order o) := by
    rw [World.setOrder_order_self]
    exact hf
  obtain ⟨g, hrun', hg⟩ := hk _ hf'
  refine ⟨fun x => g (f x), ?_, ?_⟩
  · rw [bind_run, hrun]
    exact hrun'.trans (congrArg (Prod.mk _) World.setOrder_setOrder)
  · rw [World.setOrder_order_self] at hg
    exact hf.trans hg

theorem OnlyWrites.onlyIf {m : Method Unit} {b : Prop} [Decidable b] (hm : OnlyWrites o m w) :
    OnlyWrites o (Exec.onlyIf b m) w := by
  by_cases hb : b
  · rw [show Exec.onlyIf b m = m from if_pos hb]
    exact hm
  · rw [show Exec.onlyIf b m = pure () from if_neg hb]
    exact onlyWrites_pure

theorem reinsertIfInQueue_unqueued (hq : (w.order o).isInOrderQueue = false) :
    OnlyWrites o (reinsertIfInQueue o) w := by
  have hrun : reinsertIfInQueue o w = (.ok (), w) := by
    simp only [reinsertIfInQueue, bind_run, get_run, Exec.onlyIf, hq]
    rfl
  exact ⟨fun x => x, by rw [hrun, World.setOrder_id], Same.refl _⟩

theorem setSetback_unqueued (hq : (w.order o).isInOrderQueue = false) (time : Nat)
    (keepSetbackCount : Bool) : OnlyWrites o (setSetback o time keepSetbackCount) w := by
  refine OnlyWrites.bind (m := Exec.onlyIf _ _) (OnlyWrites.onlyIf ?_) fun _ _ =>
    (onlyWrites_write fun _ => by exact .of_eq rfl).onlyIf
  exact OnlyWrites.bind (onlyWrites_write fun _ => by exact .of_eq rfl) fun _ hs =>
    reinsertIfInQueue_unqueued (hs.isInOrderQueue.trans hq)

theorem suspend_unqueued (hq : (w.order o).isInOrderQueue = false) :
    OnlyWrites o (setSuspended o true) w := by
  refine OnlyWrites.onlyIf (OnlyWrites.bind (onlyWrites_write fun _ => by exact .of_eq rfl) fun w' hs =>
    OnlyWrites.onlyIf ?_)
  rw [Bool.not_true, Bool.and_false]
  exact reinsertIfInQueue_unqueued (hs.isInOrderQueue.trans hq)

theorem setState2_onlyWrites (state : Option String) : OnlyWrites o (setState2 o state) w :=
  onlyWrites_write fun x => .of_eq (members_setState2 state x)

/-- The node of an order that is in no queue. -/
theorem setJobChainNode_unqueued (hq : (w.order o).isInOrderQueue = false)
    (target : Option NodeRef) :
    ∃ f : Order → Order, setJobChainNode o target w = (.ok (), w.setOrder o f)
      ∧ Same { w.order o with jobChainNode := target } (f (w.order o)) := by
  let w₁ := w.setOrder o fun x => { x with jobChainNode := target }
  have hord : w₁.order o = { w.order o with jobChainNode := target } :=
    World.setOrder_order_self
  have hq₁ : (w₁.order o).isInOrderQueue = false := by
    rw [hord]
    exact hq
  have hrest : ∃ f : Order → Order, setJobChainNode o target w = (.ok (), w₁.setOrder o f)
      ∧ Same (w₁.order o) (f (w₁.order o)) := by
    cases target with
    | none => exact setState2_onlyWrites none
    | some n =>
        refine OnlyWrites.bind (m := Exec.onlyIf _ _) (suspend_unqueued hq₁).onlyIf fun w₂ hs₂ => ?_
        refine OnlyWrites.bind (m := Exec.onlyIf _ _)
          (setSetback_unqueued (hs₂.isInOrderQueue.trans hq₁) _ true).onlyIf fun _ _ => ?_
        exact setState2_onlyWrites _
  obtain ⟨f, hrun, hf⟩ := hrest
  rw [hord] at hf
  refine ⟨fun x => f { x with jobChainNode := target }, ?_, hf⟩
  rw [hrun]
  exact congrArg (Prod.mk _) World.setOrder_setOrder

/-- What has to be known before an order is moved to a node. -/
structure MayMove (μ : Mode) (o : OrderRef) (target : Option NodeRef) (w : World) : Prop where
  /-- The node is a node of its job chain. -/
  ofChain : ∀ n, target = some n →
    (w.order o).jobChain = some n.chain ∧ n.node ∈ (w.chain n.chain).nodes
  /-- It may get into the queue of another node. -/
  arriving : target ≠ (w.order o).jobChainNode → ∀ n, target = some n →
    n.node.type.isOrderQueue = true →
      μ.entering ∧ (μ.apart → (w.order o).isOnBlacklist = false)

/-- The node stays: the order is changed where it is. -/
theorem setJobChainNode_same (C : Closed μ o I) (target : Option NodeRef) :
    Triple (fun w => I w ∧ (w.order o).jobChainNode = target) (setJobChainNode o target)
      (fun _ => I) fun _ => I := by
  refine Triple.bind (Q := fun _ => I) (Triple.modify ?_) fun _ => Keeps.triple ?_
  · rintro w ⟨hw, hn⟩
    refine C.move w _ hw (.write _ ?_ fun _ => rfl)
    exact ⟨⟨rfl, rfl, hn.symm, rfl, rfl⟩, rfl, rfl, id, id⟩
  · cases target with
    | none => exact keeps_setState2 C none
    | some n =>
        refine Keeps.bind (Keeps.onlyIf fun _ => keeps_suspend C) fun _ => ?_
        refine Keeps.get_bind fun w hw => ?_
        refine Keeps.bind (Keeps.onlyIf fun _ => keeps_setAtAfterDelay C _) (fun _ => ?_) w hw
        exact keeps_setState2 C _

/-- Leaving the queue, if the order goes to another node. -/
theorem leaveQueue_spec (C : Closed μ o I) {leaves : Prop} [Decidable leaves] (w₀ : World)
    (hleaves : leaves ↔ (w₀.order o).isInOrderQueue = true) {E : Failure → World → Prop} :
    Triple (fun w => I w ∧ Same (w₀.order o) (w.order o) ∧ ∀ c, (w.chain c).nodes = (w₀.chain c).nodes)
      (Exec.onlyIf leaves do
        let q ← orderQueue o
        removeOrder q o
        write o fun x => { x with jobChainNode := none })
      (fun _ w => I w ∧ (w.order o).isInOrderQueue = false
        ∧ (w.order o).jobChain = (w₀.order o).jobChain
        ∧ (w.order o).isOnBlacklist = (w₀.order o).isOnBlacklist
        ∧ ∀ c, (w.chain c).nodes = (w₀.chain c).nodes) E := by
  by_cases hl : leaves
  · rw [show ∀ m : Method Unit, Exec.onlyIf leaves m = m from fun _ => if_pos hl]
    rintro w ⟨hw, hs, hnodes⟩
    have hp := C.placed w hw o
    have hq : (w.order o).isInOrderQueue = true := hs.isInOrderQueue.trans (hleaves.mp hl)
    obtain ⟨n, hn, hty⟩ := hp.queued.mp hq
    have hmove : Move μ o w _ := Move.leave n hq hn
    simp only [bind_run, orderQueue_run hn hty, removeOrder_run hp hq hn, write, modify_run]
    refine ⟨C.move w _ hw hmove, ?_, ?_, ?_, fun c => ?_⟩
    · rw [World.setOrder_order_self, dequeue_order_self]
    · rw [World.setOrder_order_self, dequeue_order_self]
      exact hs.jobChain
    · rw [World.setOrder_order_self, dequeue_order_self]
      exact hs.isOnBlacklist
    · rw [(hmove.moves (C.placed w hw)).nodes c]
      exact hnodes c
  · rw [show ∀ m : Method Unit, Exec.onlyIf leaves m = pure () from fun _ => if_neg hl]
    refine Triple.pure ?_
    rintro w ⟨hw, hs, hnodes⟩
    have hq : (w₀.order o).isInOrderQueue = false :=
      Bool.eq_false_iff.mpr fun h => hl (hleaves.mpr h)
    exact ⟨hw, hs.isInOrderQueue.trans hq, hs.jobChain, hs.isOnBlacklist, hnodes⟩

/-- `move_to_node` to another node. The order leaves its queue first, so that `K`,
    which need not know that it stands right there, is enough. -/
theorem moveAway_spec {μ' : Mode} {K : World → Prop} (CK : Closed μ' o K) (C : Closed μ o I)
    (hout : ∀ w, K w → (w.order o).isInOrderQueue = false → I w) (target : Option NodeRef) :
    Triple (fun w => K w ∧ target ≠ (w.order o).jobChainNode ∧ (w.order o).jobChain.isSome = true
        ∧ MayMove μ o target w) (moveToNode o target) (fun _ => I) fun _ => I := by
  refine Triple.at_state fun w hpre => ?_
  obtain ⟨hK, hother, hsome, hmay⟩ := hpre
  have hp := CK.placed w hK o
  refine Triple.get_bind_at ?_
  refine Triple.bind (Q := fun _ s => s = w) (Triple.require (fun _ _ h => h) ?_) fun _ => ?_
  · rintro hnone _ -
    rw [hsome] at hnone
    cases hnone
  refine Triple.bind (Q := fun _ s => K s ∧ Same (w.order o) (s.order o)
      ∧ ∀ c, (s.chain c).nodes = (w.chain c).nodes)
    (Triple.onlyIf (fun _ => Triple.modify ?_) fun _ => ?_) fun _ => ?_
  · rintro _ rfl
    refine ⟨CK.move _ _ hK (.write _ (.of_eq rfl) fun _ => rfl), ?_, fun _ => rfl⟩
    rw [World.setOrder_order_self]
    exact .of_eq rfl
  · rintro _ rfl
    exact ⟨hK, Same.refl _, fun _ => rfl⟩
  refine Triple.bind (leaveQueue_spec CK w ?_) fun _ => ?_
  · constructor
    · exact fun h => h.2.2
    · intro hq
      obtain ⟨n, hn, -⟩ := hp.queued.mp hq
      exact ⟨hother, by rw [hn]; rfl, hq⟩
  -- the node is written, then the order is inserted: one move
  rintro s ⟨hKs, hq, hc, hb, hnodes⟩
  have hs : I s := hout s hKs hq
  obtain ⟨f, hrun, hf⟩ := setJobChainNode_unqueued (w := s) hq target
  cases target with
  | none =>
      simp only [bind_run, hrun]
      exact C.move s _ hs (.settle none f hq nofun hf)
  | some n =>
      obtain ⟨hcn, hmem⟩ := hmay.ofChain n rfl
      have hmem' : n.node ∈ (s.chain n.chain).nodes := (hnodes n.chain).symm ▸ hmem
      cases hty : n.node.type.isOrderQueue with
      | false =>
          simp only [bind_run, hrun, Exec.onlyIf, hty, hother]
          refine C.move s _ hs (.settle (some n) f hq ?_ hf)
          intro m hm
          obtain rfl := Option.some.inj hm
          exact ⟨hc.trans hcn, hmem', hty⟩
      | true =>
          obtain ⟨he, ha⟩ := hmay.arriving hother n rfl hty
          simp only [bind_run, hrun, Exec.onlyIf, hty, hother]
          exact C.move s _ hs (.arrive n f he hq (hc.trans hcn) hmem' hty
            (fun h => hb.trans (ha h)) hf)

/-- `move_to_node`. -/
theorem moveToNode_spec (C : Closed μ o I) (target : Option NodeRef) :
    Triple (fun w => I w ∧ MayMove μ o target w) (moveToNode o target) (fun _ => I)
      fun _ => I := by
  refine Triple.at_state fun w hpre => ?_
  obtain ⟨hw, hmay⟩ := hpre
  by_cases hsame : target = (w.order o).jobChainNode
  · -- it stays in its queue
    refine Triple.get_bind_at ?_
    refine Triple.bind (Q := fun _ s => s = w)
      (Triple.require (fun _ _ h => h) fun _ _ h => h ▸ hw) fun _ => ?_
    refine Triple.bind (Q := fun _ s => I s ∧ (s.order o).jobChainNode = target)
      (Triple.onlyIf (fun _ => Triple.modify ?_) fun _ => ?_) fun _ => ?_
    · rintro _ rfl
      refine ⟨C.move _ _ hw (.write _ (.of_eq rfl) fun _ => rfl), ?_⟩
      rw [World.setOrder_order_self]
      exact hsame.symm
    · rintro _ rfl
      exact ⟨hw, hsame.symm⟩
    refine Triple.bind (Q := fun _ s => I s ∧ (s.order o).jobChainNode = target)
      (Triple.onlyIf (fun h => absurd hsame h.1) fun _ _ h => h) fun _ => ?_
    refine (setJobChainNode_same C target).bind fun _ => ?_
    cases target with
    | none => exact Triple.pure fun _ h => h
    | some n => exact Triple.onlyIf (fun h => absurd hsame h.1) fun _ _ h => h
  · rintro w' rfl
    by_cases hsome : (w'.order o).jobChain.isSome = true
    · exact moveAway_spec C C (fun _ h _ => h) target w' ⟨hw, hsame, hsome, hmay⟩
    · simp only [moveToNode, bind_run, get_run, require_run, hsome]
      exact hw

/-! ## Getting into a job chain -/

theorem registerOrder_run (hfree : (w.chain c).orderMap.lookup (w.order o).id = none)
    (hid : ∀ x, (f x).id = x.id) :
    registerOrder c o (w.setOrder o f) = (.ok (), register w c o f) := by
  have hnone : ((w.setOrder o f).chain c).orderOrNull (w.order o).id = none := hfree
  simp only [registerOrder, bind_run, get_run, require_run, hnone, Option.isNone_none, if_true,
    modify_run, World.setOrder_order_self, hid]
  rfl

theorem free_of_chainWithOrderId {id : String} (h : chainWithOrderId w c id = none) :
    (w.chain c).orderMap.lookup id = none := by
  have hc := List.find?_eq_none.mp h c (List.mem_cons_self ..)
  simpa [Chain.orderOrNull] using hc

/-- The last part of `Job_chain::add_order`, which does not fail. -/
theorem enter_run (C : Closed μ o I) (hw : I w) (he : μ.entering) {node : Node} (path : String)
    (hnone : (w.order o).jobChain = none)
    (ht : μ.counted → (w.order o).isTouchedInCurrentJobChain = false)
    (hfree : (w.chain c).orderMap.lookup (w.order o).id = none)
    (hmem : node ∈ (w.chain c).nodes) :
    ∃ w', (do
        write o fun x =>
          { x with jobChain := some c, jobChainPath := path, removedFromJobChainPath := "" }
        registerOrder c o
        if (w.order o).isOnBlacklist = true then setOnBlacklist o
        else if node.type.isOrderQueue = true then do
          write o fun x => { x with jobChainNode := some ⟨c, node⟩ }
          addOrder ⟨c, node⟩ o
        else setOnBlacklist o : Method Unit) w = (.ok (), w') ∧ I w' := by
  have hq := ((C.placed w hw o).unqueued_of_unplaced hnone).2
  generalize hf : (fun x : Order =>
    { x with jobChain := some c, jobChainPath := path, removedFromJobChainPath := "" }) = f
  have hsame : Same { w.order o with jobChain := some c } (f (w.order o)) := by
    rw [← hf]
    exact .of_eq rfl
  have hreg := registerOrder_run (f := f) hfree fun x => by rw [← hf]
  have hord : (register w c o f).order o = f (w.order o) := register_order_self
  have hc : ((register w c o f).order o).jobChain = some c := hord ▸ hsame.jobChain
  have hb : ((register w c o f).order o).isOnBlacklist = (w.order o).isOnBlacklist :=
    hord ▸ hsame.isOnBlacklist
  have hq₁ : ((register w c o f).order o).isInOrderQueue = false :=
    hord ▸ hsame.isInOrderQueue.trans hq
  have hmem₁ : node ∈ ((register w c o f).chain c).nodes :=
    ((moves_register (f := f) hfree).nodes c).symm ▸ hmem
  simp only [bind_run, write, modify_run, hreg]
  cases hbl : (w.order o).isOnBlacklist with
  | true =>
      refine ⟨blacklist (register w c o f) c o, setOnBlacklist_run hc, ?_⟩
      exact C.move w _ hw (.registerBlacklisted c f he hnone hfree ht hsame)
  | false =>
      have hw₁ : I (register w c o f) :=
        C.move w _ hw (.register c f he hnone hbl hfree ht hsame)
      cases hty : node.type.isOrderQueue with
      | true =>
          refine ⟨enqueue ((register w c o f).setOrder o fun x =>
            { x with jobChainNode := some ⟨c, node⟩ }) ⟨c, node⟩ o, rfl, ?_⟩
          exact C.move _ _ hw₁ (.arrive ⟨c, node⟩ _ he hq₁ hc hmem₁ hty (fun _ => hb.trans hbl)
            (.of_eq rfl))
      | false =>
          refine ⟨blacklist (register w c o f) c o, setOnBlacklist_run hc, ?_⟩
          exact C.move _ _ hw₁ (.blacklist c hc fun _ => hq₁)

/-- `Job_chain::add_order`. Nothing fails once the order is registered; so it is
    enough that the last moves keep `I₂`. -/
theorem addToJobChain_spec {μ₂ : Mode} {I₂ : World → Prop} (C : Closed μ o I)
    (C₂ : Closed μ₂ o I₂) (hI : ∀ w, I w → I₂ w) (he : μ₂.entering) (c : ChainRef) :
    Triple (fun w => I w ∧ (w.order o).jobChain = none
        ∧ (μ₂.counted → (w.order o).isTouchedInCurrentJobChain = false))
      (addToJobChain c o) (fun _ => I₂) fun _ => I := by
  refine Triple.at_state fun w hpre => Triple.get_bind_at ?_
  obtain ⟨hw, hnone, ht⟩ := hpre
  cases hfree : chainWithOrderId w c (w.order o).id with
  | some d =>
      rintro _ rfl
      exact hw
  | none =>
      refine Triple.bind (Q := fun node s => s = w
        ∧ (w.chain c).referencedNodeFromState (w.order o).state = .ok node)
        (Triple.ofExcept (fun _ hn _ h => ⟨h, hn⟩) fun _ _ _ h => h ▸ hw) fun node => ?_
      refine Triple.at_state fun w' hpre => ?_
      obtain ⟨rfl, hn⟩ := hpre
      refine Triple.bind (Q := fun _ s => I s ∧ Same (w'.order o) (s.order o) ∧ s.chain = w'.chain)
        (Triple.onlyIf (fun _ => Triple.modify ?_) ?_) fun _ => ?_
      · rintro w rfl
        refine ⟨keeps_setState2 C _ w hw, ?_, rfl⟩
        rw [World.setOrder_order_self]
        exact .of_eq (members_setState2 _ _)
      · rintro - w rfl
        exact ⟨hw, Same.refl _, rfl⟩
      refine Triple.at_state fun w hpre => Triple.get_bind_at ?_
      obtain ⟨hw₁, hsame, hchain⟩ := hpre
      refine Triple.bind (Q := fun _ s => s = w)
        (Triple.require (fun _ _ h => h) fun _ _ h => h ▸ hw₁) fun _ => ?_
      rintro w₁ rfl
      have hmem : node ∈ (w₁.chain c).nodes := by
        rw [hchain]
        exact (mem_of_referencedNodeFromState hn).1
      have hfree₁ : (w₁.chain c).orderMap.lookup (w₁.order o).id = none := by
        rw [hchain, hsame.id]
        exact free_of_chainWithOrderId hfree
      have ht₁ : μ₂.counted → (w₁.order o).isTouchedInCurrentJobChain = false := fun hk =>
        Bool.eq_false_iff.mpr fun h => Bool.eq_false_iff.mp (ht hk) (hsame.touchedInCurrent h)
      obtain ⟨w₂, hrun, hw₂⟩ := enter_run C₂ (hI _ hw₁) he (w₁.chain c).path
        (hsame.jobChain.trans hnone) ht₁ hfree₁ hmem
      rw [hrun]
      exact hw₂

end OrderMethods
