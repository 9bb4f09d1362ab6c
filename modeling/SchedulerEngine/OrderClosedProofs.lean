import SchedulerEngine.OrderMoveProofs
import SchedulerEngine.OrderPlacementProofs

/-! # What the methods of an order do to it

    Every method that works on one order is a sequence of elementary moves of
    that order, and each of them is made under conditions.  `Move` says what one
    move can do.  A predicate that all moves keep is `Closed`, and a method keeps
    every closed predicate.  A `Mode` says which conditions the moves meet; what a
    method has to know before it depends on the mode. -/

namespace OrderClosed

open FileBased (Failure)
open Execution Execution.Exec JobChainNode OrderWorld OrderQueue OrderMove OrderPlacement

/-! ## Moves -/

/-- What is known about the moves that a method makes. -/
structure Mode where
  /-- Keys are only changed together with a new insertion. -/
  sorted : Prop
  /-- No order gets on a blacklist in a queue, or into a queue on a blacklist. -/
  apart : Prop
  /-- No order becomes touched in a job chain. -/
  counted : Prop
  /-- Orders may get into job chains and queues. -/
  entering : Prop
  /-- Orders may get another outer job chain. -/
  outer : Prop

/-- One move of the order `o` from the world `w`. -/
inductive Move (μ : Mode) (o : OrderRef) (w : World) : World → Prop
  /-- It is changed where it is. -/
  | write (f : Order → Order) (hf : Same (w.order o) (f (w.order o)))
      (hkey : μ.sorted → orderKey (f (w.order o)) = orderKey (w.order o)) :
      Move μ o w (w.setOrder o f)
  /-- It is changed and, if it is in a queue, inserted again. -/
  | rekey (f : Order → Order) (hf : Same (w.order o) (f (w.order o))) :
      Move μ o w (rekeyed w o f)
  /-- It leaves its queue and its node. -/
  | leave (n : NodeRef) (hq : (w.order o).isInOrderQueue = true)
      (hn : (w.order o).jobChainNode = some n) :
      Move μ o w ((dequeue w n o).setOrder o fun x => { x with jobChainNode := none })
  /-- It goes to no node, or to one without a queue. -/
  | settle (target : Option NodeRef) (f : Order → Order)
      (hq : (w.order o).isInOrderQueue = false)
      (ht : ∀ n, target = some n → (w.order o).jobChain = some n.chain ∧
        n.node ∈ (w.chain n.chain).nodes ∧ n.node.type.isOrderQueue = false)
      (hf : Same { w.order o with jobChainNode := target } (f (w.order o))) :
      Move μ o w (w.setOrder o f)
  /-- It goes to a node of its job chain and into its queue. -/
  | arrive (n : NodeRef) (f : Order → Order) (he : μ.entering)
      (hq : (w.order o).isInOrderQueue = false)
      (hc : (w.order o).jobChain = some n.chain) (hn : n.node ∈ (w.chain n.chain).nodes)
      (hty : n.node.type.isOrderQueue = true)
      (hb : μ.apart → (w.order o).isOnBlacklist = false)
      (hf : Same { w.order o with jobChainNode := some n } (f (w.order o))) :
      Move μ o w (enqueue (w.setOrder o f) n o)
  /-- It gets on the blacklist of its job chain. -/
  | blacklist (c : ChainRef) (hc : (w.order o).jobChain = some c)
      (hq : μ.apart → (w.order o).isInOrderQueue = false) :
      Move μ o w (blacklist w c o)
  /-- It gets off the blacklist of its job chain. -/
  | unblacklist (c : ChainRef) (hc : (w.order o).jobChain = some c) :
      Move μ o w (unblacklist w c o)
  /-- It gets into a job chain that has no order of its id. -/
  | register (c : ChainRef) (f : Order → Order) (he : μ.entering)
      (hnone : (w.order o).jobChain = none) (hb : (w.order o).isOnBlacklist = false)
      (hfree : (w.chain c).orderMap.lookup (w.order o).id = none)
      (ht : μ.counted → (w.order o).isTouchedInCurrentJobChain = false)
      (hf : Same { w.order o with jobChain := some c } (f (w.order o))) :
      Move μ o w (register w c o f)
  /-- It gets into a job chain that has no order of its id, and on its blacklist. -/
  | registerBlacklisted (c : ChainRef) (f : Order → Order) (he : μ.entering)
      (hnone : (w.order o).jobChain = none)
      (hfree : (w.chain c).orderMap.lookup (w.order o).id = none)
      (ht : μ.counted → (w.order o).isTouchedInCurrentJobChain = false)
      (hf : Same { w.order o with jobChain := some c } (f (w.order o))) :
      Move μ o w (OrderPlacement.blacklist (OrderPlacement.register w c o f) c o)
  /-- It leaves its job chain. -/
  | unregister (c : ChainRef) (hc : (w.order o).jobChain = some c)
      (hb : (w.order o).isOnBlacklist = false) (hn : (w.order o).jobChainNode = none) :
      Move μ o w (unregister w c o)
  /-- It gets another outer job chain. -/
  | reouter (path : String) (f : Order → Order) (ho : μ.outer)
      (hf : Same { w.order o with outerJobChainPath := path } (f (w.order o)))
      (hkey : orderKey (f (w.order o)) = orderKey (w.order o))
      (ht : (w.order o).jobChain = none ∨
        (μ.counted → (w.order o).isNestedTouched = false ∧ path ≠ "")) :
      Move μ o w (w.setOrder o f)

variable {μ μ' : Mode} {o p : OrderRef} {w w' : World} {I P : World → Prop} {x y : Order}

/-- A predicate on worlds in which all orders are placed, that every move keeps. -/
structure Closed (μ : Mode) (o : OrderRef) (I : World → Prop) : Prop where
  placed : ∀ w, I w → Placed w
  move : ∀ w w', I w → Move μ o w w' → I w'

/-- One more predicate that the moves keep. -/
theorem Closed.and (C : Closed μ o I)
    (hP : ∀ w w', Placed w → P w → Move μ o w w' → P w') :
    Closed μ o fun w => I w ∧ P w where
  placed w hw := C.placed w hw.1
  move w w' hw hm := ⟨C.move w w' hw.1 hm, hP w w' (C.placed w hw.1) hw.2 hm⟩

/-- A mode that knows more of its moves, or allows fewer of them. -/
structure Mode.Below (μ' μ : Mode) : Prop where
  sorted : μ.sorted → μ'.sorted
  apart : μ.apart → μ'.apart
  counted : μ.counted → μ'.counted
  entering : μ'.entering → μ.entering
  outer : μ'.outer → μ.outer

theorem Move.mono (h : μ'.Below μ) (hm : Move μ' o w w') : Move μ o w w' := by
  cases hm with
  | write f hf hkey => exact .write f hf fun hs => hkey (h.sorted hs)
  | rekey f hf => exact .rekey f hf
  | leave n hq hn => exact .leave n hq hn
  | settle t f hq ht hf => exact .settle t f hq ht hf
  | arrive n f he hq hc hn hty hb hf =>
      exact .arrive n f (h.entering he) hq hc hn hty (fun ha => hb (h.apart ha)) hf
  | blacklist c hc hq => exact .blacklist c hc fun ha => hq (h.apart ha)
  | unblacklist c hc => exact .unblacklist c hc
  | register c f he hnone hb hfree ht hf =>
      exact .register c f (h.entering he) hnone hb hfree (fun hk => ht (h.counted hk)) hf
  | registerBlacklisted c f he hnone hfree ht hf =>
      exact .registerBlacklisted c f (h.entering he) hnone hfree (fun hk => ht (h.counted hk)) hf
  | unregister c hc hb hn => exact .unregister c hc hb hn
  | reouter path f ho hf hkey ht =>
      exact .reouter path f (h.outer ho) hf hkey (ht.imp_right fun ht hk => ht (h.counted hk))

theorem Closed.mono (C : Closed μ o I) (h : μ'.Below μ) : Closed μ' o I where
  placed := C.placed
  move w w' hw hm := C.move w w' hw (hm.mono h)

/-- Orders stay placed. -/
theorem Move.placed (h : Placed w) (hm : Move μ o w w') : Placed w' := by
  cases hm with
  | write f hf hkey => exact h.same hf.toSamePlace
  | rekey f hf => exact h.rekeyed hf.toSamePlace
  | leave n hq hn => exact h.leave hq hn
  | settle t f hq ht hf => exact h.settle hq ht hf.toSamePlace
  | arrive n f he hq hc hn hty hb hf => exact h.arrive hq hc hn hty hf.toSamePlace
  | blacklist c hc hq => exact h.blacklist hc
  | unblacklist c hc => exact h.unblacklist hc
  | register c f he hnone hb hfree ht hf => exact h.register hnone hb hfree hf.toSamePlace
  | registerBlacklisted c f he hnone hfree ht hf =>
      exact h.registerBlacklisted hnone hfree hf.toSamePlace
  | unregister c hc hb hn => exact h.unregister hc hb hn
  | reouter path f ho hf hkey ht =>
      exact h.same ⟨hf.id, hf.jobChain, hf.jobChainNode, hf.isInOrderQueue, hf.isOnBlacklist⟩

theorem closed_placed (μ : Mode) (o : OrderRef) : Closed μ o Placed where
  placed _ hw := hw
  move _ _ hw hm := hm.placed hw

/-- A move leaves the other orders and the node lists alone. -/
theorem Move.moves (h : Placed w) (hm : Move μ o w w') : Moves o w w' := by
  cases hm with
  | write f hf hkey => exact moves_setOrder w o f
  | rekey f hf => exact moves_rekeyed w o f
  | leave n hq hn => exact (moves_dequeue w n o).trans (moves_setOrder _ o _)
  | settle t f hq ht hf => exact moves_setOrder w o f
  | arrive n f he hq hc hn hty hb hf =>
      exact (moves_setOrder w o f).trans (moves_enqueue _ n o)
  | blacklist c hc hq => exact moves_blacklist h hc
  | unblacklist c hc => exact moves_unblacklist h hc
  | register c f he hnone hb hfree ht hf => exact moves_register hfree
  | registerBlacklisted c f he hnone hfree ht hf =>
      exact moves_registerBlacklisted h hfree hf.toSamePlace
  | unregister c hc hb hn => exact moves_unregister h hc
  | reouter path f ho hf hkey ht => exact moves_setOrder w o f

/-- What a move keeps of the order itself. -/
structure Keeping (μ : Mode) (x y : Order) : Prop where
  id : y.id = x.id
  ignoreMaxOrders : y.ignoreMaxOrders = x.ignoreMaxOrders
  isTouched : y.isTouched = true → x.isTouched = true
  isNestedTouched : y.isNestedTouched = true → x.isNestedTouched = true
  outerJobChainPath : ¬μ.outer → y.outerJobChainPath = x.outerJobChainPath
  unplaced : ¬μ.entering → x.jobChain = none → y.jobChain = none

theorem Keeping.of_same (h : Same x y) : Keeping μ x y where
  id := h.id
  ignoreMaxOrders := h.ignoreMaxOrders
  isTouched := h.isTouched
  isNestedTouched := h.isNestedTouched
  outerJobChainPath _ := h.outerJobChainPath
  unplaced _ hc := h.jobChain.trans hc

theorem Move.keeping (h : Placed w) (hm : Move μ o w w') :
    Keeping μ (w.order o) (w'.order o) := by
  cases hm with
  | write f hf hkey =>
      rw [World.setOrder_order_self]
      exact .of_same hf
  | rekey f hf =>
      rw [rekeyed_order_self (h o) hf.toSamePlace]
      exact .of_same hf
  | leave n hq hn =>
      rw [World.setOrder_order_self, dequeue_order_self]
      exact ⟨rfl, rfl, fun h => h, fun h => h, fun _ => rfl, fun _ hc => hc⟩
  | settle t f hq ht hf =>
      rw [World.setOrder_order_self]
      exact ⟨hf.id, hf.ignoreMaxOrders, hf.isTouched, hf.isNestedTouched,
        fun _ => hf.outerJobChainPath, fun _ hc => hf.jobChain.trans hc⟩
  | arrive n f he hq hc hn hty hb hf =>
      rw [enqueue_order_self, World.setOrder_order_self]
      exact ⟨hf.id, hf.ignoreMaxOrders, hf.isTouched, hf.isNestedTouched,
        fun _ => hf.outerJobChainPath, fun hne => absurd he hne⟩
  | blacklist c hc hq =>
      rw [blacklist_order_self]
      exact ⟨rfl, rfl, fun h => h, fun h => h, fun _ => rfl, fun _ hc => hc⟩
  | unblacklist c hc =>
      rw [unblacklist_order_self]
      exact ⟨rfl, rfl, fun h => h, fun h => h, fun _ => rfl, fun _ hc => hc⟩
  | register c f he hnone hb hfree ht hf =>
      rw [register_order_self]
      exact ⟨hf.id, hf.ignoreMaxOrders, hf.isTouched, hf.isNestedTouched,
        fun _ => hf.outerJobChainPath, fun hne => absurd he hne⟩
  | registerBlacklisted c f he hnone hfree ht hf =>
      rw [blacklist_order_self, register_order_self]
      exact ⟨hf.id, hf.ignoreMaxOrders, hf.isTouched, hf.isNestedTouched,
        fun _ => hf.outerJobChainPath, fun hne => absurd he hne⟩
  | unregister c hc hb hn =>
      rw [unregister_order_self]
      exact ⟨rfl, rfl, fun h => h, fun h => h, fun _ => rfl, fun _ _ => rfl⟩
  | reouter path f ho hf hkey ht =>
      rw [World.setOrder_order_self]
      exact ⟨hf.id, hf.ignoreMaxOrders, hf.isTouched, hf.isNestedTouched,
        fun hne => absurd ho hne, fun _ hc => hf.jobChain.trans hc⟩

/-! ## Members that moves keep -/

theorem Closed.isTouched (C : Closed μ o I) :
    Closed μ o fun w => I w ∧ (w.order o).isTouched = false :=
  C.and fun _ _ h ht hm => Bool.eq_false_iff.mpr fun hf =>
    Bool.eq_false_iff.mp ht ((hm.keeping h).isTouched hf)

theorem Closed.isNestedTouched (C : Closed μ o I) :
    Closed μ o fun w => I w ∧ (w.order o).isNestedTouched = false :=
  C.and fun _ _ h ht hm => Bool.eq_false_iff.mpr fun hf =>
    Bool.eq_false_iff.mp ht ((hm.keeping h).isNestedTouched hf)

theorem Closed.outerJobChainPath (C : Closed μ o I) (ho : ¬μ.outer) (path : String) :
    Closed μ o fun w => I w ∧ (w.order o).outerJobChainPath = path :=
  C.and fun _ _ h hp hm => ((hm.keeping h).outerJobChainPath ho).trans hp

theorem Closed.unplaced (C : Closed μ o I) (he : ¬μ.entering) :
    Closed μ o fun w => I w ∧ (w.order o).jobChain = none :=
  C.and fun _ _ h hp hm => (hm.keeping h).unplaced he hp

/-- The other orders, and what the job chains are without their orders. -/
theorem Closed.frame (C : Closed μ o I) (w₀ : World) :
    Closed μ o fun w => I w ∧ (∀ p, p ≠ o → w.order p = w₀.order p)
      ∧ ∀ c, (w.chain c).toJobChain = (w₀.chain c).toJobChain :=
  C.and fun _ _ h hp hm =>
    ⟨fun p hpo => ((hm.moves h).order p hpo).trans (hp.1 p hpo),
      fun c => ((hm.moves h).jobChain c).trans (hp.2 c)⟩

end OrderClosed
