import SchedulerEngine.OrderQueueProofs

/-! # Where an order is

    What the maps of the job chains, the queues of the nodes and the members of
    the orders say about where an order is agrees: `Placed`.  Here are the
    elementary moves of one order, as functions of the world, and that each of
    them keeps the agreement. -/

set_option linter.unusedSectionVars false

namespace OrderPlacement

open JobChainNode OrderWorld OrderQueue

/-- The order stands in the queue of the node with state `s` of job chain `c`. -/
def inQueueOf (x : Order) (c : ChainRef) (s : String) : Bool :=
  x.isInOrderQueue && (match x.jobChainNode with
    | some n => n.chain = c && n.node.orderState = s
    | none => false)

/-- The maps, the queues and the members of one order agree about where it is. -/
structure PlacedAt (w : World) (o : OrderRef) : Prop where
  /-- The order is in a job chain iff its `_order_map` has it under its id. -/
  inMap : ∀ c id, (w.chain c).orderMap.lookup id = some o ↔
    (w.order o).jobChain = some c ∧ (w.order o).id = id
  /-- It is on the blacklist of its job chain iff the `_blacklist_map` has it. -/
  onBlacklist : ∀ c id, (w.chain c).blacklistMap.lookup id = some o ↔
    (w.order o).jobChain = some c ∧ (w.order o).id = id ∧ (w.order o).isOnBlacklist = true
  /-- It stands once in the queue of its node and in no other queue. -/
  inQueue : ∀ c s, ((w.chain c).queue s).count o
    = if inQueueOf (w.order o) c s = true then 1 else 0
  /-- Its node is a node of its job chain. -/
  nodeOfChain : ∀ n, (w.order o).jobChainNode = some n →
    (w.order o).jobChain = some n.chain ∧ n.node ∈ (w.chain n.chain).nodes
  /-- It is in a queue iff its node has one. -/
  queued : (w.order o).isInOrderQueue = true ↔
    ∃ n, (w.order o).jobChainNode = some n ∧ n.node.type.isOrderQueue = true

/-- All orders are placed. -/
def Placed (w : World) : Prop := ∀ o, PlacedAt w o

variable {w w' : World} {o p : OrderRef} {c d : ChainRef} {n m : NodeRef} {x y z : Order}
  {f : Order → Order} {target : Option NodeRef} {id : String}

/-! ## Changes of one order -/

/-- `y` is at the same place as `x`. -/
structure SamePlace (x y : Order) : Prop where
  id : y.id = x.id
  jobChain : y.jobChain = x.jobChain
  jobChainNode : y.jobChainNode = x.jobChainNode
  isInOrderQueue : y.isInOrderQueue = x.isInOrderQueue
  isOnBlacklist : y.isOnBlacklist = x.isOnBlacklist

/-- `y` is `x` with other keys and other members that no queue, map or limit looks
    at: it is at the same place, and not more touched. -/
structure Same (x y : Order) : Prop extends SamePlace x y where
  outerJobChainPath : y.outerJobChainPath = x.outerJobChainPath
  ignoreMaxOrders : y.ignoreMaxOrders = x.ignoreMaxOrders
  isTouched : y.isTouched = true → x.isTouched = true
  isNestedTouched : y.isNestedTouched = true → x.isNestedTouched = true

/-- The members that `Same` is about. -/
def members (x : Order) : String × Option ChainRef × Option NodeRef × Bool × Bool × String ×
    Bool × Bool × Bool :=
  (x.id, x.jobChain, x.jobChainNode, x.isInOrderQueue, x.isOnBlacklist, x.outerJobChainPath,
    x.ignoreMaxOrders, x.isTouched, x.isNestedTouched)

theorem Same.of_eq (h : members y = members x) : Same x y := by
  simp only [members, Prod.mk.injEq] at h
  obtain ⟨hid, hc, hn, hq, hb, hp, hi, ht, hnt⟩ := h
  exact ⟨⟨hid, hc, hn, hq, hb⟩, hp, hi, fun h => ht ▸ h, fun h => hnt ▸ h⟩

theorem Same.refl (x : Order) : Same x x := Same.of_eq rfl

theorem Same.trans (h : Same x y) (h' : Same y z) : Same x z where
  id := h'.id.trans h.id
  jobChain := h'.jobChain.trans h.jobChain
  jobChainNode := h'.jobChainNode.trans h.jobChainNode
  isInOrderQueue := h'.isInOrderQueue.trans h.isInOrderQueue
  isOnBlacklist := h'.isOnBlacklist.trans h.isOnBlacklist
  outerJobChainPath := h'.outerJobChainPath.trans h.outerJobChainPath
  ignoreMaxOrders := h'.ignoreMaxOrders.trans h.ignoreMaxOrders
  isTouched ht := h.isTouched (h'.isTouched ht)
  isNestedTouched ht := h.isNestedTouched (h'.isNestedTouched ht)

/-- What is the same is not more touched in its current job chain. -/
theorem Same.touchedInCurrent (h : Same x y) (ht : y.isTouchedInCurrentJobChain = true) :
    x.isTouchedInCurrentJobChain = true := by
  simp only [Order.isTouchedInCurrentJobChain, h.outerJobChainPath] at ht ⊢
  by_cases ho : x.outerJobChainPath = ""
  · rw [if_pos ho] at ht ⊢
    exact h.isTouched ht
  · rw [if_neg ho] at ht ⊢
    exact h.isNestedTouched ht

/-! ## The elementary moves -/

/-- Take an order out of the queue of its node, which it then leaves. -/
def dequeue (w : World) (n : NodeRef) (o : OrderRef) : World :=
  (w.setQueue n fun q => q.erase o).setOrder o fun x => { x with isInOrderQueue := false }

/-- Insert an order into the queue of a node. -/
def enqueue (w : World) (n : NodeRef) (o : OrderRef) : World :=
  (w.setQueue n (insertOrder w.order o)).setOrder o fun x => { x with isInOrderQueue := true }

/-- Change an order where it is, and insert it again if it is in a queue. -/
def rekeyed (w : World) (o : OrderRef) (f : Order → Order) : World :=
  match (w.order o).isInOrderQueue, (w.order o).jobChainNode with
  | true, some n => enqueue (dequeue (w.setOrder o f) n o) n o
  | _, _ => w.setOrder o f

/-- Put an order into the `_order_map` of a job chain. -/
def register (w : World) (c : ChainRef) (o : OrderRef) (f : Order → Order) : World :=
  (w.setOrder o f).setChain c fun ch => { ch with orderMap := ch.orderMap.insert (w.order o).id o }

/-- Take an order out of the `_order_map` of a job chain. -/
def unregister (w : World) (c : ChainRef) (o : OrderRef) : World :=
  (w.setOrder o fun x => { x with jobChain := none, jobChainPath := "" }).setChain c fun ch =>
    { ch with orderMap := ch.orderMap.erase (w.order o).id }

/-- Put an order on the blacklist of a job chain. -/
def blacklist (w : World) (c : ChainRef) (o : OrderRef) : World :=
  (w.setChain c fun ch =>
    { ch with blacklistMap := ch.blacklistMap.insert (w.order o).id o }).setOrder o fun x =>
      { x with isOnBlacklist := true }

/-- Take an order off the blacklist of a job chain. -/
def unblacklist (w : World) (c : ChainRef) (o : OrderRef) : World :=
  (w.setChain c fun ch =>
    { ch with blacklistMap := ch.blacklistMap.erase (w.order o).id }).setOrder o fun x =>
      { x with isOnBlacklist := false }

@[simp] theorem dequeue_order_self :
    (dequeue w n o).order o = { w.order o with isInOrderQueue := false } :=
  Function.update_self ..

@[simp] theorem enqueue_order_self :
    (enqueue w n o).order o = { w.order o with isInOrderQueue := true } :=
  Function.update_self ..

@[simp] theorem register_order_self : (register w c o f).order o = f (w.order o) :=
  Function.update_self ..

@[simp] theorem unregister_order_self :
    (unregister w c o).order o = { w.order o with jobChain := none, jobChainPath := "" } :=
  Function.update_self ..

@[simp] theorem blacklist_order_self :
    (blacklist w c o).order o = { w.order o with isOnBlacklist := true } :=
  Function.update_self ..

@[simp] theorem unblacklist_order_self :
    (unblacklist w c o).order o = { w.order o with isOnBlacklist := false } :=
  Function.update_self ..

theorem rekeyed_of_queued (hq : (w.order o).isInOrderQueue = true)
    (hn : (w.order o).jobChainNode = some n) :
    rekeyed w o f = enqueue (dequeue (w.setOrder o f) n o) n o := by
  simp only [rekeyed, hq, hn]

theorem rekeyed_of_not_queued (hq : (w.order o).isInOrderQueue = false) :
    rekeyed w o f = w.setOrder o f := by
  simp only [rekeyed, hq]

/-! ## What a move leaves alone -/

/-- A move of `o`: the other orders, their entries in maps and queues, and the
    nodes of the job chains stay as they are. -/
structure Moves (o : OrderRef) (w w' : World) : Prop where
  order : ∀ p, p ≠ o → w'.order p = w.order p
  jobChain : ∀ c, (w'.chain c).toJobChain = (w.chain c).toJobChain
  inMap : ∀ p, p ≠ o → ∀ c id, (w'.chain c).orderMap.lookup id = some p ↔
    (w.chain c).orderMap.lookup id = some p
  onBlacklist : ∀ p, p ≠ o → ∀ c id, (w'.chain c).blacklistMap.lookup id = some p ↔
    (w.chain c).blacklistMap.lookup id = some p
  inQueue : ∀ p, p ≠ o → ∀ c s,
    ((w'.chain c).queue s).count p = ((w.chain c).queue s).count p

theorem Moves.trans {u v w : World} (h : Moves o u v) (h' : Moves o v w) :
    Moves o u w where
  order p hp := (h'.order p hp).trans (h.order p hp)
  jobChain c := (h'.jobChain c).trans (h.jobChain c)
  inMap p hp c id := (h'.inMap p hp c id).trans (h.inMap p hp c id)
  onBlacklist p hp c id := (h'.onBlacklist p hp c id).trans (h.onBlacklist p hp c id)
  inQueue p hp c s := (h'.inQueue p hp c s).trans (h.inQueue p hp c s)

theorem Moves.nodes (h : Moves o w w') (c : ChainRef) :
    (w'.chain c).nodes = (w.chain c).nodes := by
  rw [h.jobChain c]

/-- The other orders stay placed. -/
theorem Moves.others (h : Moves o w w') (hp : p ≠ o) (hw : PlacedAt w p) : PlacedAt w' p where
  inMap c id := by
    rw [h.inMap p hp, h.order p hp]
    exact hw.inMap c id
  onBlacklist c id := by
    rw [h.onBlacklist p hp, h.order p hp]
    exact hw.onBlacklist c id
  inQueue c s := by
    rw [h.inQueue p hp, h.order p hp]
    exact hw.inQueue c s
  nodeOfChain n hn := by
    rw [h.order p hp] at hn ⊢
    rw [h.nodes]
    exact hw.nodeOfChain n hn
  queued := by
    rw [h.order p hp]
    exact hw.queued

/-- After a move of `o` all orders are placed if `o` is. -/
theorem Placed.moves (h : Placed w) (hm : Moves o w w') (ho : PlacedAt w' o) : Placed w' := by
  intro p
  by_cases hp : p = o
  · rw [hp]
    exact ho
  · exact hm.others hp (h p)

theorem moves_setOrder (w : World) (o : OrderRef) (f : Order → Order) :
    Moves o w (w.setOrder o f) where
  order _ hp := World.setOrder_order_of_ne hp
  jobChain _ := rfl
  inMap _ _ _ _ := Iff.rfl
  onBlacklist _ _ _ _ := Iff.rfl
  inQueue _ _ _ _ := rfl

/-- Changing one job chain: what has to be shown of the chain it becomes. -/
theorem moves_setChain {g : Chain → Chain}
    (hj : (g (w.chain c)).toJobChain = (w.chain c).toJobChain)
    (hmap : ∀ p, p ≠ o → ∀ id, (g (w.chain c)).orderMap.lookup id = some p ↔
      (w.chain c).orderMap.lookup id = some p)
    (hbl : ∀ p, p ≠ o → ∀ id, (g (w.chain c)).blacklistMap.lookup id = some p ↔
      (w.chain c).blacklistMap.lookup id = some p)
    (hq : ∀ p, p ≠ o → ∀ s, ((g (w.chain c)).queue s).count p = ((w.chain c).queue s).count p) :
    Moves o w (w.setChain c g) := by
  have hchain : ∀ d, (w.setChain c g).chain d = if d = c then g (w.chain c) else w.chain d := by
    intro d
    by_cases hd : d = c
    · rw [if_pos hd, hd, World.setChain_chain_self]
    · rw [if_neg hd, World.setChain_chain_of_ne hd]
  refine ⟨fun _ _ => rfl, fun d => ?_, fun p hp d id => ?_, fun p hp d id => ?_,
    fun p hp d s => ?_⟩
  all_goals
    rw [hchain d]
    by_cases hd : d = c
    · rw [if_pos hd, hd]
      first | exact hj | exact hmap p hp id | exact hbl p hp id | exact hq p hp s
    · rw [if_neg hd]

theorem moves_setQueue {q : List OrderRef → List OrderRef}
    (hq : ∀ p, p ≠ o → (q (w.queue n)).count p = (w.queue n).count p) :
    Moves o w (w.setQueue n q) := by
  refine moves_setChain rfl (fun _ _ _ => Iff.rfl) (fun _ _ _ => Iff.rfl) fun p hp s => ?_
  show (Function.update (w.chain n.chain).queue n.node.orderState _ s).count p = _
  by_cases hs : s = n.node.orderState
  · rw [hs, Function.update_self]
    exact hq p hp
  · rw [Function.update_of_ne hs]

/-- Inserting an order adds it once. -/
theorem count_insertOrder (order : OrderRef → Order) (o p : OrderRef) (l : List OrderRef) :
    (insertOrder order o l).count p = (o :: l).count p := by
  rw [insertOrder_eq]
  exact (SortedInsert.insertByKey_perm _ o l).count_eq p

theorem moves_dequeue (w : World) (n : NodeRef) (o : OrderRef) : Moves o w (dequeue w n o) :=
  (moves_setQueue fun _ hp => List.count_erase_of_ne hp).trans (moves_setOrder _ o _)

theorem moves_enqueue (w : World) (n : NodeRef) (o : OrderRef) : Moves o w (enqueue w n o) := by
  refine (moves_setQueue fun p hp => ?_).trans (moves_setOrder _ o _)
  rw [count_insertOrder, List.count_cons_of_ne hp.symm]

theorem moves_rekeyed (w : World) (o : OrderRef) (f : Order → Order) :
    Moves o w (rekeyed w o f) := by
  cases hq : (w.order o).isInOrderQueue with
  | false =>
      rw [rekeyed_of_not_queued hq]
      exact moves_setOrder w o f
  | true =>
      cases hn : (w.order o).jobChainNode with
      | none =>
          simp only [rekeyed, hq, hn]
          exact moves_setOrder w o f
      | some n =>
          rw [rekeyed_of_queued hq hn]
          exact ((moves_setOrder w o f).trans (moves_dequeue _ n o)).trans (moves_enqueue _ n o)

/-- An insertion into a map under a key that is free, or `o`'s already. -/
theorem lookup_insert_other {map : AList fun _ : String => OrderRef} {key : String}
    (hkey : ∀ p, map.lookup key = some p → p = o) (hp : p ≠ o) :
    (map.insert key o).lookup id = some p ↔ map.lookup id = some p := by
  by_cases hid : id = key
  · subst hid
    rw [AList.lookup_insert]
    constructor
    · intro h
      exact absurd (Option.some.inj h).symm hp
    · intro h
      exact absurd (hkey p h) hp
  · rw [AList.lookup_insert_ne hid]

/-- Erasing the key of `o` leaves the other orders in the map. -/
theorem lookup_erase_other {map : AList fun _ : String => OrderRef} {key : String}
    (hkey : ∀ p, map.lookup key = some p → p = o) (hp : p ≠ o) :
    (map.erase key).lookup id = some p ↔ map.lookup id = some p := by
  by_cases hid : id = key
  · subst hid
    rw [AList.lookup_erase]
    constructor
    · intro h
      cases h
    · intro h
      exact absurd (hkey p h) hp
  · rw [AList.lookup_erase_ne hid]

/-! ## Moves keep orders placed -/

theorem PlacedAt.unqueued_of_unplaced (h : PlacedAt w o) (hc : (w.order o).jobChain = none) :
    (w.order o).jobChainNode = none ∧ (w.order o).isInOrderQueue = false := by
  have hn : (w.order o).jobChainNode = none := by
    cases hn : (w.order o).jobChainNode with
    | none => rfl
    | some n =>
        have := (h.nodeOfChain n hn).1
        rw [hc] at this
        cases this
  refine ⟨hn, ?_⟩
  cases hq : (w.order o).isInOrderQueue with
  | false => rfl
  | true =>
      obtain ⟨n, hn', -⟩ := h.queued.mp hq
      rw [hn] at hn'
      cases hn'

theorem inQueueOf_of_not_queued {s : String} (h : x.isInOrderQueue = false) :
    inQueueOf x c s = false := by
  simp only [inQueueOf, h, Bool.false_and]

theorem inQueueOf_iff {s : String} (hq : x.isInOrderQueue = true)
    (hn : x.jobChainNode = some n) :
    inQueueOf x c s = true ↔ n.chain = c ∧ n.node.orderState = s := by
  simp [inQueueOf, hq, hn]

theorem SamePlace.inQueueOf {s : String} (h : SamePlace x y) : inQueueOf y c s = inQueueOf x c s := by
  simp only [OrderPlacement.inQueueOf, h.isInOrderQueue, h.jobChainNode]

/-- A queue that the order is not in has no entry of it. -/
theorem PlacedAt.count_zero {s : String} (h : PlacedAt w o)
    (hq : (w.order o).isInOrderQueue = false) : ((w.chain c).queue s).count o = 0 := by
  rw [h.inQueue, inQueueOf_of_not_queued hq]
  rfl

theorem PlacedAt.count_one (h : PlacedAt w o) (hq : (w.order o).isInOrderQueue = true)
    (hn : (w.order o).jobChainNode = some n) : (w.queue n).count o = 1 := by
  show ((w.chain n.chain).queue n.node.orderState).count o = 1
  rw [h.inQueue, if_pos ((inQueueOf_iff hq hn).mpr ⟨rfl, rfl⟩)]

theorem PlacedAt.mem_queue (h : PlacedAt w o) (hq : (w.order o).isInOrderQueue = true)
    (hn : (w.order o).jobChainNode = some n) : o ∈ w.queue n :=
  List.count_pos_iff.mp (by rw [h.count_one hq hn]; exact Nat.one_pos)

/-- A change that leaves the order where it is. -/
theorem PlacedAt.same (h : PlacedAt w o) (hf : SamePlace (w.order o) (f (w.order o))) :
    PlacedAt (w.setOrder o f) o where
  inMap c id := by
    rw [World.setOrder_order_self, hf.jobChain, hf.id]
    exact h.inMap c id
  onBlacklist c id := by
    rw [World.setOrder_order_self, hf.jobChain, hf.id, hf.isOnBlacklist]
    exact h.onBlacklist c id
  inQueue c s := by
    rw [World.setOrder_order_self, hf.inQueueOf]
    exact h.inQueue c s
  nodeOfChain n hn := by
    rw [World.setOrder_order_self, hf.jobChainNode] at hn
    rw [World.setOrder_order_self, hf.jobChain]
    exact h.nodeOfChain n hn
  queued := by
    rw [World.setOrder_order_self, hf.isInOrderQueue, hf.jobChainNode]
    exact h.queued

/-- What an order's place becomes when only its queue changes. -/
theorem PlacedAt.of_queue (h : PlacedAt w o) (hm : ∀ c id,
      (w'.chain c).orderMap.lookup id = (w.chain c).orderMap.lookup id)
    (hb : ∀ c id, (w'.chain c).blacklistMap.lookup id = (w.chain c).blacklistMap.lookup id)
    (hid : (w'.order o).id = (w.order o).id)
    (hc : (w'.order o).jobChain = (w.order o).jobChain)
    (hbl : (w'.order o).isOnBlacklist = (w.order o).isOnBlacklist)
    (hq : ∀ c s, ((w'.chain c).queue s).count o
      = if inQueueOf (w'.order o) c s = true then 1 else 0)
    (hn : ∀ n, (w'.order o).jobChainNode = some n →
      (w'.order o).jobChain = some n.chain ∧ n.node ∈ (w'.chain n.chain).nodes)
    (hqd : (w'.order o).isInOrderQueue = true ↔
      ∃ n, (w'.order o).jobChainNode = some n ∧ n.node.type.isOrderQueue = true) :
    PlacedAt w' o where
  inMap c id := by
    rw [hm, hid, hc]
    exact h.inMap c id
  onBlacklist c id := by
    rw [hb, hid, hc, hbl]
    exact h.onBlacklist c id
  inQueue := hq
  nodeOfChain := hn
  queued := hqd

@[simp] theorem setQueue_orderMap {q : List OrderRef → List OrderRef} :
    ((w.setQueue n q).chain c).orderMap = (w.chain c).orderMap := by
  by_cases h : c = n.chain
  · rw [h]
    simp [World.setQueue]
  · simp [World.setQueue, World.setChain_chain_of_ne h]

@[simp] theorem setQueue_blacklistMap {q : List OrderRef → List OrderRef} :
    ((w.setQueue n q).chain c).blacklistMap = (w.chain c).blacklistMap := by
  by_cases h : c = n.chain
  · rw [h]
    simp [World.setQueue]
  · simp [World.setQueue, World.setChain_chain_of_ne h]

theorem setQueue_queue {q : List OrderRef → List OrderRef} {s : String} :
    ((w.setQueue n q).chain c).queue s
      = if n.chain = c ∧ n.node.orderState = s then q (w.queue n)
        else (w.chain c).queue s := by
  by_cases h : n.chain = c ∧ n.node.orderState = s
  · obtain ⟨rfl, rfl⟩ := h
    rw [if_pos ⟨rfl, rfl⟩]
    exact World.setQueue_queue_self
  · rw [if_neg h]
    by_cases hc : c = n.chain
    · subst hc
      have hs : s ≠ n.node.orderState := fun hs => h ⟨rfl, hs.symm⟩
      simp [World.setQueue, Function.update_of_ne hs]
    · simp [World.setQueue, World.setChain_chain_of_ne hc]

@[simp] theorem dequeue_orderMap :
    ((dequeue w n o).chain c).orderMap = (w.chain c).orderMap :=
  setQueue_orderMap (q := fun q => q.erase o)

@[simp] theorem dequeue_blacklistMap :
    ((dequeue w n o).chain c).blacklistMap = (w.chain c).blacklistMap :=
  setQueue_blacklistMap (q := fun q => q.erase o)

@[simp] theorem enqueue_orderMap :
    ((enqueue w n o).chain c).orderMap = (w.chain c).orderMap :=
  setQueue_orderMap (q := insertOrder w.order o)

@[simp] theorem enqueue_blacklistMap :
    ((enqueue w n o).chain c).blacklistMap = (w.chain c).blacklistMap :=
  setQueue_blacklistMap (q := insertOrder w.order o)

theorem dequeue_queue {s : String} : ((dequeue w n o).chain c).queue s
    = if n.chain = c ∧ n.node.orderState = s then (w.queue n).erase o
      else (w.chain c).queue s :=
  setQueue_queue (q := fun q => q.erase o)

theorem enqueue_queue {s : String} : ((enqueue w n o).chain c).queue s
    = if n.chain = c ∧ n.node.orderState = s then insertOrder w.order o (w.queue n)
      else (w.chain c).queue s :=
  setQueue_queue (q := insertOrder w.order o)

theorem dequeue_queue_self : (dequeue w n o).queue n = (w.queue n).erase o :=
  World.setQueue_queue_self (q := fun q => q.erase o)

/-- Out of the queue, and off the node. -/
theorem PlacedAt.leave (h : PlacedAt w o) (hq : (w.order o).isInOrderQueue = true)
    (hn : (w.order o).jobChainNode = some n) :
    PlacedAt ((dequeue w n o).setOrder o fun x => { x with jobChainNode := none }) o := by
  have hord : ((dequeue w n o).setOrder o fun x => { x with jobChainNode := none }).order o
      = { w.order o with isInOrderQueue := false, jobChainNode := none } := by
    rw [World.setOrder_order_self, dequeue_order_self]
  refine h.of_queue (fun c id => ?_) (fun c id => ?_) ?_ ?_ ?_ (fun c s => ?_) ?_ ?_
  · rw [World.setOrder_chain, dequeue_orderMap]
  · rw [World.setOrder_chain, dequeue_blacklistMap]
  · rw [hord]
  · rw [hord]
  · rw [hord]
  · rw [hord, inQueueOf_of_not_queued rfl, World.setOrder_chain, dequeue_queue]
    show _ = 0
    by_cases hcs : n.chain = c ∧ n.node.orderState = s
    · rw [if_pos hcs, List.count_erase_self, h.count_one hq hn]
    · rw [if_neg hcs, h.inQueue, if_neg (fun hin => hcs ((inQueueOf_iff hq hn).mp hin))]
  · intro m hm
    rw [hord] at hm
    cases hm
  · rw [hord]
    constructor
    · intro hf
      cases hf
    · rintro ⟨m, hm, -⟩
      cases hm

/-- To no node, or to a node without a queue. -/
theorem PlacedAt.settle (h : PlacedAt w o) (hq : (w.order o).isInOrderQueue = false)
    (ht : ∀ n, target = some n → (w.order o).jobChain = some n.chain ∧
      n.node ∈ (w.chain n.chain).nodes ∧ n.node.type.isOrderQueue = false)
    (hf : SamePlace { w.order o with jobChainNode := target } (f (w.order o))) :
    PlacedAt (w.setOrder o f) o := by
  have hnq : (f (w.order o)).isInOrderQueue = false := hf.isInOrderQueue.trans hq
  refine h.of_queue (fun c id => rfl) (fun c id => rfl) ?_ ?_ ?_ (fun c s => ?_) ?_ ?_
  all_goals rw [World.setOrder_order_self]
  · exact hf.id
  · exact hf.jobChain
  · exact hf.isOnBlacklist
  · rw [inQueueOf_of_not_queued hnq]
    exact h.count_zero hq
  · intro n hn
    rw [hf.jobChainNode] at hn
    rw [hf.jobChain]
    exact ⟨(ht n hn).1, (ht n hn).2.1⟩
  · rw [hnq, hf.jobChainNode]
    constructor
    · intro hfalse
      cases hfalse
    · rintro ⟨n, hn, hty⟩
      rw [(ht n hn).2.2] at hty
      cases hty

/-- To a node with a queue, and into that queue. -/
theorem PlacedAt.arrive (h : PlacedAt w o) (hq : (w.order o).isInOrderQueue = false)
    (hc : (w.order o).jobChain = some n.chain) (hn : n.node ∈ (w.chain n.chain).nodes)
    (hty : n.node.type.isOrderQueue = true)
    (hf : SamePlace { w.order o with jobChainNode := some n } (f (w.order o))) :
    PlacedAt (enqueue (w.setOrder o f) n o) o := by
  have hord : (enqueue (w.setOrder o f) n o).order o
      = { f (w.order o) with isInOrderQueue := true } := by
    rw [enqueue_order_self, World.setOrder_order_self]
  have hfn : (f (w.order o)).jobChainNode = some n := hf.jobChainNode
  refine h.of_queue (fun c id => ?_) (fun c id => ?_) ?_ ?_ ?_ (fun c s => ?_) ?_ ?_
  · rw [enqueue_orderMap, World.setOrder_chain]
  · rw [enqueue_blacklistMap, World.setOrder_chain]
  · rw [hord]
    exact hf.id
  · rw [hord]
    exact hf.jobChain
  · rw [hord]
    exact hf.isOnBlacklist
  · rw [hord, enqueue_queue]
    by_cases hcs : n.chain = c ∧ n.node.orderState = s
    · rw [if_pos hcs, count_insertOrder, List.count_cons_self,
        if_pos ((inQueueOf_iff (x := { f (w.order o) with isInOrderQueue := true }) rfl hfn).mpr
          hcs)]
      exact congrArg (· + 1) (h.count_zero hq)
    · rw [if_neg hcs,
        if_neg (fun hin => hcs ((inQueueOf_iff
          (x := { f (w.order o) with isInOrderQueue := true }) rfl hfn).mp hin))]
      exact h.count_zero hq
  · intro m hm
    rw [hord] at hm ⊢
    obtain rfl : n = m := Option.some.inj (hfn.symm.trans hm)
    refine ⟨hf.jobChain.trans hc, ?_⟩
    rw [(moves_enqueue _ n o).nodes]
    exact hn
  · rw [hord]
    exact ⟨fun _ => ⟨n, hfn, hty⟩, fun _ => rfl⟩

/-- What the order becomes when it is inserted again. -/
theorem rekeyed_order_self (h : PlacedAt w o) (hf : SamePlace (w.order o) (f (w.order o))) :
    (rekeyed w o f).order o = f (w.order o) := by
  cases hq : (w.order o).isInOrderQueue with
  | false =>
      rw [rekeyed_of_not_queued hq, World.setOrder_order_self]
  | true =>
      obtain ⟨n, hn, -⟩ := h.queued.mp hq
      have hq' : (f (w.order o)).isInOrderQueue = true := hf.isInOrderQueue.trans hq
      rw [rekeyed_of_queued hq hn, enqueue_order_self, dequeue_order_self,
        World.setOrder_order_self]
      show { f (w.order o) with isInOrderQueue := true } = f (w.order o)
      rw [← hq']

/-- Out of the queue and into it again. -/
theorem PlacedAt.rekeyed (h : PlacedAt w o) (hf : SamePlace (w.order o) (f (w.order o))) :
    PlacedAt (rekeyed w o f) o := by
  cases hq : (w.order o).isInOrderQueue with
  | false =>
      rw [rekeyed_of_not_queued hq]
      exact h.same hf
  | true =>
      obtain ⟨n, hn, hty⟩ := h.queued.mp hq
      have hord := rekeyed_order_self h hf
      have hm := moves_rekeyed w o f
      rw [rekeyed_of_queued hq hn] at hord hm ⊢
      refine h.of_queue (fun c id => ?_) (fun c id => ?_) ?_ ?_ ?_ (fun c s => ?_) ?_ ?_
      · rw [enqueue_orderMap, dequeue_orderMap, World.setOrder_chain]
      · rw [enqueue_blacklistMap, dequeue_blacklistMap, World.setOrder_chain]
      · rw [hord, hf.id]
      · rw [hord, hf.jobChain]
      · rw [hord, hf.isOnBlacklist]
      · rw [hord, hf.inQueueOf, enqueue_queue]
        by_cases hcs : n.chain = c ∧ n.node.orderState = s
        · rw [if_pos hcs, count_insertOrder, List.count_cons_self,
            if_pos ((inQueueOf_iff hq hn).mpr hcs)]
          have hone : ((w.setOrder o f).queue n).count o = 1 := h.count_one hq hn
          show ((dequeue (w.setOrder o f) n o).queue n).count o + 1 = 1
          rw [dequeue_queue_self, List.count_erase_self, hone]
        · rw [if_neg hcs, dequeue_queue, if_neg hcs, World.setOrder_chain, h.inQueue c s]
      · intro m hm'
        rw [hord, hf.jobChainNode] at hm'
        rw [hord, hf.jobChain, hm.nodes]
        exact h.nodeOfChain m hm'
      · rw [hord, hf.isInOrderQueue, hf.jobChainNode]
        exact h.queued

/-- In a world where all orders are placed, one id means one order. -/
theorem Placed.unique (h : Placed w) (hc : (w.order o).jobChain = some c)
    (hp : (w.chain c).orderMap.lookup (w.order o).id = some p) : p = o := by
  have := ((h o).inMap c _).mpr ⟨hc, rfl⟩
  exact Option.some.inj (hp.symm.trans this)

theorem Placed.blacklist_unique (h : Placed w) (hc : (w.order o).jobChain = some c)
    (hp : (w.chain c).blacklistMap.lookup (w.order o).id = some p) : p = o := by
  obtain ⟨hpc, hid, -⟩ := ((h p).onBlacklist c _).mp hp
  exact h.unique hc (((h p).inMap c _).mpr ⟨hpc, hid⟩)

theorem Placed.same (h : Placed w) (hf : SamePlace (w.order o) (f (w.order o))) :
    Placed (w.setOrder o f) :=
  h.moves (moves_setOrder w o f) ((h o).same hf)

theorem Placed.rekeyed (h : Placed w) (hf : SamePlace (w.order o) (f (w.order o))) :
    Placed (rekeyed w o f) :=
  h.moves (moves_rekeyed w o f) ((h o).rekeyed hf)

theorem Placed.leave (h : Placed w) (hq : (w.order o).isInOrderQueue = true)
    (hn : (w.order o).jobChainNode = some n) :
    Placed ((dequeue w n o).setOrder o fun x => { x with jobChainNode := none }) :=
  h.moves ((moves_dequeue w n o).trans (moves_setOrder _ o _)) ((h o).leave hq hn)

theorem Placed.settle (h : Placed w) (hq : (w.order o).isInOrderQueue = false)
    (ht : ∀ n, target = some n → (w.order o).jobChain = some n.chain ∧
      n.node ∈ (w.chain n.chain).nodes ∧ n.node.type.isOrderQueue = false)
    (hf : SamePlace { w.order o with jobChainNode := target } (f (w.order o))) :
    Placed (w.setOrder o f) :=
  h.moves (moves_setOrder w o f) ((h o).settle hq ht hf)

theorem Placed.arrive (h : Placed w) (hq : (w.order o).isInOrderQueue = false)
    (hc : (w.order o).jobChain = some n.chain) (hn : n.node ∈ (w.chain n.chain).nodes)
    (hty : n.node.type.isOrderQueue = true)
    (hf : SamePlace { w.order o with jobChainNode := some n } (f (w.order o))) :
    Placed (enqueue (w.setOrder o f) n o) :=
  h.moves ((moves_setOrder w o f).trans (moves_enqueue _ n o)) ((h o).arrive hq hc hn hty hf)

/-! ## Maps -/

/-- What an order's place becomes when only maps and its own members change. -/
theorem setChain_queue_same {g : Chain → Chain} {s : String}
    (hg : (g (w.chain c)).queue = (w.chain c).queue) :
    ((w.setChain c g).chain d).queue s = (w.chain d).queue s := by
  by_cases hd : d = c
  · rw [hd, World.setChain_chain_self, hg]
  · rw [World.setChain_chain_of_ne hd]

theorem setChain_toJobChain_same {g : Chain → Chain}
    (hg : (g (w.chain c)).toJobChain = (w.chain c).toJobChain) :
    ((w.setChain c g).chain d).toJobChain = (w.chain d).toJobChain := by
  by_cases hd : d = c
  · rw [hd, World.setChain_chain_self, hg]
  · rw [World.setChain_chain_of_ne hd]

theorem moves_blacklist (h : Placed w) (hc : (w.order o).jobChain = some c) :
    Moves o w (blacklist w c o) := by
  refine Moves.trans (v := w.setChain c _) (moves_setChain rfl (fun _ _ _ => Iff.rfl)
    (fun p hp id => lookup_insert_other (fun p' hp' => h.blacklist_unique hc hp') hp)
    (fun _ _ _ => rfl)) (moves_setOrder _ o _)

theorem moves_unblacklist (h : Placed w) (hc : (w.order o).jobChain = some c) :
    Moves o w (unblacklist w c o) := by
  refine Moves.trans (v := w.setChain c _) (moves_setChain rfl (fun _ _ _ => Iff.rfl)
    (fun p hp id => lookup_erase_other (fun p' hp' => h.blacklist_unique hc hp') hp)
    (fun _ _ _ => rfl)) (moves_setOrder _ o _)

theorem moves_register (hfree : (w.chain c).orderMap.lookup (w.order o).id = none) :
    Moves o w (register w c o f) := by
  refine Moves.trans (moves_setOrder w o f) (moves_setChain rfl
    (fun p hp id => lookup_insert_other (fun p' hp' => ?_) hp) (fun _ _ _ => Iff.rfl)
    (fun _ _ _ => rfl))
  rw [World.setOrder_chain, hfree] at hp'
  cases hp'

theorem moves_unregister (h : Placed w) (hc : (w.order o).jobChain = some c) :
    Moves o w (unregister w c o) := by
  refine Moves.trans (moves_setOrder w o _) (moves_setChain rfl
    (fun p hp id => lookup_erase_other (fun p' hp' => ?_) hp) (fun _ _ _ => Iff.rfl)
    (fun _ _ _ => rfl))
  exact h.unique hc hp'

theorem blacklist_lookup : ((blacklist w c o).chain d).blacklistMap.lookup id
    = if d = c ∧ id = (w.order o).id then some o
      else (w.chain d).blacklistMap.lookup id := by
  simp only [blacklist, World.setOrder_chain]
  by_cases hd : d = c
  · rw [hd, World.setChain_chain_self]
    by_cases hid : id = (w.order o).id
    · rw [if_pos ⟨rfl, hid⟩, hid]
      exact AList.lookup_insert _
    · rw [if_neg (fun h => hid h.2)]
      exact AList.lookup_insert_ne hid
  · rw [World.setChain_chain_of_ne hd, if_neg (fun h => hd h.1)]

theorem unblacklist_lookup : ((unblacklist w c o).chain d).blacklistMap.lookup id
    = if d = c ∧ id = (w.order o).id then none
      else (w.chain d).blacklistMap.lookup id := by
  simp only [unblacklist, World.setOrder_chain]
  by_cases hd : d = c
  · rw [hd, World.setChain_chain_self]
    by_cases hid : id = (w.order o).id
    · rw [if_pos ⟨rfl, hid⟩, hid]
      exact AList.lookup_erase _ _
    · rw [if_neg (fun h => hid h.2)]
      exact AList.lookup_erase_ne hid
  · rw [World.setChain_chain_of_ne hd, if_neg (fun h => hd h.1)]

theorem register_lookup : ((register w c o f).chain d).orderMap.lookup id
    = if d = c ∧ id = (w.order o).id then some o
      else (w.chain d).orderMap.lookup id := by
  show (((w.setOrder o f).setChain c _).chain d).orderMap.lookup id = _
  by_cases hd : d = c
  · rw [hd, World.setChain_chain_self]
    by_cases hid : id = (w.order o).id
    · rw [if_pos ⟨rfl, hid⟩, hid]
      exact AList.lookup_insert _
    · rw [if_neg (fun h => hid h.2)]
      exact AList.lookup_insert_ne hid
  · rw [World.setChain_chain_of_ne hd, if_neg (fun h => hd h.1)]
    rfl

theorem unregister_lookup : ((unregister w c o).chain d).orderMap.lookup id
    = if d = c ∧ id = (w.order o).id then none
      else (w.chain d).orderMap.lookup id := by
  show ((World.setChain _ c _).chain d).orderMap.lookup id = _
  by_cases hd : d = c
  · rw [hd, World.setChain_chain_self]
    by_cases hid : id = (w.order o).id
    · rw [if_pos ⟨rfl, hid⟩, hid]
      exact AList.lookup_erase _ _
    · rw [if_neg (fun h => hid h.2)]
      exact AList.lookup_erase_ne hid
  · rw [World.setChain_chain_of_ne hd, if_neg (fun h => hd h.1)]
    rfl

@[simp] theorem blacklist_orderMap :
    ((blacklist w c o).chain d).orderMap = (w.chain d).orderMap := by
  simp only [blacklist, World.setOrder_chain]
  by_cases hd : d = c
  · rw [hd, World.setChain_chain_self]
  · rw [World.setChain_chain_of_ne hd]

@[simp] theorem unblacklist_orderMap :
    ((unblacklist w c o).chain d).orderMap = (w.chain d).orderMap := by
  simp only [unblacklist, World.setOrder_chain]
  by_cases hd : d = c
  · rw [hd, World.setChain_chain_self]
  · rw [World.setChain_chain_of_ne hd]

@[simp] theorem register_blacklistMap :
    ((register w c o f).chain d).blacklistMap = (w.chain d).blacklistMap := by
  simp only [register]
  by_cases hd : d = c
  · rw [hd, World.setChain_chain_self, World.setOrder_chain]
  · rw [World.setChain_chain_of_ne hd, World.setOrder_chain]

@[simp] theorem unregister_blacklistMap :
    ((unregister w c o).chain d).blacklistMap = (w.chain d).blacklistMap := by
  simp only [unregister]
  by_cases hd : d = c
  · rw [hd, World.setChain_chain_self, World.setOrder_chain]
  · rw [World.setChain_chain_of_ne hd, World.setOrder_chain]

@[simp] theorem blacklist_queue {s : String} :
    ((blacklist w c o).chain d).queue s = (w.chain d).queue s := by
  simp only [blacklist, World.setOrder_chain]
  exact setChain_queue_same rfl

@[simp] theorem unblacklist_queue {s : String} :
    ((unblacklist w c o).chain d).queue s = (w.chain d).queue s := by
  simp only [unblacklist, World.setOrder_chain]
  exact setChain_queue_same rfl

@[simp] theorem register_queue {s : String} :
    ((register w c o f).chain d).queue s = (w.chain d).queue s :=
  setChain_queue_same (w := w.setOrder o f) rfl

@[simp] theorem unregister_queue {s : String} :
    ((unregister w c o).chain d).queue s = (w.chain d).queue s :=
  setChain_queue_same (w := w.setOrder o _) rfl

theorem Placed.blacklist (h : Placed w) (hc : (w.order o).jobChain = some c) :
    Placed (blacklist w c o) := by
  have hm := moves_blacklist h hc
  refine h.moves hm ⟨fun d id => ?_, fun d id => ?_, fun d s => ?_, fun n hn => ?_, ?_⟩
  · rw [blacklist_orderMap, blacklist_order_self]
    exact (h o).inMap d id
  · rw [blacklist_lookup, blacklist_order_self]
    by_cases hdi : d = c ∧ id = (w.order o).id
    · rw [if_pos hdi]
      exact ⟨fun _ => ⟨hc.trans (congrArg some hdi.1.symm), hdi.2.symm, rfl⟩, fun _ => rfl⟩
    · rw [if_neg hdi, (h o).onBlacklist]
      have hno : ¬((w.order o).jobChain = some d ∧ (w.order o).id = id) := by
        rintro ⟨hd, hid⟩
        exact hdi ⟨(Option.some.inj (hc.symm.trans hd)).symm, hid.symm⟩
      exact ⟨fun hx => absurd ⟨hx.1, hx.2.1⟩ hno, fun hx => absurd ⟨hx.1, hx.2.1⟩ hno⟩
  · rw [blacklist_queue, blacklist_order_self]
    exact (h o).inQueue d s
  · rw [blacklist_order_self] at hn ⊢
    rw [hm.nodes]
    exact (h o).nodeOfChain n hn
  · rw [blacklist_order_self]
    exact (h o).queued

theorem Placed.unblacklist (h : Placed w) (hc : (w.order o).jobChain = some c) :
    Placed (unblacklist w c o) := by
  have hm := moves_unblacklist h hc
  refine h.moves hm ⟨fun d id => ?_, fun d id => ?_, fun d s => ?_, fun n hn => ?_, ?_⟩
  · rw [unblacklist_orderMap, unblacklist_order_self]
    exact (h o).inMap d id
  · rw [unblacklist_lookup, unblacklist_order_self]
    by_cases hdi : d = c ∧ id = (w.order o).id
    · rw [if_pos hdi]
      constructor
      · intro hx
        cases hx
      · rintro ⟨-, -, hx⟩
        cases hx
    · rw [if_neg hdi, (h o).onBlacklist]
      constructor
      · rintro ⟨hd, hid, -⟩
        exact absurd ⟨(Option.some.inj (hc.symm.trans hd)).symm, hid.symm⟩ hdi
      · rintro ⟨-, -, hx⟩
        cases hx
  · rw [unblacklist_queue, unblacklist_order_self]
    exact (h o).inQueue d s
  · rw [unblacklist_order_self] at hn ⊢
    rw [hm.nodes]
    exact (h o).nodeOfChain n hn
  · rw [unblacklist_order_self]
    exact (h o).queued

/-- Into a job chain that has no order of this id; on no blacklist and in no
    queue yet. -/
theorem Placed.register (h : Placed w) (hnone : (w.order o).jobChain = none)
    (hbl : (w.order o).isOnBlacklist = false)
    (hfree : (w.chain c).orderMap.lookup (w.order o).id = none)
    (hf : SamePlace { w.order o with jobChain := some c } (f (w.order o))) :
    Placed (register w c o f) := by
  have hm : Moves o w (OrderPlacement.register w c o f) := moves_register hfree
  obtain ⟨hnode, hq⟩ := (h o).unqueued_of_unplaced hnone
  have hfc : (f (w.order o)).jobChain = some c := hf.jobChain
  have hfid : (f (w.order o)).id = (w.order o).id := hf.id
  have hfq : (f (w.order o)).isInOrderQueue = false := hf.isInOrderQueue.trans hq
  have hfn : (f (w.order o)).jobChainNode = none := hf.jobChainNode.trans hnode
  have hfb : (f (w.order o)).isOnBlacklist = false := hf.isOnBlacklist.trans hbl
  refine h.moves hm ⟨fun d id => ?_, fun d id => ?_, fun d s => ?_, fun n hn => ?_, ?_⟩
  all_goals rw [register_order_self]
  · rw [register_lookup, hfc, hfid]
    by_cases hdi : d = c ∧ id = (w.order o).id
    · rw [if_pos hdi]
      exact ⟨fun _ => ⟨congrArg some hdi.1.symm, hdi.2.symm⟩, fun _ => rfl⟩
    · rw [if_neg hdi, (h o).inMap, hnone]
      constructor
      · rintro ⟨hx, -⟩
        cases hx
      · rintro ⟨hd, hid⟩
        exact absurd ⟨(Option.some.inj hd).symm, hid.symm⟩ hdi
  · rw [register_blacklistMap, (h o).onBlacklist, hnone, hfb]
    constructor
    · rintro ⟨hx, -⟩
      cases hx
    · rintro ⟨-, -, hx⟩
      cases hx
  · rw [register_queue, inQueueOf_of_not_queued hfq]
    exact (h o).count_zero hq
  · rw [register_order_self, hfn] at hn
    cases hn
  · rw [hfq, hfn]
    constructor
    · intro hx
      cases hx
    · rintro ⟨m, hx, -⟩
      cases hx

theorem moves_registerBlacklisted (h : Placed w)
    (hfree : (w.chain c).orderMap.lookup (w.order o).id = none)
    (hf : SamePlace { w.order o with jobChain := some c } (f (w.order o))) :
    Moves o w (OrderPlacement.blacklist (OrderPlacement.register w c o f) c o) := by
  have hid : ((OrderPlacement.register w c o f).order o).id = (w.order o).id := by
    rw [register_order_self]
    exact hf.id
  -- a blacklist has no orders that the job chain has not
  have hbl : ∀ p, (w.chain c).blacklistMap.lookup (w.order o).id = some p → p = o := by
    intro p hp
    obtain ⟨hpc, hpid, -⟩ := ((h p).onBlacklist c _).mp hp
    have hmap := ((h p).inMap c _).mpr ⟨hpc, hpid⟩
    rw [hfree] at hmap
    cases hmap
  refine (moves_register hfree).trans
    (Moves.trans (moves_setChain rfl (fun _ _ _ => Iff.rfl) (fun p hp id => ?_)
      (fun _ _ _ => rfl)) (moves_setOrder _ o _))
  refine lookup_insert_other (fun p' hp' => hbl p' ?_) hp
  rw [register_blacklistMap, hid] at hp'
  exact hp'

/-- Into a job chain and on its blacklist. -/
theorem Placed.registerBlacklisted (h : Placed w) (hnone : (w.order o).jobChain = none)
    (hfree : (w.chain c).orderMap.lookup (w.order o).id = none)
    (hf : SamePlace { w.order o with jobChain := some c } (f (w.order o))) :
    Placed (OrderPlacement.blacklist (OrderPlacement.register w c o f) c o) := by
  -- as if it got its flag only with the blacklist
  let g : Order → Order := fun x => { f x with isOnBlacklist := false }
  let w₀ := w.setOrder o fun x => { x with isOnBlacklist := false }
  have hplaced : Placed w₀ := by
    obtain ⟨hnode, hq⟩ := (h o).unqueued_of_unplaced hnone
    refine h.moves (moves_setOrder w o _) ⟨?_, fun d id => ?_, ?_, ?_, ?_⟩
    · rw [World.setOrder_order_self]
      exact (h o).inMap
    · rw [World.setOrder_order_self, World.setOrder_chain, (h o).onBlacklist, hnone]
      constructor
      · rintro ⟨hx, -⟩
        cases hx
      · rintro ⟨hx, -⟩
        cases hx
    · rw [World.setOrder_order_self]
      exact (h o).inQueue
    · rw [World.setOrder_order_self]
      exact (h o).nodeOfChain
    · rw [World.setOrder_order_self]
      exact (h o).queued
  have hw₀ : w₀.order o = { w.order o with isOnBlacklist := false } :=
    World.setOrder_order_self
  have hreg : Placed (OrderPlacement.register w₀ c o fun _ => g (w.order o)) := by
    refine hplaced.register (by rw [hw₀]; exact hnone) (by rw [hw₀]) ?_ ?_
    · rw [hw₀]
      exact hfree
    · rw [hw₀]
      exact ⟨hf.id, hf.jobChain, hf.jobChainNode, hf.isInOrderQueue, rfl⟩
  have hbl := hreg.blacklist (o := o) (c := c) (by rw [register_order_self]; exact hf.jobChain)
  have heq : OrderPlacement.blacklist (OrderPlacement.register w₀ c o fun _ => g (w.order o)) c o
      = OrderPlacement.blacklist (OrderPlacement.register w c o f) c o := by
    simp only [OrderPlacement.blacklist, OrderPlacement.register, World.setOrder, World.setChain,
      Function.update_self, Function.update_idem, w₀, g]
  rw [← heq]
  exact hbl

theorem Placed.unregister (h : Placed w) (hc : (w.order o).jobChain = some c)
    (hbl : (w.order o).isOnBlacklist = false) (hn : (w.order o).jobChainNode = none) :
    Placed (unregister w c o) := by
  have hm := moves_unregister h hc
  refine h.moves hm ⟨fun d id => ?_, fun d id => ?_, fun d s => ?_, fun n hn' => ?_, ?_⟩
  all_goals rw [unregister_order_self]
  · rw [unregister_lookup]
    by_cases hdi : d = c ∧ id = (w.order o).id
    · rw [if_pos hdi]
      constructor
      · intro hx
        cases hx
      · rintro ⟨hx, -⟩
        cases hx
    · rw [if_neg hdi, (h o).inMap, hc]
      constructor
      · rintro ⟨hd, hid⟩
        exact absurd ⟨(Option.some.inj hd).symm, hid.symm⟩ hdi
      · rintro ⟨hx, -⟩
        cases hx
  · rw [unregister_blacklistMap, (h o).onBlacklist, hbl]
    constructor
    · rintro ⟨-, -, hx⟩
      cases hx
    · rintro ⟨hx, -⟩
      cases hx
  · rw [unregister_queue]
    exact (h o).inQueue d s
  · rw [unregister_order_self, hn] at hn'
    cases hn'
  · show (w.order o).isInOrderQueue = true ↔ _
    exact (h o).queued

/-- An order in no job chain may be changed as one likes, as long as it stays in
    none. -/
theorem Placed.unplaced (h : Placed w) (hnone : (w.order o).jobChain = none)
    (hc : (f (w.order o)).jobChain = none)
    (hn : (f (w.order o)).jobChainNode = (w.order o).jobChainNode)
    (hq : (f (w.order o)).isInOrderQueue = (w.order o).isInOrderQueue) :
    Placed (w.setOrder o f) := by
  obtain ⟨hnode, hnq⟩ := (h o).unqueued_of_unplaced hnone
  refine h.moves (moves_setOrder w o f) ⟨fun d id => ?_, fun d id => ?_, fun d s => ?_,
    fun n hn' => ?_, ?_⟩
  · rw [World.setOrder_order_self, World.setOrder_chain, (h o).inMap, hnone, hc]
    constructor
    · rintro ⟨hx, -⟩
      cases hx
    · rintro ⟨hx, -⟩
      cases hx
  · rw [World.setOrder_order_self, World.setOrder_chain, (h o).onBlacklist, hnone, hc]
    constructor
    · rintro ⟨hx, -⟩
      cases hx
    · rintro ⟨hx, -⟩
      cases hx
  · rw [World.setOrder_order_self, World.setOrder_chain,
      inQueueOf_of_not_queued (hq.trans hnq)]
    exact (h o).count_zero hnq
  · rw [World.setOrder_order_self, hn, hnode] at hn'
    cases hn'
  · rw [World.setOrder_order_self, hn, hq]
    exact (h o).queued

end OrderPlacement
