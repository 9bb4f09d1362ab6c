import Mathlib.Data.List.Perm.Subperm
import SchedulerEngine.OrderCommandProofs

/-! # Runs of the scheduler

    Commands, calls, tasks, files and the folders of the configuration act on the
    orders and job chains in any order, and any of these operations may fail half
    way.  What every operation keeps is stated once, for every predicate that the
    moves of orders keep; the results are about all worlds that a run reaches. -/

namespace OrderRun

open FileBased (Failure)
open Execution Execution.Exec RunInvariant JobChainNode OrderWorld OrderQueue OrderMove
open OrderPlacement OrderClosed OrderMethods OrderStep OrderEnd OrderTask ChainReplacement
open OrderCommand
open OrderSetback (anyMove sampleChain sampleHalt sampleTask sampleWork)

/-! ## Operations -/

/-- What the operator, or another object, says to a job chain. -/
structure ChainSettings where
  state : State
  isStopped : Bool
  isToBeRemoved : Bool
  hasInitializedReplacement : Bool
  orderIdSpace : List ChainRef

def inState (state : State) (c : JobChain) : JobChain := { c with state := state }

def ChainSettings.apply (settings : ChainSettings) (ch : Chain) : Chain :=
  { ch with
    toJobChain := inState settings.state ch.toJobChain
    isStopped := settings.isStopped
    isToBeRemoved := settings.isToBeRemoved
    hasInitializedReplacement := settings.hasInitializedReplacement
    orderIdSpace := settings.orderIdSpace }

/-- One thing that happens. -/
inductive Op where
  | newOrder (o : OrderRef) (x : Order)
  | addOrder (o : OrderRef) (path : String) (replace : Bool)
  | modifyOrder (path id : String) (m : ModifyOrder)
  | removeOrder (path id : String)
  | call (o : OrderRef) (call : Call)
  | ignoreMaxOrders (o : OrderRef) (b : Bool)
  | activate (o : OrderRef)
  | fileChanged (o : OrderRef) (change : FileChange)
  | blacklistedFileRemoved (o : OrderRef)
  | scheduleChanged (o : OrderRef) (schedule : Schedule)
  | requestOrder (n : NodeRef) (time : Nat)
  | fetch (n : NodeRef) (task : Task) (time : Nat)
  | postprocessing (o : OrderRef) (transition : Transition)
  | processingError (o : OrderRef)
  | setAction (n : NodeRef) (action : Action)
  | loadJobChain (c : ChainRef) (ch : Chain)
  | changeJobChain (c : ChainRef) (settings : ChainSettings)
  | removeAllPendingOrders (c : ChainRef) (leaveInDatabase : Bool)
      (visit : List OrderRef → List OrderRef)
  | closeJobChain (c : ChainRef) (visit : List OrderRef → List OrderRef)
  | replaceJobChain (c r : ChainRef) (visit : List OrderRef → List OrderRef)
  | folders (jobChains : String → Option ChainRef) (standingOrders : List OrderRef)
  | elapse (time : Nat)

/-- The world after the operation, whether it has failed or not. -/
def perform (depth : Nat) (w : World) : Op → World
  | .newOrder o x => w.setOrder o fun _ => x
  | .addOrder o path replace => final (executeAddOrder o path replace) w
  | .modifyOrder path id m => final (executeModifyOrder depth path id m) w
  | .removeOrder path id => final (executeRemoveOrder path id) w
  | .call o call => final (call.run depth o) w
  | .ignoreMaxOrders o b => w.setOrder o fun x => { x with ignoreMaxOrders := b }
  | .activate o => final (onActivate o) w
  | .fileChanged o change => final (onFileChanged o change) w
  | .blacklistedFileRemoved o => final (onBlacklistedFileRemoved o) w
  | .scheduleChanged o schedule => final (setSchedule o schedule) w
  | .requestOrder n time => final (OrderQueue.requestOrder n time) w
  | .fetch n task time => final (fetchAndOccupyOrder n task time) w
  | .postprocessing o transition => final (OrderStep.postprocessing (depth + 1) o transition) w
  | .processingError o => final (OrderCommand.processingError depth o) w
  | .setAction n action => final (OrderStep.setAction depth n action) w
  | .loadJobChain c ch => w.setChain c fun _ => ch
  | .changeJobChain c settings => w.setChain c settings.apply
  | .removeAllPendingOrders c leaveInDatabase visit =>
      final (ChainReplacement.removeAllPendingOrders c leaveInDatabase (visit (ordersOf w c))) w
  | .closeJobChain c visit => final (ChainReplacement.closeJobChain visit c) w
  | .replaceJobChain c r visit => final (onReplaceNow visit c r) w
  | .folders jobChains standingOrders =>
      { w with jobChainOrNull := jobChains, standingOrders := standingOrders }
  | .elapse time => { w with now := time }

/-- One step of a run, in which methods call each other at some depth. -/
def Step (w : World) (op : Op) (w' : World) : Prop := ∃ depth, perform depth w op = w'

/-! ## Conditions -/

/-- The order is in no job chain. -/
structure Unplaced (x : Order) : Prop where
  jobChain : x.jobChain = none
  jobChainNode : x.jobChainNode = none
  isInOrderQueue : x.isInOrderQueue = false

/-- The job chain has been loaded and has had no order yet. -/
structure Unused (ch : Chain) : Prop where
  nodes : ch.nodes.Nodup
  orderMap : ch.orderMap = ∅
  blacklistMap : ch.blacklistMap = ∅
  queue : ∀ s, ch.queue s = []

/-- The order is one that `max_orders` of the job chain counts, if it is in a queue. -/
structure Counted (w : World) (c : ChainRef) (p : OrderRef) : Prop where
  jobChain : (w.order p).jobChain = some c
  isTouched : (w.order p).isTouchedInCurrentJobChain = true
  ignoreMaxOrders : (w.order p).ignoreMaxOrders = false

/-- No order of the job chain that is in a task is on its blacklist. -/
def NoBusyOnBlacklist (w : World) (c : ChainRef) : Prop :=
  ∀ p, (w.order p).jobChain = some c → (w.order p).task.isSome = true →
    (w.order p).isOnBlacklist = false

/-- When the operation can happen: new objects are in use nowhere, a hash map is gone through in
    some order, a job chain is replaced when it can be, and none is closed while an order of it
    that is in a task is on its blacklist. -/
def Possible (w : World) : Op → Prop
  | .newOrder o x => (w.order o).jobChain = none ∧ Unplaced x
  | .loadJobChain c ch => (∀ p, (w.order p).jobChain ≠ some c) ∧ Unused ch
  | .removeAllPendingOrders _ _ visit => ∀ l, (visit l).Perm l
  | .closeJobChain c visit => (∀ l, (visit l).Perm l) ∧ NoBusyOnBlacklist w c
  | .replaceJobChain c r visit => (∀ l, (visit l).Perm l) ∧ NoBusyOnBlacklist w c
      ∧ Replaceable w c r ∧ canBeReplacedNow w c = true
  | _ => True

/-- What more has to be known in a mode. -/
def Obeys (μ : Mode) (w : World) : Op → Prop
  | .addOrder o _ _ => Fresh μ true o w
  | .call o call => call.places = true → Fresh μ true o w
  | .ignoreMaxOrders o b => μ.counted → b = false →
      (w.order o).isTouchedInCurrentJobChain = false
  | .activate o => Fresh μ true o w
  | .fetch n _ _ => μ.counted → ∀ p, Counted w n.chain p → (w.order p).isInOrderQueue = true
  | .postprocessing o transition => MayPostprocess μ o transition w
  | .processingError o => MayPostprocess μ o .keep w
  | .replaceJobChain _ _ _ => ¬μ.counted
  | _ => True

theorem obeys_anyMove (w : World) (op : Op) : Obeys anyMove w op := by
  have may : ∀ o transition, MayPostprocess anyMove o transition w := fun o transition =>
    ⟨fun _ => False.elim, False.elim, False.elim, False.elim⟩
  cases op with
  | addOrder o path replace => exact False.elim
  | call o call => exact fun _ => False.elim
  | ignoreMaxOrders o b => exact False.elim
  | activate o => exact False.elim
  | fetch n task time => exact False.elim
  | postprocessing o transition => exact may o transition
  | processingError o => exact may o .keep
  | replaceJobChain c r visit => exact id
  | newOrder | modifyOrder | removeOrder | fileChanged | blacklistedFileRemoved
  | scheduleChanged | requestOrder | setAction | loadJobChain | changeJobChain
  | removeAllPendingOrders | closeJobChain | folders | elapse => trivial

/-- Nothing has happened yet. -/
structure Start (w : World) : Prop where
  orders : ∀ p, Unplaced (w.order p)
  chains : ∀ c, Unused (w.chain c)

variable {μ : Mode} {I : World → Prop} {w w' : World} {o p : OrderRef} {c r : ChainRef}
  {n : NodeRef} {f : Order → Order} {l : List OrderRef}

/-! ## Orders that count -/

theorem isTouchedInCurrentJobChain_of_keeping {x y : Order} (h : Keeping μ x y)
    (ho : y.outerJobChainPath = x.outerJobChainPath)
    (ht : y.isTouchedInCurrentJobChain = true) : x.isTouchedInCurrentJobChain = true := by
  simp only [Order.isTouchedInCurrentJobChain, ho] at ht ⊢
  by_cases hpath : x.outerJobChainPath = ""
  · rw [if_pos hpath] at ht ⊢
    exact h.isTouched ht
  · rw [if_neg hpath] at ht ⊢
    exact h.isNestedTouched ht

/-- Where a move takes an order that it does not touch: it stays in its job chain, or was not
    touched in it before, or is not afterwards. -/
theorem Move.marks (hk : μ.counted) (h : Placed w) (hm : Move μ o w w') :
    ((w'.order o).jobChain = (w.order o).jobChain
      ∧ (w'.order o).outerJobChainPath = (w.order o).outerJobChainPath)
    ∨ ((w'.order o).outerJobChainPath = (w.order o).outerJobChainPath
      ∧ (w.order o).isTouchedInCurrentJobChain = false)
    ∨ (w'.order o).jobChain = none
    ∨ (w'.order o).isTouchedInCurrentJobChain = false := by
  cases hm with
  | write f hf hkey =>
      rw [World.setOrder_order_self]
      exact .inl ⟨hf.jobChain, hf.outerJobChainPath⟩
  | rekey f hf =>
      rw [rekeyed_order_self (h o) hf.toSamePlace]
      exact .inl ⟨hf.jobChain, hf.outerJobChainPath⟩
  | leave n hq hn =>
      rw [World.setOrder_order_self, dequeue_order_self]
      exact .inl ⟨rfl, rfl⟩
  | settle t f hq ht hf =>
      rw [World.setOrder_order_self]
      exact .inl ⟨hf.jobChain, hf.outerJobChainPath⟩
  | arrive n f he hq hc hn hty hb hf =>
      rw [enqueue_order_self, World.setOrder_order_self]
      exact .inl ⟨hf.jobChain, hf.outerJobChainPath⟩
  | blacklist c hc hq =>
      rw [blacklist_order_self]
      exact .inl ⟨rfl, rfl⟩
  | unblacklist c hc =>
      rw [unblacklist_order_self]
      exact .inl ⟨rfl, rfl⟩
  | register c f he hnone hb hfree ht hf =>
      rw [register_order_self]
      exact .inr (.inl ⟨hf.outerJobChainPath, ht hk⟩)
  | registerBlacklisted c f he hnone hfree ht hf =>
      rw [blacklist_order_self, register_order_self]
      exact .inr (.inl ⟨hf.outerJobChainPath, ht hk⟩)
  | unregister c hc hb hn =>
      rw [unregister_order_self]
      exact .inr (.inr (.inl rfl))
  | reouter path f ho hf hkey ht =>
      rw [World.setOrder_order_self]
      obtain hnone | hnested := ht
      · exact .inr (.inr (.inl (hf.jobChain.trans hnone)))
      · obtain ⟨hn, hpath⟩ := hnested hk
        refine .inr (.inr (.inr ?_))
        rw [Order.isTouchedInCurrentJobChain, hf.outerJobChainPath, if_neg hpath]
        exact Bool.eq_false_iff.mpr fun ht => Bool.eq_false_iff.mp hn (hf.isNestedTouched ht)

/-- A move does not make an order count. -/
theorem Counted.of_move (hk : μ.counted) (h : Placed w) (hm : Move μ o w w')
    (hp : Counted w' c p) : Counted w c p := by
  by_cases hpo : p = o
  · subst hpo
    have hkeep := hm.keeping h
    have hignore := hkeep.ignoreMaxOrders.symm.trans hp.ignoreMaxOrders
    obtain ⟨hc, ho⟩ | ⟨ho, hno⟩ | hnone | hno := Move.marks hk h hm
    · exact ⟨hc.symm.trans hp.jobChain,
        isTouchedInCurrentJobChain_of_keeping hkeep ho hp.isTouched, hignore⟩
    · rw [isTouchedInCurrentJobChain_of_keeping hkeep ho hp.isTouched] at hno
      cases hno
    · have hc := hp.jobChain
      rw [hnone] at hc
      cases hc
    · have ht := hp.isTouched
      rw [hno] at ht
      cases ht
  · have hord := (hm.moves h).order p hpo
    exact ⟨hord ▸ hp.jobChain, hord ▸ hp.isTouched, hord ▸ hp.ignoreMaxOrders⟩

/-- No more than `m` orders of the job chain count: `l` is any list of such orders. -/
def AtMost (w : World) (c : ChainRef) (m : Nat) : Prop :=
  ∀ l : List OrderRef, l.Nodup → (∀ p ∈ l, Counted w c p) → l.length ≤ m

/-- One more order may count, if untouched orders are allowed. -/
def Room (allowed : Bool) (c : ChainRef) (w : World) : Prop :=
  allowed = true → ∀ m, (w.chain c).maxOrders = some m →
    ∀ l : List OrderRef, l.Nodup → (∀ p ∈ l, Counted w c p) → l.length < m

theorem Room.move {allowed : Bool} (hk : μ.counted) (h : Placed w) (hm : Move μ o w w')
    (hroom : Room allowed c w) : Room allowed c w' := fun ha m hmax l hl hall =>
  hroom ha m (((rest_of_move hm).maxOrders c).symm.trans hmax) l hl fun p hp =>
    (hall p hp).of_move hk h hm

/-- The orders that count and stand in the queues of a job chain. -/
def countedInQueues (w : World) (c : ChainRef) : List OrderRef :=
  ((w.chain c).nodes.filter fun n => n.type.isOrderQueue).flatMap fun n =>
    (w.queue ⟨c, n⟩).filter fun o => !(w.order o).ignoreMaxOrders
      && (w.order o).isTouchedInCurrentJobChain

theorem length_countedInQueues (w : World) (c : ChainRef) :
    (countedInQueues w c).length = w.numberOfTouchedOrders true c := by
  rw [countedInQueues, List.length_flatMap, World.numberOfTouchedOrders]
  refine congrArg List.sum (List.map_congr_left fun n _ => ?_)
  rw [World.queueTouched, List.countP_eq_length_filter]
  rfl

theorem mem_countedInQueues (h : Placed w) :
    p ∈ countedInQueues w c ↔ Counted w c p ∧ (w.order p).isInOrderQueue = true := by
  rw [countedInQueues, List.mem_flatMap]
  constructor
  · rintro ⟨n, -, hp⟩
    obtain ⟨hq, hmarks⟩ := List.mem_filter.mp hp
    have hq : inQueueOf (w.order p) c n.orderState = true := (mem_queue_iff h).mp hq
    obtain ⟨-, -, -, -, -, -, hc⟩ := chain_of_inQueueOf h hq
    rw [Bool.and_eq_true, Bool.not_eq_true'] at hmarks
    exact ⟨⟨hc, hmarks.2, hmarks.1⟩, (Bool.and_eq_true_iff.mp hq).1⟩
  · rintro ⟨⟨hc, ht, hi⟩, hq⟩
    obtain ⟨n, hn, hty⟩ := (h p).queued.mp hq
    obtain ⟨hc', hmem⟩ := (h p).nodeOfChain n hn
    cases hc.symm.trans hc'
    refine ⟨n.node, List.mem_filter.mpr ⟨hmem, hty⟩, List.mem_filter.mpr ⟨(h p).mem_queue hq hn, ?_⟩⟩
    rw [hi, ht]
    rfl

theorem nodup_countedInQueues (h : Placed w) (hn : (w.chain c).nodes.Nodup) :
    (countedInQueues w c).Nodup := by
  refine List.nodup_flatMap.mpr ⟨fun n _ => (nodup_queue h).filter _, ?_⟩
  refine (hn.filter _).imp_of_mem fun {m n} hm hn' hne p hpm hpn => hne ?_
  -- an order stands at one node, and a job chain has one node for a state
  have hqm := (mem_queue_iff h).mp (List.mem_filter.mp hpm).1
  have hqn := (mem_queue_iff h).mp (List.mem_filter.mp hpn).1
  obtain ⟨k, hk, -, hkm, -⟩ := chain_of_inQueueOf h hqm
  obtain ⟨k', hk', -, hkn, -⟩ := chain_of_inQueueOf h hqn
  cases hk.symm.trans hk'
  exact (w.chain c).statesUnique m (List.mem_filter.mp hm).1 n (List.mem_filter.mp hn').1
    (hkm.symm.trans hkn)

/-- If all orders that count are in queues, their number is known. -/
theorem room_of_queued (h : Placed w)
    (hq : ∀ p, Counted w c p → (w.order p).isInOrderQueue = true) :
    Room (w.untouchedIsAllowed c) c w := by
  intro ha m hm l hl hall
  have hless : w.numberOfTouchedOrders true c < m := by
    simp only [World.untouchedIsAllowed, World.isMaxOrdersReached, hm, Bool.not_eq_true',
      decide_eq_false_iff_not, Nat.not_le] at ha
    exact ha
  have hsub : l ⊆ countedInQueues w c := fun p hp =>
    (mem_countedInQueues h).mpr ⟨hall p hp, hq p (hall p hp)⟩
  exact Nat.lt_of_le_of_lt (length_countedInQueues w c ▸ (hl.subperm hsub).length_le) hless

/-! ## What the operations keep -/

/-- The orders are the same, and the job chains have the same nodes, maps, queues and limits. -/
structure SameOrders (w w' : World) : Prop where
  order : w'.order = w.order
  nodes : ∀ d, (w'.chain d).nodes = (w.chain d).nodes
  maxOrders : ∀ d, (w'.chain d).maxOrders = (w.chain d).maxOrders
  orderMap : ∀ d, (w'.chain d).orderMap = (w.chain d).orderMap
  blacklistMap : ∀ d, (w'.chain d).blacklistMap = (w.chain d).blacklistMap
  queue : ∀ d, (w'.chain d).queue = (w.chain d).queue

theorem sameOrders_setChain {g : Chain → Chain} (hnodes : (g (w.chain c)).nodes = (w.chain c).nodes)
    (hmax : (g (w.chain c)).maxOrders = (w.chain c).maxOrders)
    (hmap : (g (w.chain c)).orderMap = (w.chain c).orderMap)
    (hblack : (g (w.chain c)).blacklistMap = (w.chain c).blacklistMap)
    (hqueue : (g (w.chain c)).queue = (w.chain c).queue) : SameOrders w (w.setChain c g) := by
  refine ⟨rfl, fun d => ?_, fun d => ?_, fun d => ?_, fun d => ?_, fun d => ?_⟩
  all_goals
    by_cases hd : d = c
    · rw [hd, World.setChain_chain_self]
      assumption
    · rw [World.setChain_chain_of_ne hd]

/-- An assignment to the marks of an order does not make it count, or the limit allows it. -/
def MayMark (w : World) (o : OrderRef) (f : Order → Order) : Prop :=
  ∀ c, Counted (w.setOrder o f) c o → Counted w c o ∨
    ∀ m, (w.chain c).maxOrders = some m →
      ∀ l : List OrderRef, l.Nodup → (∀ p ∈ l, Counted w c p) → l.length < m

/-- A lasting predicate that everything else keeps as well. -/
structure Running (μ : Mode) (I : World → Prop) : Prop extends Lasting μ I where
  same : ∀ w w', I w → SameOrders w w' → I w'
  create : ∀ w o x, I w → (w.order o).jobChain = none → Unplaced x → I (w.setOrder o fun _ => x)
  load : ∀ w c ch, I w → (∀ p, (w.order p).jobChain ≠ some c) → Unused ch →
    I (w.setChain c fun _ => ch)
  cleared : ∀ w c, I w → (∀ p, (w.order p).jobChain = some c → (w.order p).isOnBlacklist = false) →
    I (w.setChain c fun ch => { ch with blacklistMap := ∅, state := .closed })
  mark : ∀ w o f, I w → SamePlace (w.order o) (f (w.order o)) → (μ.counted → MayMark w o f) →
    I (w.setOrder o f)

section Running

variable (R : Running μ I)
include R

/-! ### Taking an order -/

omit R in
theorem keeps_checkOrders (C : ∀ o, Closed μ o I) (ho : μ.outer) (n : NodeRef) :
    Keeps I (checkOrdersForReplacingOrRemoving n) := by
  refine Keeps.get_bind_any fun w => Keeps.forEach fun o _ => ?_
  exact Keeps.get_bind_any fun w => Keeps.onlyIf fun _ =>
    keeps_checkForReplacingOrRemoving (C o) ho

omit R in
/-- The order that is chosen obeys the limit. -/
theorem firstEligible_some {allowed : Bool} {time : Nat}
    (h : w.firstEligible allowed time l = some o) : o ∈ l ∧ w.obeysMaxOrders allowed o = true := by
  induction l with
  | nil => cases h
  | cons p l ih =>
      rw [World.firstEligible] at h
      split at h
      next hp =>
        cases h
        exact ⟨List.mem_cons_self .., (Bool.and_eq_true_iff.mp hp).2⟩
      next =>
        split at h
        · cases h
        · exact ⟨List.mem_cons_of_mem _ (ih h).1, (ih h).2⟩

/-- The order that a task may take: it counts already, or there is room for it. -/
structure Takable (allowed : Bool) (c : ChainRef) (o : OrderRef) (w : World) : Prop where
  jobChain : (w.order o).jobChain = some c
  obeys : (w.order o).ignoreMaxOrders = true ∨ (w.order o).isTouchedInCurrentJobChain = true
    ∨ allowed = true

/-- `touch` of such an order. -/
theorem keeps_touch {allowed : Bool} (hw : I w) (hroom : μ.counted → Room allowed c w)
    (htake : Takable allowed c o w) : I (final (touch o) w) := by
  refine R.mark w o (fun x => { x with
    isTouched := true
    isNestedTouched := if x.outerJobChainPath ≠ "" then true else x.isNestedTouched }) hw
    ⟨rfl, rfl, rfl, rfl, rfl⟩ fun hk d hd => ?_
  have hself := hd.jobChain
  have hignore := hd.ignoreMaxOrders
  rw [World.setOrder_order_self] at hself hignore
  cases htake.jobChain.symm.trans hself
  obtain hi | ht | ha := htake.obeys
  · exact absurd (hi.symm.trans hignore) nofun
  · exact .inl ⟨htake.jobChain, ht, hignore⟩
  · exact .inr fun m hm => hroom hk ha m hm

theorem occupyForTask_spec (allowed : Bool) (task : Task) :
    Triple (fun w => (I w ∧ (μ.counted → Room allowed c w)) ∧ Takable allowed c o w)
      (occupyForTask o task) (fun _ => I) fun _ => I := by
  have C : Closed μ o fun w => I w ∧ (μ.counted → Room allowed c w) :=
    (R.closed o).and fun _ _ h hroom hm hk => (hroom hk).move hk h hm
  refine Triple.get_bind_any fun w => ?_
  cases (w.order o).task with
  | some other => exact Triple.throw fun _ h => h.1.1
  | none =>
      refine Keeps.bind_triple (Keeps.require _ _) (fun _ _ h => h.1.1) fun _ => ?_
      refine Triple.bind (Q := fun _ w => (I w ∧ (μ.counted → Room allowed c w))
        ∧ Takable allowed c o w) (Triple.modify ?_) fun _ => ?_
      · rintro w ⟨hw, htake⟩
        refine ⟨C.move w _ hw (.write _ (.of_eq rfl) fun hs => absurd hs R.unsorted), ?_⟩
        constructor
        · rw [World.setOrder_order_self]
          exact htake.jobChain
        · rw [World.setOrder_order_self]
          exact htake.obeys
      · exact Triple.modify fun w h => keeps_touch R h.1.1 h.1.2 h.2

/-- `fetch_and_occupy_order`. -/
theorem fetch_spec (n : NodeRef) (task : Task) (time : Nat) :
    Triple (fun w => I w ∧ (μ.counted → Room (w.untouchedIsAllowed n.chain) n.chain w))
      (fetchAndOccupyOrder n task time) (fun _ => I) fun _ => I := by
  refine Triple.at_state fun w₀ hpre => Triple.get_bind_at ?_
  obtain ⟨hw₀, hroom₀⟩ := hpre
  have hE : ∀ (_ : Failure) w, I w ∧ (μ.counted → Room (w₀.untouchedIsAllowed n.chain) n.chain w)
      → I w := fun _ _ h => h.1
  have C : ∀ o, Closed μ o fun w =>
      I w ∧ (μ.counted → Room (w₀.untouchedIsAllowed n.chain) n.chain w) := fun o =>
    (R.closed o).and fun _ _ h hroom hm hk => (hroom hk).move hk h hm
  have hstart : ∀ w, w = w₀ → I w
      ∧ (μ.counted → Room (w₀.untouchedIsAllowed n.chain) n.chain w) := by
    rintro _ rfl
    exact ⟨hw₀, hroom₀⟩
  refine Triple.consequence ?_ hstart (fun _ _ h => h) fun _ _ h => h
  refine Triple.ite (fun _ => ?_) fun _ => Triple.pure fun _ h => h.1
  refine Keeps.bind_triple (keeps_checkOrders C R.outer n) hE fun _ => ?_
  refine Triple.bind (Q := fun chosen w =>
    (I w ∧ (μ.counted → Room (w₀.untouchedIsAllowed n.chain) n.chain w))
      ∧ ∀ o, chosen = some o → Takable (w₀.untouchedIsAllowed n.chain) n.chain o w) ?_
    fun chosen => ?_
  · refine Triple.at_state fun w hw => Triple.get_bind_at ?_
    cases hfirst : w.firstEligible (w₀.untouchedIsAllowed n.chain) time (w.queue n) with
    | none =>
        rintro _ rfl
        exact ⟨hw, nofun⟩
    | some o =>
        obtain ⟨hmem, hobeys⟩ := firstEligible_some hfirst
        rintro w rfl
        have hmove : Move μ o w (w.setOrder o fun x => { x with setback := 0 }) :=
          .write _ (.of_eq rfl) fun hs => absurd hs R.unsorted
        refine ⟨(C o).move w _ hw hmove, fun p hp => ?_⟩
        cases hp
        obtain ⟨m, hm, hmc, -, -, -, hc⟩ := chain_of_inQueueOf ((R.closed o).placed _ hw.1)
          ((mem_queue_iff ((R.closed o).placed _ hw.1)).mp hmem)
        constructor
        · rw [World.setOrder_order_self]
          exact hc
        · rw [World.setOrder_order_self]
          simp only [World.obeysMaxOrders, Bool.or_eq_true, Bool.and_eq_true] at hobeys
          exact hobeys.imp id fun h => h.2
  · cases chosen with
    | none => exact Triple.pure fun _ h => h.1.1
    | some o =>
        have hspec := occupyForTask_spec R (o := o) (c := n.chain) (w₀.untouchedIsAllowed n.chain) task
        refine Triple.bind (hspec.consequence (fun _ h => ⟨h.1, h.2 o rfl⟩) (fun _ _ h => h)
          fun _ _ h => h) fun _ => ?_
        exact Keeps.bind_triple (keeps_change R.toLasting fun _ => rfl) (fun _ _ h => h)
          fun _ => Triple.pure fun _ h => h

/-! ### Skipping a node -/

omit R in
/-- A loop over different orders, of which each round changes its own only. -/
theorem forEach_own {g : OrderRef → Method Unit} {P : Order → Prop} (hl : l.Nodup) (hw : I w)
    (hP : ∀ o ∈ l, P (w.order o))
    (h : ∀ o ∈ l, ∀ v, I v → P (v.order o) →
      I (final (g o) v) ∧ ∀ p, p ≠ o → (final (g o) v).order p = v.order p) :
    I (final (forEach g l) w) := by
  induction l generalizing w with
  | nil => exact hw
  | cons o l ih =>
      obtain ⟨hnot, hl⟩ := List.nodup_cons.mp hl
      obtain ⟨hv, hothers⟩ := h o (List.mem_cons_self ..) w hw (hP o (List.mem_cons_self ..))
      rw [forEach_cons]
      show I (final (g o >>= fun _ => forEach g l) w)
      rw [final, bind_run]
      rcases hrun : g o w with ⟨res, v⟩
      rw [final, hrun] at hv hothers
      cases res with
      | error e => exact hv
      | ok u =>
          refine ih hl hv (fun p hp => ?_) fun p hp => h p (List.mem_cons_of_mem _ hp)
          rw [hothers p fun hpo => hnot (hpo ▸ hp)]
          exact hP p (List.mem_cons_of_mem _ hp)

theorem keeps_reinsertHomeless (depth : Nat) (c : ChainRef) (o : OrderRef) :
    Keeps I (reinsertHomeless depth c o) := by
  refine Keeps.get_bind_any fun w => Keeps.onlyIf fun _ => ?_
  refine Keeps.bind (keeps_change R.toLasting fun _ => rfl) fun _ => ?_
  cases (w.chain c).referencedNodeFromState (w.order o).initialState with
  | error e => exact Keeps.pure ()
  | ok node =>
      exact Keeps.onlyIf fun _ =>
        keepsClosed_setState R.entering R.outer depth I (R.closed o) _

/-- The orders of the queue that are in no task go to another node. -/
theorem keeps_leaveQueue (depth : Nat) (n : NodeRef) (state : Option String) (hw : I w)
    (keep : OrderRef → Bool) :
    I (final (forEach (fun o => do
      write o fun x => { x with isSuccessState := true }
      setState1 depth o state) ((w.queue n).filter keep)) w) := by
  have hp := (R.closed 0).placed w hw
  refine forEach_own (P := fun x => μ.apart → x.isOnBlacklist = false)
    ((nodup_queue hp).filter _) hw ?_ ?_
  · intro o ho ha
    refine R.apart ha w o hw ?_
    have hq := (mem_queue_iff hp).mp (List.mem_filter.mp ho).1
    exact (Bool.and_eq_true_iff.mp hq).1
  · intro o _ v hv hb
    have C := (R.closed o).frame v
    have hspec : Triple (fun w => (I w ∧ (∀ p, p ≠ o → w.order p = v.order p)
          ∧ ∀ c, (w.chain c).toJobChain = (v.chain c).toJobChain)
          ∧ (μ.apart → (w.order o).isOnBlacklist = false))
        (do
          write o fun x => { x with isSuccessState := true }
          setState1 depth o state) (fun _ w => I w ∧ (∀ p, p ≠ o → w.order p = v.order p)
          ∧ ∀ c, (w.chain c).toJobChain = (v.chain c).toJobChain) (fun _ w => I w
          ∧ (∀ p, p ≠ o → w.order p = v.order p)
          ∧ ∀ c, (w.chain c).toJobChain = (v.chain c).toJobChain) := by
      refine Triple.bind (Triple.modify ?_) fun _ =>
        setState1_spec R.entering R.outer depth C state
      rintro w ⟨hw, hb⟩
      refine ⟨C.move w _ hw (.write _ (.of_eq rfl) fun hs => absurd hs R.unsorted), ?_⟩
      rw [World.setOrder_order_self]
      exact hb
    have hfin := hspec.final ⟨⟨hv, fun _ _ => rfl, fun _ => rfl⟩, hb⟩
    exact ⟨hfin.1, hfin.2.1⟩

/-- `set_action`. -/
theorem keeps_setAction (depth : Nat) (n : NodeRef) (action : Action) :
    Keeps I (OrderStep.setAction depth n action) := by
  refine Keeps.get_bind_any fun w => Keeps.bind ?_ fun ok => ?_
  · intro w hw
    refine R.same w _ hw ?_
    show SameOrders w (w.setChain n.chain fun ch =>
      { ch with toJobChain := (final (JobChainNode.setAction n.node action)
        (w.chain n.chain).toJobChain) })
    rw [setAction_final]
    exact sameOrders_setChain rfl rfl rfl rfl rfl
  refine Keeps.bind (Keeps.onlyIf fun _ => ?_) fun _ => Keeps.pure ok
  refine Keeps.bind (Keeps.onlyIf fun _ => Keeps.forEach fun o _ =>
    keeps_reinsertHomeless R depth n.chain o) fun _ => Keeps.onlyIf fun _ => ?_
  refine Keeps.get_bind fun w hw => ?_
  cases hnext : (w.chain n.chain).referencedNodeFromState (some n.node.orderState) with
  | error e =>
      simp only [final, bind_run, ofExcept_run]
      exact hw
  | ok next =>
      simp only [final, bind_run, ofExcept_run]
      exact keeps_leaveQueue R depth n (some next.orderState) hw _

/-! ### Closing and replacing a job chain -/

omit R in
theorem final_bind_ok {α β : Type} {m : Method α} {k : α → Method β} {a : α}
    (h : m w = (.ok a, w')) : final (m >>= k) w = final (k a) w' := by
  simp only [final, bind_run, h]

omit R in
theorem final_bind_keeps {α β : Type} {m : Method α} {k : α → Method β} (h : I (final m w))
    (hk : ∀ a, Keeps I (k a)) : I (final (m >>= k) w) := by
  simp only [final, bind_run]
  rcases hrun : m w with ⟨res, v⟩
  rw [final, hrun] at h
  cases res with
  | ok a => exact hk a v h
  | error e => exact h

theorem keeps_removeAllPendingOrders (c : ChainRef) (leaveInDatabase : Bool)
    (l : List OrderRef) :
    Keeps I (ChainReplacement.removeAllPendingOrders c leaveInDatabase l) := by
  refine Keeps.forEach fun o _ => Keeps.get_bind_any fun w => Keeps.onlyIf fun _ => ?_
  refine Keeps.ite (fun _ => Keeps.of_triple ?_) fun _ => keeps_removeFromJobChainStack R.toLasting
  exact (removeFromChain_spec (R.closed o) c).consequence (fun _ h => h) (fun _ _ h => h.1)
    fun _ _ h => h

/-- Only orders in tasks stay in the job chain, as they are: `l` are the orders to come. -/
theorem removeAllPendingOrders_spec (w₀ : World) (c : ChainRef) (l : List OrderRef) :
    Triple (fun w => I w ∧ ∀ p, (w.order p).jobChain = some c → w.order p = w₀.order p
        ∧ (p ∈ l ∨ (w₀.order p).task.isSome = true))
      (ChainReplacement.removeAllPendingOrders c true l)
      (fun _ w => I w ∧ ∀ p, (w.order p).jobChain = some c → w.order p = w₀.order p
        ∧ (w₀.order p).task.isSome = true) fun _ => I := by
  induction l with
  | nil =>
      refine Triple.pure fun w h => ⟨h.1, fun p hp => ⟨(h.2 p hp).1, ?_⟩⟩
      exact (h.2 p hp).2.resolve_left List.not_mem_nil
  | cons o l ih =>
      refine Triple.bind ?_ fun _ => ih
      refine Triple.at_state fun w hpre => Triple.get_bind_at ?_
      obtain ⟨hw, hrest⟩ := hpre
      refine Triple.onlyIf (fun _ => ?_) fun hbusy => ?_
      · refine (removeFromChain_spec ((R.closed o).frame w) c).consequence ?_ ?_ fun _ _ h => h.1
        · rintro _ rfl
          exact ⟨hw, fun _ _ => rfl, fun _ => rfl⟩
        · rintro _ v ⟨⟨hv, hothers, -⟩, hnone⟩
          refine ⟨hv, fun p hp => ?_⟩
          have hpo : p ≠ o := by
            rintro rfl
            rw [hnone] at hp
            cases hp
          rw [hothers p hpo] at hp ⊢
          exact ⟨(hrest p hp).1, (hrest p hp).2.imp_left fun h => (List.mem_cons.mp h).resolve_left hpo⟩
      · rintro _ rfl
        refine ⟨hw, fun p hp => ⟨(hrest p hp).1, ?_⟩⟩
        obtain hmem | ht := (hrest p hp).2
        · obtain rfl | hmem := List.mem_cons.mp hmem
          · rw [← (hrest p hp).1]
            exact .inr (Option.isSome_iff_ne_none.mpr fun h => hbusy (by rw [h]; rfl))
          · exact .inl hmem
        · exact .inr ht

/-- `close` of a job chain. -/
theorem keeps_closeJobChain {visit : List OrderRef → List OrderRef}
    (hvisit : ∀ l, (visit l).Perm l) (hbusy : NoBusyOnBlacklist w c) (hw : I w) :
    I (final (ChainReplacement.closeJobChain visit c) w) := by
  have hspec : Triple (fun v => v = w) (ChainReplacement.closeJobChain visit c) (fun _ => I)
      fun _ => I := by
    refine Triple.get_bind_at ?_
    refine Triple.bind ((removeAllPendingOrders_spec R w c (visit (ordersOf w c))).consequence ?_
      (fun _ _ h => h) fun _ _ h => h) fun _ => Triple.modify fun v h => ?_
    · rintro _ rfl
      refine ⟨hw, fun p hp => ⟨rfl, .inl ((hvisit _).mem_iff.mpr ?_)⟩⟩
      exact (mem_ordersOf ((R.closed 0).placed _ hw)).mpr hp
    · refine R.cleared v c h.1 fun p hp => ?_
      obtain ⟨heq, ht⟩ := h.2 p hp
      rw [heq] at hp ⊢
      exact hbusy p hp ht
  exact hspec.final rfl

theorem keeps_removeStandingOrders (c : ChainRef) : Keeps I (removeStandingOrders c) := by
  refine Keeps.get_bind_any fun w => Keeps.forEach fun o _ => ?_
  refine Keeps.get_bind_any fun w => Keeps.onlyIf fun _ => Keeps.of_triple ?_
  exact (removeFromChain_spec (R.closed o) c).consequence (fun _ h => h) (fun _ _ h => h.1)
    fun _ _ h => h

/-- `on_replace_now`: touched orders go to the new job chain, whose limit nobody asks. -/
theorem keeps_onReplaceNow {visit : List OrderRef → List OrderRef} (hk : ¬μ.counted)
    (hvisit : ∀ l, (visit l).Perm l) (hr : Replaceable w c r) (hcan : canBeReplacedNow w c = true)
    (hbusy : NoBusyOnBlacklist w c) (hw : I w) : I (final (onReplaceNow visit c r) w) := by
  have hloop : I (final (forEach (takeOrders c r) (w.chain r).nodes) w) :=
    Keeps.forEach (fun m _ => keeps_takeOrders R.closed R.entering hk c r m) w hw
  have hstart : final (onReplaceNow visit c r) w = final (do
      forEach (takeOrders c r) (w.chain r).nodes
      onlyIf ((w.chain c).containsNestedJobChains = false) (removeStandingOrders c)
      ChainReplacement.closeJobChain visit c
      onlyIf ((w.chain c).containsNestedJobChains = false) do
        let w ← get
        forEach (fun o => do
          let w ← get
          onlyIf ((w.order o).fileBasedJobChainPath = (w.chain c).path)
            (require (w.order o).jobChain.isNone (.assertion "!o->_job_chain"))) w.standingOrders)
      w := by
    simp only [final, onReplaceNow, bind_run, get_run, require_run, hcan, if_true]
  rw [hstart]
  by_cases hfit : ∀ p, isTaken w c r p = true → Fits w r p
  · obtain ⟨v₁, hrun₁, h₁⟩ := handOver_run hr.placed hr.noSpace (w.chain r).nodes hr.different
      (handed_nil hr) hfit
    obtain ⟨v₂, hrun₂, h₂⟩ := removeFiles_run hr hfit h₁.leaving
    rw [final, hrun₁] at hloop
    have hfiles : I (final (Exec.onlyIf ((w.chain c).containsNestedJobChains = false)
        (removeStandingOrders c)) v₁) :=
      Keeps.onlyIf (fun _ => keeps_removeStandingOrders R c) v₁ hloop
    rw [final, hrun₂] at hfiles
    -- the orders that are still in `c` are as they were
    have hbusy₂ : NoBusyOnBlacklist v₂ c := fun p hp ht => by
      obtain ⟨heq, -, -⟩ := h₂.stays hr hfit hp
      rw [heq] at hp ht ⊢
      exact hbusy p hp ht
    rw [final_bind_ok hrun₁, final_bind_ok hrun₂]
    refine final_bind_keeps (keeps_closeJobChain R hvisit hbusy₂ hfiles) fun _ => ?_
    refine Keeps.onlyIf fun _ => Keeps.get_bind_any fun w => Keeps.forEach fun o _ => ?_
    exact Keeps.get_bind_any fun w => Keeps.onlyIf fun _ => Keeps.require _ _
  · obtain ⟨p, hp⟩ := not_forall.mp hfit
    obtain ⟨ht, hno⟩ := Classical.not_imp.mp hp
    obtain ⟨o, e, v, hrun, -⟩ := handOver_fails hr.placed hr.noSpace (w.chain r).nodes
      hr.different (handed_nil hr) (fun p hp => by cases hp) ⟨p, ht, hno⟩
    rw [final, hrun] at hloop
    simp only [final, bind_run, hrun]
    exact hloop

/-! ### Any operation -/

theorem keeps_requestOrder (n : NodeRef) (time : Nat) : Keeps I (OrderQueue.requestOrder n time) := by
  refine Keeps.get_bind_any fun w₀ => Keeps.bind (Keeps.get_bind_any fun w => ?_) fun _ =>
    Keeps.pure _
  cases w.firstEligible (w₀.untouchedIsAllowed n.chain) time (w.queue n) with
  | none => exact Keeps.pure _
  | some o => exact Keeps.bind (keeps_change R.toLasting fun _ => rfl) fun _ => Keeps.pure _

/-- Every operation keeps what its steps keep, whether it fails or not. -/
theorem keeps_perform (depth : Nat) (op : Op) (hw : I w)
    (hcan : Possible w op) (hmay : Obeys μ w op) : I (perform depth w op) := by
  cases op with
  | newOrder o x => exact R.create w o x hw hcan.1 hcan.2
  | addOrder o path replace =>
      exact (executeAddOrder_spec R.toLasting path replace).final ⟨hw, hmay⟩
  | modifyOrder path id m => exact keeps_executeModifyOrder R.toLasting depth path id m w hw
  | removeOrder path id => exact keeps_executeRemoveOrder R.toLasting path id w hw
  | call o call => exact (call_spec R.toLasting depth call).final ⟨hw, hmay⟩
  | ignoreMaxOrders o b =>
      refine R.mark w o (fun x => { x with ignoreMaxOrders := b }) hw ⟨rfl, rfl, rfl, rfl, rfl⟩
        fun hk c hc => .inl ?_
      have hb := hc.ignoreMaxOrders
      have ht := hc.isTouched
      rw [World.setOrder_order_self] at hb ht
      exact absurd (ht.symm.trans (hmay hk hb)) nofun
  | activate o => exact (onActivate_spec R.toLasting).final ⟨hw, hmay⟩
  | fileChanged o change => exact keeps_onFileChanged R.toLasting change w hw
  | blacklistedFileRemoved o => exact keeps_onBlacklistedFileRemoved R.toLasting w hw
  | scheduleChanged o schedule => exact keeps_setSchedule R.toLasting schedule w hw
  | requestOrder n time => exact keeps_requestOrder R n time w hw
  | fetch n task time =>
      exact (fetch_spec R n task time).final
        ⟨hw, fun hk => room_of_queued ((R.closed 0).placed w hw) (hmay hk)⟩
  | postprocessing o transition =>
      exact (postprocessing_spec (R.loosened o) R.entering R.outer depth transition).final ⟨hw, hmay⟩
  | processingError o => exact (processingError_spec R.toLasting depth .keep).final ⟨hw, hmay⟩
  | setAction n action => exact keeps_setAction R depth n action w hw
  | loadJobChain c ch => exact R.load w c ch hw hcan.1 hcan.2
  | changeJobChain c settings => exact R.same w _ hw (sameOrders_setChain rfl rfl rfl rfl rfl)
  | removeAllPendingOrders c leaveInDatabase visit =>
      exact keeps_removeAllPendingOrders R c leaveInDatabase _ w hw
  | closeJobChain c visit => exact keeps_closeJobChain R hcan.1 hcan.2 hw
  | replaceJobChain c r visit =>
      obtain ⟨hvisit, hbusy, hr, hcan⟩ := hcan
      exact keeps_onReplaceNow R hmay hvisit hr hcan hbusy hw
  | folders jobChains standingOrders =>
      exact R.same w _ hw ⟨rfl, fun _ => rfl, fun _ => rfl, fun _ => rfl, fun _ => rfl, fun _ => rfl⟩
  | elapse time =>
      exact R.same w _ hw ⟨rfl, fun _ => rfl, fun _ => rfl, fun _ => rfl, fun _ => rfl, fun _ => rfl⟩

end Running

/-! ## Orders are placed -/

theorem Placed.sameOrders (h : Placed w) (hs : SameOrders w w') : Placed w' := by
  intro p
  have ho : w'.order p = w.order p := congrFun hs.order p
  refine ⟨fun d id => ?_, fun d id => ?_, fun d s => ?_, fun n hn => ?_, ?_⟩
  · rw [hs.orderMap, ho]
    exact (h p).inMap d id
  · rw [hs.blacklistMap, ho]
    exact (h p).onBlacklist d id
  · rw [hs.queue, ho]
    exact (h p).inQueue d s
  · rw [ho] at hn ⊢
    rw [hs.nodes]
    exact (h p).nodeOfChain n hn
  · rw [ho]
    exact (h p).queued

theorem Placed.create {x : Order} (h : Placed w) (hnone : (w.order o).jobChain = none)
    (hx : Unplaced x) : Placed (w.setOrder o fun _ => x) := by
  obtain ⟨hnode, hq⟩ := (h o).unqueued_of_unplaced hnone
  exact h.unplaced hnone hx.jobChain (hx.jobChainNode.trans hnode.symm)
    (hx.isInOrderQueue.trans hq.symm)

theorem Placed.load {ch : Chain} (h : Placed w) (hno : ∀ p, (w.order p).jobChain ≠ some c)
    (hch : Unused ch) : Placed (w.setChain c fun _ => ch) := by
  intro p
  refine ⟨fun d id => ?_, fun d id => ?_, fun d s => ?_, fun n hn => ?_, (h p).queued⟩
  · by_cases hd : d = c
    · rw [hd, World.setChain_chain_self, hch.orderMap]
      exact ⟨nofun, fun hc => absurd hc.1 (hno p)⟩
    · rw [World.setChain_chain_of_ne hd]
      exact (h p).inMap d id
  · by_cases hd : d = c
    · rw [hd, World.setChain_chain_self, hch.blacklistMap]
      exact ⟨nofun, fun hc => absurd hc.1 (hno p)⟩
    · rw [World.setChain_chain_of_ne hd]
      exact (h p).onBlacklist d id
  · by_cases hd : d = c
    · rw [hd, World.setChain_chain_self, hch.queue]
      refine (if_neg fun hq => ?_).symm
      obtain ⟨-, -, -, -, -, -, hc⟩ := chain_of_inQueueOf h hq
      exact hno p hc
    · rw [World.setChain_chain_of_ne hd]
      exact (h p).inQueue d s
  · obtain ⟨hc, hmem⟩ := (h p).nodeOfChain n hn
    refine ⟨hc, ?_⟩
    have hd : n.chain ≠ c := fun hd => hno p (hc.trans (congrArg some hd))
    rw [World.setChain_chain_of_ne hd]
    exact hmem

theorem Placed.cleared (h : Placed w)
    (hno : ∀ p, (w.order p).jobChain = some c → (w.order p).isOnBlacklist = false) :
    Placed (w.setChain c fun ch => { ch with blacklistMap := ∅, state := .closed }) :=
  placed_setChain h rfl rfl rfl fun p _ =>
    ⟨nofun, fun ⟨hc, _, hb⟩ => absurd (hb.symm.trans (hno p hc)) nofun⟩

theorem Placed.start (h : Start w) : Placed w := by
  intro p
  have hx := h.orders p
  refine ⟨fun d id => ?_, fun d id => ?_, fun d s => ?_, fun n hn => ?_, ?_⟩
  · rw [(h.chains d).orderMap, hx.jobChain]
    exact ⟨nofun, fun hc => nomatch hc.1⟩
  · rw [(h.chains d).blacklistMap, hx.jobChain]
    exact ⟨nofun, fun hc => nomatch hc.1⟩
  · rw [(h.chains d).queue, inQueueOf_of_not_queued hx.isInOrderQueue]
    rfl
  · rw [hx.jobChainNode] at hn
    cases hn
  · rw [hx.isInOrderQueue, hx.jobChainNode]
    exact ⟨nofun, fun ⟨_, hn, _⟩ => nomatch hn⟩

theorem running_placed : Running anyMove Placed where
  closed := closed_placed anyMove
  unsorted := id
  entering := True.intro
  outer := True.intro
  apart := False.elim
  restart o := ⟨anyMove, Placed, closed_placed anyMove o, fun _ h => h, True.intro, True.intro, id,
    fun _ h _ _ => h⟩
  same _ _ h hs := Placed.sameOrders h hs
  create _ _ _ h hnone hx := Placed.create h hnone hx
  load _ _ _ h hno hch := Placed.load h hno hch
  cleared _ _ h hno := Placed.cleared h hno
  mark _ _ _ h hf _ := h.same hf

/-- Job chains that let one order in. -/
def sampleLimited : World where
  order := fun _ =>
    { id := "order", state := some "work", schedule := { isDefined := true, firstStart := 0 } }
  chain := fun _ => { sampleChain with maxOrders := some 1 }
  jobChainOrNull := fun _ => none
  standingOrders := []
  now := 0

theorem sampleLimited_start : Start sampleLimited where
  orders _ := ⟨rfl, rfl, rfl⟩
  chains _ := ⟨show sampleChain.nodes.Nodup by decide, rfl, rfl, fun _ => rfl⟩

def sampleAdd : Op := .call 0 (.addOrder 0)

def sampleFetch : Op := .fetch ⟨0, sampleWork⟩ (sampleTask 1) 0

def sampleStep : Op := .postprocessing 0 .success

def sampleAdded : World := perform 0 sampleLimited sampleAdd

def sampleFetched : World := perform 0 sampleAdded sampleFetch

def sampleStepped : World := perform 1 sampleFetched sampleStep

theorem sampleAdded_step : Step sampleLimited sampleAdd sampleAdded := ⟨0, rfl⟩

theorem sampleFetched_step : Step sampleAdded sampleFetch sampleFetched := ⟨0, rfl⟩

theorem sampleStepped_step : Step sampleFetched sampleStep sampleStepped := ⟨1, rfl⟩

/-- The moves that put no order on a blacklist while it stands in a queue. -/
def apartMove : Mode := ⟨False, True, False, True, True⟩

/-- No order is in a queue and on a blacklist. -/
structure Apart (w : World) : Prop where
  placed : Placed w
  apart : ∀ o, (w.order o).isInOrderQueue = true → (w.order o).isOnBlacklist = false

theorem closed_apart (o : OrderRef) : Closed apartMove o Apart where
  placed _ h := h.placed
  move w w' h hm := by
    refine ⟨hm.placed h.placed, fun p hq => ?_⟩
    by_cases hpo : p = o
    · subst hpo
      cases hm with
      | write f hf hkey =>
          rw [World.setOrder_order_self, hf.isInOrderQueue] at hq
          rw [World.setOrder_order_self, hf.isOnBlacklist]
          exact h.apart p hq
      | rekey f hf =>
          rw [rekeyed_order_self (h.placed p) hf.toSamePlace] at hq ⊢
          rw [hf.isInOrderQueue] at hq
          rw [hf.isOnBlacklist]
          exact h.apart p hq
      | leave n hq' hn =>
          rw [World.setOrder_order_self, dequeue_order_self] at hq
          cases hq
      | settle t f hq' ht hf =>
          rw [World.setOrder_order_self, hf.isInOrderQueue] at hq
          exact absurd (hq.symm.trans hq') nofun
      | arrive n f he hq' hc hn hty hb hf =>
          rw [enqueue_order_self, World.setOrder_order_self]
          exact hf.isOnBlacklist.trans (hb True.intro)
      | blacklist c hc hq' =>
          rw [blacklist_order_self] at hq
          exact absurd (hq.symm.trans (hq' True.intro)) nofun
      | unblacklist c hc =>
          rw [unblacklist_order_self]
      | register c f he hnone hb hfree ht hf =>
          rw [register_order_self, hf.isOnBlacklist]
          exact hb
      | registerBlacklisted c f he hnone hfree ht hf =>
          rw [blacklist_order_self, register_order_self, hf.isInOrderQueue] at hq
          exact absurd (hq.symm.trans ((h.placed p).unqueued_of_unplaced hnone).2) nofun
      | unregister c hc hb hn =>
          rw [unregister_order_self]
          exact hb
      | reouter path f ho hf hkey ht =>
          rw [World.setOrder_order_self, hf.isInOrderQueue] at hq
          rw [World.setOrder_order_self, hf.isOnBlacklist]
          exact h.apart p hq
    · have hord := (hm.moves h.placed).order p hpo
      rw [hord] at hq ⊢
      exact h.apart p hq

theorem Apart.setOrder (h : Apart w) (hp : Placed (w.setOrder o f))
    (hf : (f (w.order o)).isInOrderQueue = true → (f (w.order o)).isOnBlacklist = false) :
    Apart (w.setOrder o f) := by
  refine ⟨hp, fun p hq => ?_⟩
  by_cases hpo : p = o
  · rw [hpo, World.setOrder_order_self] at hq ⊢
    exact hf hq
  · rw [World.setOrder_order_of_ne hpo] at hq ⊢
    exact h.apart p hq

theorem running_apart : Running apartMove Apart where
  closed := closed_apart
  unsorted := id
  entering := True.intro
  outer := True.intro
  apart _ _ o h := h.apart o
  restart o := ⟨apartMove, Apart, closed_apart o, fun _ h => h, True.intro, True.intro, id,
    fun _ h _ _ => h⟩
  same _ _ h hs := ⟨Placed.sameOrders h.placed hs, fun o => by rw [hs.order]; exact h.apart o⟩
  create _ _ _ h hnone hx := h.setOrder (Placed.create h.placed hnone hx) fun hq =>
    absurd (hq.symm.trans hx.isInOrderQueue) nofun
  load _ _ _ h hno hch := ⟨Placed.load h.placed hno hch, h.apart⟩
  cleared _ _ h hno := ⟨Placed.cleared h.placed hno, h.apart⟩
  mark w o f h hf _ := h.setOrder (h.placed.same hf) fun hq => by
    rw [hf.isOnBlacklist]
    exact h.apart o (hf.isInOrderQueue.symm.trans hq)

theorem Apart.start (h : Start w) : Apart w :=
  ⟨Placed.start h, fun p hq => absurd (hq.symm.trans (h.orders p).isInOrderQueue) nofun⟩

/-- The moves that touch no order in its job chain. -/
def countedMove : Mode := ⟨False, False, True, True, True⟩

/-- The orders of a job chain that count, in queues or not, are within its limit. -/
structure WithinLimits (w : World) : Prop where
  placed : Placed w
  nodes : ∀ c, (w.chain c).nodes.Nodup
  limit : ∀ c m, (w.chain c).maxOrders = some m → AtMost w c m

/-- The limits hold for the orders other than `o`. -/
structure WithinLimitsBut (o : OrderRef) (w : World) : Prop where
  placed : Placed w
  nodes : ∀ c, (w.chain c).nodes.Nodup
  limit : ∀ c m, (w.chain c).maxOrders = some m → ∀ l : List OrderRef, l.Nodup → o ∉ l →
    (∀ p ∈ l, Counted w c p) → l.length ≤ m

theorem closed_withinLimits (o : OrderRef) : Closed countedMove o WithinLimits where
  placed _ h := h.placed
  move w w' h hm :=
    ⟨hm.placed h.placed, fun c => by rw [(hm.moves h.placed).jobChain c]; exact h.nodes c,
      fun c m hmax l hl hall => h.limit c m (((rest_of_move hm).maxOrders c).symm.trans hmax) l hl
        fun p hp => (hall p hp).of_move True.intro h.placed hm⟩

theorem closed_withinLimitsBut (o : OrderRef) : Closed anyMove o (WithinLimitsBut o) where
  placed _ h := h.placed
  move w w' h hm := by
    refine ⟨hm.placed h.placed, fun c => by rw [(hm.moves h.placed).jobChain c]; exact h.nodes c,
      fun c m hmax l hl hno hall => ?_⟩
    refine h.limit c m (((rest_of_move hm).maxOrders c).symm.trans hmax) l hl hno fun p hp => ?_
    have hord := (hm.moves h.placed).order p fun hpo => hno (hpo ▸ hp)
    exact ⟨hord ▸ (hall p hp).jobChain, hord ▸ (hall p hp).isTouched,
      hord ▸ (hall p hp).ignoreMaxOrders⟩

theorem Counted.congr (hc : Counted w' c p) (ho : w'.order p = w.order p) : Counted w c p :=
  ⟨ho ▸ hc.jobChain, ho ▸ hc.isTouched, ho ▸ hc.ignoreMaxOrders⟩

theorem running_withinLimits : Running countedMove WithinLimits where
  closed := closed_withinLimits
  unsorted := id
  entering := True.intro
  outer := True.intro
  apart := False.elim
  restart o := by
    refine ⟨anyMove, WithinLimitsBut o, closed_withinLimitsBut o, fun w h => ⟨h.placed, h.nodes,
      fun c m hm l hl _ hall => h.limit c m hm l hl hall⟩, True.intro, True.intro, id, ?_⟩
    intro w h ht hn
    refine ⟨h.placed, h.nodes, fun c m hm l hl hall => h.limit c m hm l hl (fun ho => ?_) hall⟩
    have htouched := (hall o ho).isTouched
    rw [Order.isTouchedInCurrentJobChain, ht, hn, ite_self] at htouched
    cases htouched
  same w w' h hs := by
    refine ⟨Placed.sameOrders h.placed hs, fun c => by rw [hs.nodes]; exact h.nodes c,
      fun c m hm l hl hall => ?_⟩
    exact h.limit c m ((hs.maxOrders c).symm.trans hm) l hl fun p hp =>
      (hall p hp).congr (congrFun hs.order p)
  create w o x h hnone hx := by
    refine ⟨Placed.create h.placed hnone hx, h.nodes, fun c m hm l hl hall => ?_⟩
    refine h.limit c m hm l hl fun p hp => ?_
    by_cases hpo : p = o
    · have hc := (hall p hp).jobChain
      rw [hpo, World.setOrder_order_self, hx.jobChain] at hc
      cases hc
    · exact (hall p hp).congr (World.setOrder_order_of_ne hpo)
  load w c ch h hno hch := by
    refine ⟨Placed.load h.placed hno hch, fun d => ?_, fun d m hm l hl hall => ?_⟩
    · by_cases hd : d = c
      · rw [hd, World.setChain_chain_self]
        exact hch.nodes
      · rw [World.setChain_chain_of_ne hd]
        exact h.nodes d
    · by_cases hd : d = c
      · -- the job chain has no orders
        obtain rfl : l = [] := List.eq_nil_iff_forall_not_mem.mpr fun p hp =>
          hno p (hd ▸ (hall p hp).jobChain)
        exact Nat.zero_le m
      · rw [World.setChain_chain_of_ne hd] at hm
        exact h.limit d m hm l hl fun p hp => (hall p hp).congr rfl
  cleared w c h hno := by
    refine ⟨Placed.cleared h.placed hno, fun d => ?_, fun d m hm l hl hall => ?_⟩
    · by_cases hd : d = c
      · rw [hd, World.setChain_chain_self]
        exact h.nodes c
      · rw [World.setChain_chain_of_ne hd]
        exact h.nodes d
    · refine h.limit d m ?_ l hl fun p hp => (hall p hp).congr rfl
      by_cases hd : d = c
      · rw [hd, World.setChain_chain_self] at hm
        exact hd ▸ hm
      · rw [World.setChain_chain_of_ne hd] at hm
        exact hm
  mark w o f h hf hmay := by
    refine ⟨h.placed.same hf, h.nodes, fun c m hm l hl hall => ?_⟩
    have hothers : ∀ p ∈ l, p ≠ o → Counted w c p := fun p hp hpo =>
      (hall p hp).congr (World.setOrder_order_of_ne hpo)
    by_cases ho : o ∈ l
    · obtain hc | hroom := hmay True.intro c (hall o ho)
      · refine h.limit c m hm l hl fun p hp => ?_
        by_cases hpo : p = o
        · exact hpo ▸ hc
        · exact hothers p hp hpo
      · -- without `o` there is room for one more
        have hless := hroom m hm (l.erase o) (hl.erase o) fun p hp =>
          hothers p (List.mem_of_mem_erase hp) ((hl.mem_erase_iff.mp hp).1)
        rw [List.length_erase_of_mem ho] at hless
        omega
    · exact h.limit c m hm l hl fun p hp => hothers p hp fun hpo => ho (hpo ▸ hp)

theorem WithinLimits.start (h : Start w) : WithinLimits w := by
  refine ⟨Placed.start h, fun c => (h.chains c).nodes, fun c m hm l hl hall => ?_⟩
  obtain rfl : l = [] := List.eq_nil_iff_forall_not_mem.mpr fun p hp => by
    have hc := (hall p hp).jobChain
    rw [(h.orders p).jobChain] at hc
    cases hc
  exact Nat.zero_le m

/-- Only the order 0 has been added. -/
theorem sampleAdded_others (hp : p ≠ 0) : sampleAdded.order p = sampleLimited.order p := by
  have C := (closed_placed anyMove 0).frame sampleLimited
  have hfresh : ∀ w, Fresh anyMove true 0 w := fun _ => False.elim
  have hspec := whenLoaded_spec (c := 0) (fun _ h => h.1)
    (placeInJobChain_spec C C (fun _ h => h) True.intro True.intro 0 true)
  exact (hspec.final ⟨⟨Placed.start sampleLimited_start, fun _ _ => rfl, fun _ => rfl⟩,
    hfresh _⟩).2.1 p hp

end OrderRun
