import SchedulerEngine.OrderEndProofs
import SchedulerEngine.OrderStepProofs

/-! # After a step in a task

    `postprocessing` gives an order back, `reset` starts it again.  They write
    keys of an order in a queue before they insert it again or move it on; in
    between only `K` holds of it, which does not say that it stands right. -/

namespace OrderTask

open FileBased (Failure)
open Execution Execution.Exec JobChainNode OrderWorld OrderQueue OrderMove OrderStep OrderPlacement
open OrderClosed OrderMethods OrderEnd

variable {μ μ₂ : Mode} {o : OrderRef} {w w' : World} {I K I₂ : World → Prop} {c : ChainRef}
  {n : NodeRef} {f : Order → Order} {x y z : Order} {transition : Transition}
  {jobNode : Option NodeRef} {task : Task} {force : Bool}

/-- `K` is what is left of `I` while the order may stand at a wrong place of its
    queue: nothing is lost once it is in none, or is inserted again. -/
structure Loosened (μ : Mode) (o : OrderRef) (I K : World → Prop) : Prop where
  strict : Closed μ o I
  loose : Closed { μ with sorted := False } o K
  weaken : ∀ w, I w → K w
  unqueued : ∀ w, K w → (w.order o).isInOrderQueue = false → I w
  rekeyed : ∀ w f, K w → Same (w.order o) (f (w.order o)) → I (rekeyed w o f)
  unsorted : ¬μ.sorted → ∀ w, K w → I w
  apart : μ.apart → ∀ w, K w → (w.order o).isInOrderQueue = true →
    (w.order o).isOnBlacklist = false

/-- Where the places in queues do not matter, nothing is lost at all. -/
theorem Loosened.of_unsorted (C : Closed μ o I) (hs : ¬μ.sorted)
    (ha : μ.apart → ∀ w, I w → (w.order o).isInOrderQueue = true →
      (w.order o).isOnBlacklist = false) : Loosened μ o I I where
  strict := C
  loose := C.mono ⟨fun h => absurd h hs, id, id, id, id⟩
  weaken _ h := h
  unqueued _ h _ := h
  rekeyed w f h hf := C.move w _ h (.rekey f hf)
  unsorted _ _ h := h
  apart := ha

/-- The job chains have the nodes and the actions that they had in `w₀`. -/
def SameChains (w₀ w : World) : Prop := ∀ c, (w.chain c).toJobChain = (w₀.chain c).toJobChain

theorem SameChains.move {w₀ : World} (h : SameChains w₀ w) (hp : Placed w)
    (hm : Move μ o w w') : SameChains w₀ w' :=
  fun c => ((hm.moves hp).jobChain c).trans (h c)

theorem Loosened.sameChains (L : Loosened μ o I K) (w₀ : World) :
    Loosened μ o (fun w => I w ∧ SameChains w₀ w) fun w => K w ∧ SameChains w₀ w where
  strict := L.strict.and fun _ _ hp hs hm => hs.move hp hm
  loose := L.loose.and fun _ _ hp hs hm => hs.move hp hm
  weaken w h := ⟨L.weaken w h.1, h.2⟩
  unqueued w h hq := ⟨L.unqueued w h.1 hq, h.2⟩
  rekeyed w f h hf := ⟨L.rekeyed w f h.1 hf,
    h.2.move (L.loose.placed w h.1) (Move.rekey f hf : Move μ o w _)⟩
  unsorted hs w h := ⟨L.unsorted hs w h.1, h.2⟩
  apart ha w h := L.apart ha w h.1

theorem SameChains.targetNode {w₀ : World} (h : SameChains w₀ w) (c : ChainRef)
    (state : Option String) : targetNode w c state = targetNode w₀ c state := by
  cases state with
  | none => rfl
  | some s => simp only [OrderMove.targetNode, h c]

theorem SameChains.action {w₀ : World} (h : SameChains w₀ w) (n : NodeRef) :
    w.action n = w₀.action n := by
  simp only [World.action, h n.chain]

/-! ## Suspension -/

/-- An order on the blacklist leaves its job chain when it is released. -/
theorem keeps_setSuspended (L : Loosened μ o I K) (ho : μ.outer) (suspended : Bool) :
    Keeps I (setSuspended o suspended) := by
  intro w hw
  have hp := L.strict.placed w hw o
  show I (setSuspended o suspended w).2
  by_cases hs : (w.order o).suspended = suspended
  · have hrun : setSuspended o suspended w = (.ok (), w) := by
      simp only [setSuspended, bind_run, get_run, Exec.onlyIf, hs, ne_eq, not_true, if_false,
        pure_run]
    rw [hrun]
    exact hw
  by_cases hstay : (w.order o).isOnBlacklist = true → suspended = true
  · rw [setSuspended_run hp suspended hs hstay]
    exact L.strict.move w _ hw (.rekey _ (.of_eq rfl))
  -- the key is written, then the order leaves its queue
  have hb : (w.order o).isOnBlacklist = true := Classical.byContradiction fun h =>
    hstay fun hb => absurd hb h
  have hcond : ((w.order o).isOnBlacklist && !suspended) = true := by
    rw [hb]
    cases suspended with
    | false => rfl
    | true => exact absurd (fun _ => rfl) hstay
  have hK : K (w.setOrder o fun x => { x with suspended := suspended }) :=
    L.loose.move w _ (L.weaken w hw) (.write _ (.of_eq rfl) False.elim)
  cases hc : (w.order o).jobChain with
  | none =>
      have hq := (hp.unqueued_of_unplaced hc).2
      have hrun : setSuspended o suspended w
          = (.ok (), w.setOrder o fun x => { x with suspended := suspended }) := by
        simp only [setSuspended, bind_run, get_run, Exec.onlyIf, if_pos hs, hc, write, modify_run]
        rfl
      rw [hrun]
      refine L.unqueued _ hK ?_
      rw [World.setOrder_order_self]
      exact hq
  | some c =>
      have hrun : setSuspended o suspended w = removeFromJobChain o true
          (w.setOrder o fun x => { x with suspended := suspended }) := by
        simp only [setSuspended, bind_run, get_run, Exec.onlyIf, if_pos hs, hc, write,
          modify_run, if_pos hcond, Option.isSome_some, if_true]
      rw [hrun]
      refine Triple.final (m := removeFromJobChain o true) ?_ hK
      refine (removeFromJobChain_spec L.loose true fun _ => ho).consequence (fun _ h => h)
        ?_ fun _ _ h => h
      rintro _ s ⟨hs, hnone⟩
      exact L.unqueued s hs ((L.loose.placed s hs o).unqueued_of_unplaced hnone).2

/-! ## Starting again -/

section Reset

variable (C : Closed μ o I) (C₂ : Closed μ₂ o I₂) (hI : ∀ w, I w → I₂ w) (he : μ.entering)
  (ho : μ.outer) (he₂ : μ₂.entering) (ho₂ : μ₂.outer) (hk₂ : ¬μ₂.counted)
include C C₂ hI he ho he₂ ho₂ hk₂

theorem resetState_spec (depth : Nat) :
    Triple I (resetState depth o) (fun _ => I₂) fun _ => I := by
  have hset := keepsClosed_setState (o := o) he ho depth
  have hstate : ∀ state, Triple I (setState depth o state) (fun _ => I₂) fun _ => I :=
    fun state => (hset I C state).triple.consequence (fun _ h => h) (fun _ w h => hI w h)
      fun _ _ h => h
  have hE : ∀ (_ : Failure) w, I w → I w := fun _ _ h => h
  refine Triple.get_bind_any fun w => Triple.ite (fun _ => hstate _) fun _ => ?_
  refine Keeps.bind_triple (Keeps.ofExcept _) hE fun outer => ?_
  cases (w.chain outer).nodeFromStateOrNull (w.order o).initialState with
  | none => exact hstate _
  | some node =>
      refine Keeps.bind_triple (Keeps.require _ _) hE fun _ => Triple.ite (fun _ => ?_) fun _ => ?_
      · cases (w.order o).jobChain with
        | none => exact Triple.throw fun _ h => h
        | some c => exact Keeps.bind_triple (Keeps.ofExcept _) hE fun first => hstate _
      · refine Triple.bind ((moveToNestedJobChain_spec C C₂ hI hset ho he₂ ho₂
          (P := fun _ => True) (fun _ _ h => h) _ _).consequence
          (fun _ h => ⟨h, fun hk => absurd hk hk₂, trivial⟩) (fun _ _ h => h.1)
          fun _ _ h => h) fun _ => ?_
        exact Triple.modify fun w h => outerState_of_closed C₂ w _ h

/-- `reset`. The flags are cleared last. -/
theorem reset_spec (L : Loosened μ o I K) (hback : ∀ w, I₂ w → (w.order o).isTouched = false →
      (w.order o).isNestedTouched = false → I w) (depth : Nat) : Keeps I (reset depth o) := by
  have hE : ∀ (_ : Failure) w, I w → I w := fun _ _ h => h
  refine Keeps.of_triple (Triple.get_bind_any fun w => ?_)
  cases (w.order o).task with
  | some task => exact Triple.throw fun _ h => h
  | none =>
      refine Keeps.bind_triple (keeps_setSuspended L ho false) hE fun _ => ?_
      refine Keeps.bind_triple (keeps_clearSetback C) hE fun _ => ?_
      refine Triple.bind (resetState_spec C C₂ hI he ho he₂ ho₂ hk₂ depth) fun _ => ?_
      refine Triple.bind (Q := fun _ => I) (Triple.modify fun w h => ?_) fun _ =>
        (keeps_setNextStartTime C).triple
      refine hback _ (C₂.move w _ h (.write _ ?_ fun _ => rfl)) ?_ ?_
      · exact ⟨⟨rfl, rfl, rfl, rfl, rfl⟩, rfl, rfl, nofun, nofun⟩
      · rw [World.setOrder_order_self]
      · rw [World.setOrder_order_self]

end Reset

/-! ## Giving an order back -/

/-- What `postprocessing` writes before the order leaves its task. -/
def Stepped (x y : Order) : Prop :=
  ∃ setback count called success, y = { x with
    setback := setback, setbackCount := count, setbackCalled := called, isSuccessState := success }

theorem Stepped.trans (h : Stepped x y) (h' : Stepped y z) : Stepped x z := by
  obtain ⟨b, n, c, s, rfl⟩ := h
  obtain ⟨b', n', c', s', rfl⟩ := h'
  exact ⟨b', n', c', s', rfl⟩

/-- Whether the node sets the order back after this transition. -/
def setsBack (jobNode : Option NodeRef) (transition : Transition) : Bool :=
  transition ≠ .success && jobNode.any fun n => n.node.isOnErrorSetback

/-- Whether an order with a task will be forced into the error state. -/
def isForced (x : Order) (task : Task) (setsBack : Bool) : Bool :=
  !x.suspended && if setsBack then decide (task.maxOrderSetbacks < x.setbackCount + 1)
    else x.setbackCalled && decide (x.setback = never)
      && decide (task.maxOrderSetbacks < x.setbackCount)

/-- The order after the first part of `postprocessing`. -/
structure BeforeTransition (x : Order) (task : Task) (transition : Transition)
    (jobNode : Option NodeRef) (force : Bool) (y : Order) : Prop where
  stepped : Stepped x y
  forced : force = isForced x task (setsBack jobNode transition)
  success : y.isSuccessState = (decide (transition = .success) && !force)
  count : setsBack jobNode transition = false → force = false →
    y.setbackCount = if x.setbackCalled then x.setbackCount else 0

theorem writeIs_spec (C : Closed μ o I) (hf : Same x (f x)) (hk : orderKey (f x) = orderKey x)
    {E : Failure → World → Prop} :
    Triple (fun w => I w ∧ w.order o = x) (write o f) (fun _ w => I w ∧ w.order o = f x) E := by
  rintro w ⟨hw, rfl⟩
  refine ⟨C.move w _ hw (.write f hf fun _ => hk), ?_⟩
  exact World.setOrder_order_self

theorem setbackOnError_spec (C : Closed μ o I) (x : Order) (task : Task)
    (ht : x.task = some task) :
    Triple (fun w => I w ∧ w.order o = x) (setbackOnError o transition jobNode)
      (fun _ w => I w ∧ if setsBack jobNode transition = true then SetBack task x (w.order o)
        else w.order o = x) fun _ => I := by
  cases jobNode with
  | none =>
      refine Triple.pure fun w h => ⟨h.1, ?_⟩
      rw [if_neg (by simp [setsBack])]
      exact h.2
  | some n =>
      refine Triple.onlyIf (fun hb => ?_) fun hb w h => ⟨h.1, ?_⟩
      · refine Triple.bind (setback_spec C x) fun _ => Triple.pure ?_
        rintro w ⟨hw, task', ht', hset⟩
        obtain rfl : task = task' := Option.some.inj (ht.symm.trans ht')
        refine ⟨hw, ?_⟩
        rw [if_pos (by simp [setsBack, hb.1, hb.2])]
        exact hset
      · rw [if_neg (by simpa [setsBack] using hb)]
        exact h.2

/-- Without a call of `setback` in this step the count is 0 again. -/
def counted (x : Order) : Order := if x.setbackCalled then x else { x with setbackCount := 0 }

theorem counted_stepped (x : Order) : Stepped x (counted x) := by
  cases hc : x.setbackCalled with
  | true => exact ⟨x.setback, x.setbackCount, x.setbackCalled, x.isSuccessState, if_pos hc⟩
  | false =>
      refine ⟨x.setback, 0, x.setbackCalled, x.isSuccessState, if_neg ?_⟩
      rw [hc]
      nofun

theorem counted_same (x : Order) : Same x (counted x) := by
  cases hc : x.setbackCalled with
  | true => exact .of_eq (by simp [counted, hc])
  | false => exact .of_eq (by simp [counted, hc, members])

theorem counted_key (x : Order) : orderKey (counted x) = orderKey x := by
  cases hc : x.setbackCalled with
  | true => simp [counted, hc]
  | false => simp [counted, hc, orderKey]

/-- The test for the forced error state, on the order that has been counted. -/
theorem isForced_iff {success : Bool} (hy : if setsBack jobNode transition = true
      then SetBack task { x with isSuccessState := success } y
      else y = { x with isSuccessState := success }) :
    (!(counted y).suspended && decide ((counted y).setback = never)
      && decide (task.maxOrderSetbacks < (counted y).setbackCount))
      = isForced x task (setsBack jobNode transition) := by
  cases hb : setsBack jobNode transition with
  | true =>
      rw [hb, if_pos rfl] at hy
      obtain ⟨time, rfl, hnever⟩ := hy
      simp only [counted, isForced, if_true]
      by_cases hlt : task.maxOrderSetbacks < x.setbackCount + 1
      · simp [hlt, hnever hlt]
      · simp [hlt]
  | false =>
      rw [hb, if_neg nofun] at hy
      subst hy
      cases hc : x.setbackCalled <;> simp [counted, isForced, hc, Bool.and_assoc]

theorem counted_isSuccessState (x : Order) : (counted x).isSuccessState = x.isSuccessState := by
  cases hc : x.setbackCalled <;> simp [counted, hc]

/-- The order before the forced error state is looked at. -/
theorem beforeTransition_counted {success : Bool}
    (hy : if setsBack jobNode transition = true
      then SetBack task { x with isSuccessState := success } y
      else y = { x with isSuccessState := success }) :
    Stepped x (counted y) ∧ (counted y).isSuccessState = success
      ∧ (setsBack jobNode transition = false →
        (counted y).setbackCount = if x.setbackCalled then x.setbackCount else 0) := by
  cases hb : setsBack jobNode transition with
  | true =>
      rw [hb, if_pos rfl] at hy
      obtain ⟨time, rfl, -⟩ := hy
      exact ⟨Stepped.trans ⟨_, _, _, _, rfl⟩ (counted_stepped _), counted_isSuccessState _, nofun⟩
  | false =>
      rw [hb, if_neg nofun] at hy
      subst hy
      refine ⟨Stepped.trans ⟨_, _, _, _, rfl⟩ (counted_stepped _), counted_isSuccessState _,
        fun _ => ?_⟩
      cases x.setbackCalled <;> rfl

theorem beforeTransition_spec (L : Loosened μ o I K) (x : Order) (ht : x.task = some task) :
    Triple (fun w => I w ∧ w.order o = x) (beforeTransition o transition jobNode task)
      (fun force w => K w ∧ (force = false → I w)
        ∧ BeforeTransition x task transition jobNode force (w.order o)) fun _ => I := by
  have C := L.strict
  refine Triple.bind (writeIs_spec C (.of_eq rfl) rfl) fun _ => ?_
  refine Triple.bind (setbackOnError_spec C _ task ht) fun _ => ?_
  refine Triple.at_state fun w hpre => ?_
  obtain ⟨hw, hy⟩ := hpre
  refine Triple.bind ((writeIs_spec C (f := counted) (counted_same (w.order o))
    (counted_key _)).consequence (fun s h => ⟨h.symm ▸ hw, h ▸ rfl⟩) (fun _ _ h => h)
    fun _ _ h => h) fun _ => ?_
  refine Triple.at_state fun w₁ hpre => Triple.get_bind_at ?_
  obtain ⟨hw₁, hord⟩ := hpre
  rw [hord, isForced_iff hy]
  obtain ⟨hstep, hsucc, hcount⟩ := beforeTransition_counted hy
  cases hforce : isForced x task (setsBack jobNode transition) with
  | false =>
      refine Triple.bind (Q := fun _ s => s = w₁) (Triple.onlyIf nofun fun _ _ h => h) fun _ =>
        Triple.pure ?_
      rintro s rfl
      rw [hord]
      exact ⟨L.weaken _ hw₁, fun _ => hw₁, hstep, hforce.symm, by rw [hsucc]; simp,
        fun h _ => hcount h⟩
  | true =>
      refine Triple.bind (Q := fun _ s => K s
        ∧ BeforeTransition x task transition jobNode true (s.order o))
        (Triple.onlyIf (fun _ => Triple.modify ?_) fun h => absurd rfl h) fun _ =>
          Triple.pure fun _ h => ⟨h.1, nofun, h.2⟩
      rintro s rfl
      refine ⟨L.loose.move s _ (L.weaken s hw₁) (.write _ (.of_eq rfl) False.elim), ?_⟩
      rw [World.setOrder_order_self, hord]
      exact ⟨hstep.trans ⟨_, _, _, _, rfl⟩, hforce.symm, by simp, nofun⟩

/-- Whether `postprocessing` may find the order at its end while it stands at a job
    node. -/
def EndsHere (x : Order) (transition : Transition) : Prop :=
  x.endStateReached = true ∨ transition = .success ∧ x.moved = false
    ∧ (x.setbackCalled = true → x.setbackCount = 0)
    ∧ x.outerJobChainPath = "" ∧ x.state = x.endState

/-- What has to be known before `postprocessing`. -/
structure MayPostprocess (μ : Mode) (o : OrderRef) (transition : Transition) (w : World) :
    Prop where
  /-- An order that ends in a queue is not blacklisted. -/
  ended : EndsHere (w.order o) transition → MayEnd μ o w
  /-- An order on the blacklist has been moved there while it was in the task. -/
  blacklisted : μ.apart → (w.order o).isOnBlacklist = true → (w.order o).moved = true
  /-- Only nodes with a queue are skipped. -/
  skipped : μ.apart → ∀ c, ∀ n ∈ (w.chain c).nodes, n.type.isOrderQueue = false →
    (w.chain c).action n.orderState ≠ .nextState
  /-- The forced error state suspends the order, or moves it to another node. -/
  forced : μ.sorted → ∀ task n, (w.order o).task = some task →
    (w.order o).jobChainNode = some n →
    isForced (w.order o) task (setsBack (some n) transition) = true →
    n.node.isOnErrorSuspend = true ∨ ∃ target,
      targetNode w n.chain (n.node.orderStateAfter transition) = .ok target ∧ target ≠ some n

/-- The order when it has left its task, and what is known then. -/
structure LeftTask (w₀ : World) (o : OrderRef) (I K : World → Prop) (task : Task)
    (transition : Transition) (force : Bool) (w : World) : Prop where
  loose : K w
  strict : force = false → I w
  chains : SameChains w₀ w
  order : ∃ y, BeforeTransition (w₀.order o) task transition (w₀.order o).jobChainNode force y
    ∧ w.order o = { y with task := none }

theorem LeftTask.members_eq {w₀ : World} (h : LeftTask w₀ o I K task transition force w) :
    members (w.order o) = members (w₀.order o) := by
  obtain ⟨y, hb, hy⟩ := h.order
  obtain ⟨_, _, _, _, rfl⟩ := hb.stepped
  rw [hy]
  rfl

/-- What ends an order at its job node does not change in `postprocessing`. -/
theorem LeftTask.mayEnd {w₀ : World} (h : LeftTask w₀ o I K task transition force w)
    (hm : MayEnd μ o w₀) : MayEnd μ o w := by
  obtain ⟨y, hb, hy⟩ := h.order
  obtain ⟨_, _, _, _, rfl⟩ := hb.stepped
  intro ha hq
  rw [hy] at hq ⊢
  exact hm ha hq

theorem LeftTask.not_forced {w₀ : World} (h : LeftTask w₀ o I K task transition force w)
    (hs : (w.order o).isSuccessState = true) : force = false ∧ transition = .success := by
  obtain ⟨y, hb, hy⟩ := h.order
  have hsucc : y.isSuccessState = true := by
    rw [hy] at hs
    exact hs
  rw [hb.success, Bool.and_eq_true, Bool.not_eq_true'] at hsucc
  exact ⟨hsucc.2, of_decide_eq_true hsucc.1⟩

theorem LeftTask.not_suspended {w₀ : World}
    (h : LeftTask w₀ o I K task transition true w) : (w.order o).suspended = false := by
  obtain ⟨y, hb, hy⟩ := h.order
  have hf := hb.forced
  obtain ⟨_, _, _, _, rfl⟩ := hb.stepped
  rw [hy]
  rw [isForced, eq_comm, Bool.and_eq_true, Bool.not_eq_true'] at hf
  exact hf.1

/-- An order that is found at its end was there before. -/
theorem LeftTask.endsHere {w₀ : World} (h : LeftTask w₀ o I K task transition false w)
    (htr : makesTransition (w.order o) transition false = true)
    (hs : (w.order o).isSuccessState = true) (hp : (w.order o).outerJobChainPath = "")
    (hstate : (w.order o).state = (w.order o).endState) : EndsHere (w₀.order o) transition := by
  obtain ⟨-, hsuccess⟩ := h.not_forced hs
  obtain ⟨y, hb, hy⟩ := h.order
  have hback : setsBack (w₀.order o).jobChainNode transition = false := by
    rw [setsBack, hsuccess]
    rfl
  have hcount := hb.count hback rfl
  obtain ⟨_, _, _, _, rfl⟩ := hb.stepped
  rw [hy] at htr hp hstate
  simp only [makesTransition, Order.isSetback, Bool.or_false, Bool.and_eq_true,
    Bool.not_eq_true', decide_eq_false_iff_not] at htr
  obtain ⟨⟨⟨-, hset⟩, hmoved⟩, -⟩ := htr
  refine Or.inr ⟨hsuccess, hmoved, fun hc => ?_, hp, hstate⟩
  have : (w₀.order o).setbackCount = 0 := by
    simp only [hc, if_true] at hcount
    omega
  exact this

section LeftTask

variable {w₀ : World} (L : Loosened μ o I K) (he : μ.entering) (ho : μ.outer)
  (hmay : MayPostprocess μ o transition w₀) (ht : (w₀.order o).task = some task)
include L he ho hmay ht

theorem leaveState_spec (force : Bool) (depth : Nat) (jobNode : Option NodeRef)
    (hn : (w₀.order o).jobChainNode = jobNode)
    (hty : ∀ n, jobNode = some n → n.node.type.isOrderQueue = true) :
    Triple (fun w => LeftTask w₀ o I K task transition force w
        ∧ makesTransition (w.order o) transition force = true)
      (leaveState (depth + 1) o transition jobNode) (fun _ => I) fun _ => I := by
  have C := L.strict
  refine Triple.at_state fun w hpre => Triple.get_bind_at ?_
  obtain ⟨hleft, htr⟩ := hpre
  have hp : PlacedAt w o := L.loose.placed w hleft.loose o
  have hmem := hleft.members_eq
  simp only [members, Prod.mk.injEq] at hmem
  obtain ⟨-, hchain, hnode, -⟩ := hmem
  rw [hn] at hnode
  cases jobNode with
  | none =>
      rintro _ rfl
      refine L.unqueued _ hleft.loose (Bool.eq_false_iff.mpr fun hq => ?_)
      obtain ⟨n, hn', -⟩ := hp.queued.mp hq
      rw [hnode] at hn'
      cases hn'
  | some n =>
      have hq : (w.order o).isInOrderQueue = true := hp.queued.mpr ⟨n, hnode, hty n rfl⟩
      have hforce : force = false → I w := hleft.strict
      refine Triple.ite (fun hcond => ?_) fun hns => Triple.ite (fun hcond => ?_) fun _ => ?_
      · -- suspended: it is inserted again
        rintro s rfl
        cases force with
        | false => exact (keeps_suspend C).triple s (hforce rfl)
        | true =>
            have hs : (s.order o).suspended ≠ true := by
              rw [hleft.not_suspended]
              exact Bool.false_ne_true
            rw [setSuspended_run hp true hs fun _ => rfl]
            exact L.rekeyed s _ hleft.loose (.of_eq rfl)
      · -- its end state is the state it has
        obtain ⟨rfl, -⟩ := hleft.not_forced hcond.1
        have hend := hleft.endsHere htr hcond.1 hcond.2.1 hcond.2.2
        refine Triple.bind (Q := fun _ s => I s ∧ MayEnd μ o s) (Triple.modify ?_) fun _ =>
          handleEndState_spec he ho (depth + 1) C
        rintro _ rfl
        refine ⟨C.move _ _ (hforce rfl) (.write _ (.of_eq rfl) fun _ => rfl), fun ha hq' => ?_⟩
        rw [World.setOrder_order_self] at hq' ⊢
        exact hleft.mayEnd (hmay.ended hend) ha hq'
      · -- it goes to the node of its next state
        have hb : μ.apart → (w.order o).isOnBlacklist = false := fun ha =>
          L.apart ha w hleft.loose hq
        have hstrict : (force = false ∨ ¬μ.sorted) → I w := fun h =>
          h.elim hforce fun hs => L.unsorted hs w hleft.loose
        by_cases hs : force = false ∨ ¬μ.sorted
        · rintro _ rfl
          exact setState1_spec he ho (depth + 1) C _ _ ⟨hstrict hs, hb⟩
        obtain ⟨hf, hsorted⟩ := not_or.mp hs
        rw [Bool.not_eq_false] at hf
        subst hf
        have hforced : isForced (w₀.order o) task (setsBack (some n) transition) = true := by
          obtain ⟨y, hbefore, -⟩ := hleft.order
          rw [hn] at hbefore
          exact hbefore.forced.symm
        obtain hsusp | ⟨target, htarget, hother⟩ :=
          hmay.forced (Classical.not_not.mp hsorted) task n ht hn hforced
        · refine absurd ⟨Bool.eq_false_iff.mpr fun hsucc => ?_, hsusp⟩ hns
          cases (hleft.not_forced hsucc).1
        · rintro _ rfl
          refine setState1_away he ho depth L.loose C L.unqueued _ _
            ⟨hleft.loose, ⟨n.chain, target, (hp.nodeOfChain n hnode).1, ?_, ?_⟩, hb⟩
          · rw [hleft.chains.targetNode]
            exact htarget
          · rw [hnode]
            exact hother

omit hmay ht in
theorem keepState_spec (depth : Nat) :
    Triple (fun w => I w ∧ (μ.apart → (w.order o).isOnBlacklist = false)) (keepState depth o)
      (fun _ => I) fun _ => I := by
  refine Triple.at_state fun w hpre => Triple.get_bind_at ?_
  obtain ⟨hw, hb⟩ := hpre
  refine Triple.bind ((Keeps.triple (Keeps.onlyIf fun _ =>
    keeps_clearSetback_place L.strict (w.order o))).consequence
    ?_ (fun _ _ h => h) fun _ _ h => h.1) fun _ => ?_
  · rintro _ rfl
    exact ⟨hw, rfl, rfl, rfl, rfl, rfl⟩
  exact (setState1_spec he ho depth L.strict _).consequence
    (fun s h => ⟨h.1, fun ha => h.2.isOnBlacklist.trans (hb ha)⟩) (fun _ _ h => h) fun _ _ h => h

theorem makeTransition_spec (depth : Nat) (jobNode : Option NodeRef)
    (hn : (w₀.order o).jobChainNode = jobNode)
    (hty : ∀ n, jobNode = some n → n.node.type.isOrderQueue = true) :
    Triple (LeftTask w₀ o I K task transition force)
      (makeTransition (depth + 1) o transition jobNode force) (fun _ => I) fun _ => I := by
  refine Triple.at_state fun w hleft => Triple.get_bind_at ?_
  refine Triple.ite (fun htr => ?_) fun htr => ?_
  · refine (leaveState_spec L he ho hmay ht force depth jobNode hn hty).consequence ?_
      (fun _ _ h => h) fun _ _ h => h
    rintro _ rfl
    exact ⟨hleft, htr⟩
  have hf : force = false := Bool.eq_false_iff.mpr fun hf => htr (by rw [hf]; exact Bool.or_true _)
  have hw : I w := hleft.strict hf
  have hord : (w.order o).endStateReached = (w₀.order o).endStateReached
      ∧ (w.order o).moved = (w₀.order o).moved
      ∧ (w.order o).isOnBlacklist = (w₀.order o).isOnBlacklist := by
    obtain ⟨y, hb, hy⟩ := hleft.order
    obtain ⟨_, _, _, _, rfl⟩ := hb.stepped
    rw [hy]
    exact ⟨rfl, rfl, rfl⟩
  refine Triple.ite (fun hend => ?_) fun _ => Triple.ite (fun hmoved => ?_) fun _ => ?_
  · refine (handleEndState_spec he ho (depth + 1) L.strict).consequence ?_ (fun _ _ h => h)
      fun _ _ h => h
    rintro _ rfl
    exact ⟨hw, hleft.mayEnd (hmay.ended (Or.inl (hord.1.symm.trans hend)))⟩
  · refine (keepState_spec L he ho (depth + 1)).consequence ?_ (fun _ _ h => h) fun _ _ h => h
    rintro _ rfl
    refine ⟨hw, fun ha => Bool.eq_false_iff.mpr fun hb => ?_⟩
    rw [hord.2.2] at hb
    exact Bool.noConfusion ((hmay.blacklisted ha hb).symm.trans (hord.2.1.symm.trans hmoved))
  · exact Triple.pure fun _ h => h ▸ hw

omit ht in
/-- An order on the blacklist is at a node without a queue, which is not skipped. -/
theorem leaveSkippedNode_spec (depth : Nat) :
    Triple (fun w => I w ∧ SameChains w₀ w) (leaveSkippedNode depth o) (fun _ => I)
      fun _ => I := by
  refine Triple.at_state fun w hpre => Triple.get_bind_at ?_
  obtain ⟨hw, hchains⟩ := hpre
  cases hc : (w.order o).jobChain with
  | none => exact Triple.pure fun _ h => h ▸ hw
  | some c =>
      cases hn : (w.order o).jobChainNode with
      | none => exact Triple.pure fun _ h => h ▸ hw
      | some n =>
          refine Triple.onlyIf (fun hskip => ?_) fun _ _ h => h ▸ hw
          refine (setState1_spec he ho depth L.strict _).consequence ?_ (fun _ _ h => h)
            fun _ _ h => h
          rintro _ rfl
          refine ⟨hw, fun ha => Bool.eq_false_iff.mpr fun hb => ?_⟩
          have hp := L.strict.placed _ hw o
          have hty : n.node.type.isOrderQueue = false := by
            rw [Bool.eq_false_iff]
            intro hty
            have hq := hp.queued.mpr ⟨n, hn, hty⟩
            exact Bool.noConfusion ((L.apart ha _ (L.weaken _ hw) hq).symm.trans hb)
          have hmem := (hp.nodeOfChain n hn).2
          rw [hchains n.chain] at hmem
          exact hmay.skipped ha n.chain n.node hmem hty ((hchains.action n).symm.trans hskip)

omit ht in
theorem postprocessing2_spec (depth : Nat) :
    Triple (fun w => I w ∧ SameChains w₀ w) (postprocessing2 depth o) (fun _ => I)
      fun _ => I := by
  refine Triple.bind (Q := fun _ w => I w ∧ SameChains w₀ w) (Triple.modify ?_) fun _ => ?_
  · rintro w ⟨hw, hchains⟩
    exact ⟨L.strict.move w _ hw (.write _ (.of_eq rfl) fun _ => rfl), hchains⟩
  refine Triple.bind (leaveSkippedNode_spec L he ho hmay depth) fun _ => ?_
  exact Triple.get_bind_any fun w => Keeps.triple (Keeps.onlyIf fun _ => keeps_close L.strict)

end LeftTask

theorem jobNode_of_cast {node : Option NodeRef} (h : jobNodeCast node = .ok jobNode) :
    node = jobNode ∧ ∀ n, jobNode = some n → n.node.type.isOrderQueue = true := by
  cases node with
  | none =>
      cases h
      exact ⟨rfl, nofun⟩
  | some n =>
      cases hty : n.node.type.isOrderQueue with
      | false =>
          simp only [jobNodeCast, hty] at h
          cases h
      | true =>
          simp only [jobNodeCast, hty] at h
          cases h
          refine ⟨rfl, fun m hm => ?_⟩
          cases hm
          exact hty

/-- `postprocessing`. -/
theorem postprocessing_spec (L : Loosened μ o I K) (he : μ.entering) (ho : μ.outer)
    (depth : Nat) (transition : Transition) :
    Triple (fun w => I w ∧ MayPostprocess μ o transition w)
      (postprocessing (depth + 1) o transition) (fun _ => I) fun _ => I := by
  refine Triple.at_state fun w hpre => Triple.get_bind_at ?_
  obtain ⟨hw, hmay⟩ := hpre
  cases ht : (w.order o).task with
  | none => exact Triple.throw fun _ h => h ▸ hw
  | some task =>
      have L' := L.sameChains w
      have hw' : I w ∧ SameChains w w := ⟨hw, fun _ => rfl⟩
      refine Triple.bind (Q := fun jobNode s => s = w ∧ (w.order o).jobChainNode = jobNode
          ∧ ∀ n, jobNode = some n → n.node.type.isOrderQueue = true)
        (Triple.ofExcept (fun r hr s h => ⟨h, jobNode_of_cast hr⟩) fun _ _ _ h => h ▸ hw)
        fun jobNode => ?_
      refine Triple.at_state fun s hpre => ?_
      obtain ⟨rfl, hn, hty⟩ := hpre
      refine Triple.bind ((beforeTransition_spec L' (s.order o) ht).consequence
        ?_ (fun _ _ h => h) fun _ _ h => h.1) fun force => ?_
      · rintro _ rfl
        exact ⟨hw', rfl⟩
      refine Triple.bind (Q := fun _ => LeftTask s o (fun w => I w ∧ SameChains s w)
        (fun w => K w ∧ SameChains s w) task transition force) (Triple.modify ?_) fun _ => ?_
      · rintro t ⟨hK, hI, hbefore⟩
        refine ⟨?_, fun hf => ?_, hK.2, t.order o, hn ▸ hbefore, World.setOrder_order_self⟩
        · exact L'.loose.move t _ hK (.write _ (.of_eq rfl) False.elim)
        · exact L'.strict.move t _ (hI hf) (.write _ (.of_eq rfl) fun _ => rfl)
      refine Triple.bind ((makeTransition_spec L' he ho hmay ht depth jobNode hn hty).consequence
        (fun _ h => h) (fun _ _ h => h) fun _ _ h => h.1) fun _ => ?_
      exact postprocessing2_spec L he ho hmay (depth + 1)

end OrderTask
