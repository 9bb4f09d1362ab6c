import SchedulerEngine.OrderTaskProofs

/-! # What happens to the count of setbacks

    Only `setback` raises `_setback_count`.  Whatever else is done to an order
    keeps the count or clears it: `Idle m` says that the order has no task and a
    count of at most `m`, and every method from `remove_order` up to
    `postprocessing2` keeps that, by induction on the depth of the calls. -/

namespace OrderCount

open FileBased (Failure)
open Execution Execution.Exec JobChainNode OrderWorld OrderQueue OrderMove OrderStep

variable {o : OrderRef} {f : Order → Order} {P : Order → Prop} {m : Nat}
  {setState setState1 : OrderRef → Option String → Method Unit}
  {handleEndState : OrderRef → Method Unit}

/-! ## Methods that leave the count alone -/

/-- From `x` to `y` the count stays, and the order gets no task and on no blacklist. -/
structure Kept (x y : Order) : Prop where
  task : x.task = none → y.task = none
  setbackCount : y.setbackCount = x.setbackCount
  isOnBlacklist : y.isOnBlacklist = true → x.isOnBlacklist = true

theorem Kept.refl (x : Order) : Kept x x := ⟨id, rfl, id⟩

/-- The method keeps what is known of the order itself. -/
abbrev KeepsOrder {α : Type} (o : OrderRef) (P : Order → Prop) (k : Method α) : Prop :=
  Keeps (fun w => P (w.order o)) k

section Kept

variable (hP : ∀ x y, Kept x y → P x → P y)
include hP

theorem kept_modify {g : World → World} (hg : ∀ w, Kept (w.order o) ((g w).order o)) :
    KeepsOrder o P (modify g) :=
  Keeps.modify fun w hw => hP _ _ (hg w) hw

theorem kept_write (hf : ∀ x, Kept x (f x)) : KeepsOrder o P (write o f) := by
  refine kept_modify hP fun w => ?_
  rw [World.setOrder_order_self]
  exact hf _

theorem kept_addOrder (n : NodeRef) : KeepsOrder o P (addOrder n o) := by
  refine kept_modify hP fun w => ?_
  rw [World.setOrder_order_self]
  exact ⟨id, rfl, id⟩

theorem kept_removeOrder (n : NodeRef) : KeepsOrder o P (removeOrder n o) := by
  refine Keeps.get_bind_any fun w => ?_
  refine Keeps.bind (Keeps.require _ _) fun _ => Keeps.bind (Keeps.require _ _) fun _ => ?_
  refine kept_modify hP fun w => ?_
  rw [World.setOrder_order_self]
  exact ⟨id, rfl, id⟩

omit hP in
theorem kept_orderQueue : KeepsOrder o P (orderQueue o) := by
  refine Keeps.get_bind_any fun w => ?_
  cases (w.order o).jobChainNode with
  | none => exact Keeps.throw _
  | some n => exact Keeps.ite (fun _ => Keeps.pure _) fun _ => Keeps.throw _

theorem kept_reinsertIfInQueue : KeepsOrder o P (reinsertIfInQueue o) := by
  refine Keeps.get_bind_any fun w => Keeps.onlyIf fun _ => ?_
  refine Keeps.bind kept_orderQueue fun n => ?_
  exact Keeps.bind (kept_removeOrder hP n) fun _ => kept_addOrder hP n

theorem kept_removeFromBlacklist : KeepsOrder o P (removeFromBlacklist o) := by
  refine Keeps.get_bind_any fun w => Keeps.onlyIf fun _ => ?_
  cases (w.order o).jobChain with
  | none => exact Keeps.throw _
  | some c =>
      refine Keeps.bind (Keeps.modify fun _ h => h) fun _ => kept_write hP fun x => ?_
      exact ⟨id, rfl, nofun⟩

omit hP in
theorem kept_unregisterOrder (c : ChainRef) : KeepsOrder o P (unregisterOrder c o) := by
  refine Keeps.get_bind_any fun w => ?_
  exact Keeps.bind (Keeps.require _ _) fun _ => Keeps.modify fun _ h => h

theorem kept_removeFromChain (c : ChainRef) : KeepsOrder o P (removeFromChain c o) := by
  refine Keeps.get_bind_any fun w => Keeps.bind (Keeps.require _ _) fun _ => ?_
  refine Keeps.bind (kept_removeFromBlacklist hP) fun _ => ?_
  refine Keeps.bind (Keeps.onlyIf fun _ => ?_) fun _ => ?_
  · refine Keeps.bind (Keeps.onlyIf fun _ => ?_) fun _ => kept_write hP fun x => ⟨id, rfl, id⟩
    exact Keeps.bind kept_orderQueue fun n => kept_removeOrder hP n
  refine Keeps.bind (kept_write hP fun x => ⟨id, rfl, id⟩) fun _ => ?_
  refine Keeps.bind (kept_unregisterOrder c) fun _ => Keeps.onlyIf fun _ => ?_
  exact kept_write hP fun x => ⟨id, rfl, id⟩

theorem kept_leaveJobChain : KeepsOrder o P (leaveJobChain o) := by
  refine Keeps.get_bind_any fun w => ?_
  cases (w.order o).jobChain with
  | none => exact Keeps.pure ()
  | some c => exact kept_removeFromChain hP c

theorem kept_close : KeepsOrder o P (close o) := by
  refine Keeps.bind (kept_write hP fun x => ⟨fun _ => rfl, rfl, id⟩) fun _ => ?_
  exact Keeps.bind (kept_write hP fun x => ⟨id, rfl, id⟩) fun _ => kept_leaveJobChain hP

end Kept

/-! ## Methods that keep the count or clear it -/

/-- The order has no task, and its count is at most `m`. -/
def Idle (m : Nat) (x : Order) : Prop := x.task = none ∧ x.setbackCount ≤ m

theorem Idle.kept (x y : Order) (h : Kept x y) (hx : Idle m x) : Idle m y :=
  ⟨h.task hx.1, h.setbackCount.trans_le hx.2⟩

theorem idle_write (hf : ∀ x, Idle m x → Idle m (f x)) : KeepsOrder o (Idle m) (write o f) := by
  refine Keeps.modify fun w hw => ?_
  show Idle m ((w.setOrder o f).order o)
  rw [World.setOrder_order_self]
  exact hf _ hw

theorem idle_setState2 (state : Option String) : KeepsOrder o (Idle m) (setState2 o state) := by
  refine kept_write Idle.kept fun x => ?_
  cases h : x.initialStateSet <;> exact ⟨id, rfl, id⟩

theorem idle_setOnBlacklist : KeepsOrder o (Idle m) (setOnBlacklist o) := by
  refine Keeps.get_bind_any fun w => ?_
  cases (w.order o).jobChain with
  | none => exact Keeps.throw _
  | some c => exact Keeps.bind (Keeps.modify fun _ h => h) fun _ => idle_write fun x hx => hx

theorem idle_removeFromJobChain (fromStack : Bool) :
    KeepsOrder o (Idle m) (removeFromJobChain o fromStack) := by
  refine Keeps.get_bind_any fun w => Keeps.bind (Keeps.onlyIf fun _ => ?_) fun _ => ?_
  · exact idle_write fun x hx => hx
  refine Keeps.bind (kept_leaveJobChain Idle.kept) fun _ => ?_
  refine Keeps.bind (idle_write fun x hx => ⟨hx.1, Nat.zero_le m⟩) fun _ => ?_
  refine Keeps.bind (idle_write fun x hx => hx) fun _ => ?_
  refine Keeps.bind (idle_write fun x hx => hx) fun _ => Keeps.onlyIf fun _ => ?_
  refine Keeps.bind (idle_write fun x hx => hx) fun _ => ?_
  exact Keeps.get_bind_any fun w => Keeps.onlyIf fun _ => kept_close Idle.kept

theorem idle_setSetback (time : Nat) (keepSetbackCount : Bool) :
    KeepsOrder o (Idle m) (setSetback o time keepSetbackCount) := by
  refine Keeps.get_bind_any fun w => Keeps.bind (Keeps.onlyIf fun _ => ?_) fun _ => ?_
  · exact Keeps.bind (idle_write fun x hx => hx) fun _ => kept_reinsertIfInQueue Idle.kept
  · exact Keeps.onlyIf fun _ => idle_write fun x hx => ⟨hx.1, Nat.zero_le m⟩

theorem idle_clearSetback : KeepsOrder o (Idle m) (clearSetback o) :=
  Keeps.get_bind_any fun _ => Keeps.onlyIf fun _ => idle_setSetback 0 false

theorem idle_setSuspended (suspended : Bool) :
    KeepsOrder o (Idle m) (setSuspended o suspended) := by
  refine Keeps.get_bind_any fun w => Keeps.onlyIf fun _ => ?_
  refine Keeps.bind (idle_write fun x hx => hx) fun _ => Keeps.onlyIf fun _ => ?_
  exact Keeps.ite (fun _ => idle_removeFromJobChain true) fun _ =>
    kept_reinsertIfInQueue Idle.kept

theorem idle_setJobChainNode (node : Option NodeRef) :
    KeepsOrder o (Idle m) (setJobChainNode o node) := by
  refine Keeps.bind (idle_write fun x hx => hx) fun _ => ?_
  cases node with
  | none => exact idle_setState2 none
  | some n =>
      refine Keeps.bind (Keeps.onlyIf fun _ => idle_setSuspended true) fun _ => ?_
      refine Keeps.get_bind_any fun w => Keeps.bind (Keeps.onlyIf fun _ => ?_) fun _ => ?_
      · exact idle_setSetback _ true
      · exact idle_setState2 _

theorem idle_moveToNode (node : Option NodeRef) :
    KeepsOrder o (Idle m) (moveToNode o node) := by
  refine Keeps.get_bind_any fun w => Keeps.bind (Keeps.require _ _) fun _ => ?_
  refine Keeps.bind (Keeps.onlyIf fun _ => idle_write fun x hx => hx) fun _ => ?_
  refine Keeps.bind (Keeps.onlyIf fun _ => ?_) fun _ => ?_
  · refine Keeps.bind kept_orderQueue fun q => ?_
    exact Keeps.bind (kept_removeOrder Idle.kept q) fun _ => idle_write fun x hx => hx
  refine Keeps.bind (idle_setJobChainNode node) fun _ => ?_
  cases node with
  | none => exact Keeps.pure ()
  | some n => exact Keeps.onlyIf fun _ => kept_addOrder Idle.kept n

theorem idle_setState1With (hend : KeepsOrder o (Idle m) (handleEndState o))
    (state : Option String) : KeepsOrder o (Idle m) (setState1With handleEndState o state) := by
  refine Keeps.get_bind_any fun w => ?_
  cases (w.order o).jobChain with
  | none => exact idle_setState2 state
  | some c =>
      refine Keeps.bind (Keeps.ofExcept _) fun node => ?_
      refine Keeps.bind (idle_moveToNode node) fun _ => ?_
      exact Keeps.get_bind_any fun w => Keeps.onlyIf fun _ => hend

theorem idle_setStateWith (h : ∀ state, KeepsOrder o (Idle m) (setState1 o state))
    (state : Option String) : KeepsOrder o (Idle m) (setStateWith setState1 o state) := by
  refine Keeps.bind idle_clearSetback fun _ => ?_
  exact Keeps.bind (kept_removeFromBlacklist Idle.kept) fun _ => h state

/-! ## Placing an order -/

theorem idle_setNextStartTime : KeepsOrder o (Idle m) (setNextStartTime o) :=
  Keeps.get_bind_any fun _ =>
    Keeps.ite (fun _ => idle_setSetback _ _) fun _ => idle_setSetback _ _

theorem idle_activateSchedule : KeepsOrder o (Idle m) (activateSchedule o) :=
  Keeps.get_bind_any fun _ => Keeps.onlyIf fun _ =>
    Keeps.ite (fun _ => idle_setSetback _ _) fun _ => idle_setNextStartTime

theorem idle_nestedJobChain (outerState : Option String) (success : Bool) :
    KeepsOrder o (Idle m) (nestedJobChain o outerState success) := by
  refine OrderEnd.keeps_nestedJobChain (fun w s hw => ?_) outerState success
  rw [World.setOrder_order_self]
  exact hw

theorem idle_placeToBe (c : ChainRef) : KeepsOrder o (Idle m) (placeToBe c o) := by
  refine Keeps.get_bind_any fun w => Keeps.bind (Keeps.ofExcept _) fun node => ?_
  refine Keeps.ite (fun _ => ?_) fun _ => Keeps.pure _
  refine Keeps.bind (Keeps.require _ _) fun _ => Keeps.bind (idle_write fun x hx => hx) fun _ => ?_
  refine Keeps.bind (idle_nestedJobChain _ _) fun nested => ?_
  cases nested with
  | none => exact Keeps.throw _
  | some nested =>
      refine Keeps.get_bind_any fun w => Keeps.bind (Keeps.ofExcept _) fun first => ?_
      exact Keeps.bind (idle_write fun x hx => hx) fun _ => Keeps.pure _

theorem idle_addToJobChain (c : ChainRef) : KeepsOrder o (Idle m) (addToJobChain c o) := by
  refine Keeps.get_bind_any fun w => ?_
  cases chainWithOrderId w c (w.order o).id with
  | some d => exact Keeps.throw _
  | none =>
      refine Keeps.bind (Keeps.ofExcept _) fun node => ?_
      refine Keeps.bind (Keeps.onlyIf fun _ => idle_setState2 _) fun _ => ?_
      refine Keeps.get_bind_any fun w => Keeps.bind (Keeps.require _ _) fun _ => ?_
      refine Keeps.bind (idle_write fun x hx => hx) fun _ => ?_
      refine Keeps.bind (Keeps.get_bind_any fun w => ?_) fun _ => ?_
      · exact Keeps.bind (Keeps.require _ _) fun _ => Keeps.modify fun _ h => h
      refine Keeps.ite (fun _ => idle_setOnBlacklist) fun _ => Keeps.ite (fun _ => ?_) fun _ =>
        idle_setOnBlacklist
      exact Keeps.bind (idle_write fun x hx => hx) fun _ => kept_addOrder Idle.kept _

theorem idle_placeNew (c : ChainRef) (fromStack : Bool) :
    KeepsOrder o (Idle m) (placeNew o c fromStack) := by
  refine Keeps.get_bind_any fun w => ?_
  refine Keeps.bind (Keeps.onlyIf fun _ => idle_removeFromJobChain fromStack) fun _ => ?_
  refine Keeps.get_bind_any fun w => Keeps.bind (Keeps.require _ _) fun _ => ?_
  refine Keeps.bind (Keeps.onlyIf fun _ => ?_) fun _ => ?_
  · exact Keeps.bind (Keeps.ofExcept _) fun first => idle_setState2 _
  refine Keeps.get_bind_any fun w => Keeps.bind (Keeps.ofExcept _) fun node => ?_
  refine Keeps.bind (Keeps.onlyIf fun _ => idle_write fun x hx => hx) fun _ => ?_
  refine Keeps.bind (idle_placeToBe c) fun place => Keeps.get_bind_any fun w => ?_
  refine Keeps.bind (Keeps.ofExcept _) fun referenced => ?_
  refine Keeps.bind (Keeps.onlyIf fun _ => idle_setState2 _) fun _ => ?_
  refine Keeps.bind (Keeps.require _ _) fun _ => ?_
  refine Keeps.bind (Keeps.onlyIf fun _ => idle_write fun x hx => hx) fun _ => ?_
  refine Keeps.bind (idle_write fun x hx => hx) fun _ => ?_
  refine Keeps.bind idle_activateSchedule fun _ => ?_
  refine Keeps.bind (Keeps.onlyIf fun _ => idle_write fun x hx => hx) fun _ => ?_
  exact idle_addToJobChain _

theorem idle_tryPlaceInJobChain (c : ChainRef) (fromStack existsException : Bool) :
    KeepsOrder o (Idle m) (tryPlaceInJobChain o c fromStack existsException) := by
  refine Keeps.get_bind_any fun w => Keeps.bind (Keeps.require _ _) fun _ => ?_
  refine Keeps.bind (Keeps.onlyIf fun _ => ?_) fun _ => ?_
  · exact Keeps.bind (Keeps.ofExcept _) fun _ => Keeps.pure ()
  refine Keeps.bind (Keeps.require _ _) fun _ => ?_
  exact Keeps.bind (Keeps.onlyIf fun _ => idle_placeNew c fromStack) fun _ => Keeps.pure _

theorem idle_placeInJobChain (c : ChainRef) (fromStack : Bool) :
    KeepsOrder o (Idle m) (placeInJobChain o c fromStack) :=
  Keeps.bind (idle_tryPlaceInJobChain c fromStack true) fun _ => Keeps.pure ()

/-! ## The end of an order -/

theorem idle_checkForReplacingOrRemoving :
    KeepsOrder o (Idle m) (checkForReplacingOrRemoving o) := by
  refine Keeps.tryCatch (Keeps.get_bind_any fun w => Keeps.onlyIf fun _ => ?_) fun _ =>
    Keeps.pure ()
  cases (w.order o).fileChange with
  | unchanged => exact Keeps.pure ()
  | toBeRemoved => exact idle_removeFromJobChain true
  | toBeReplaced => exact kept_close Idle.kept

theorem idle_blacklistOrRemove : KeepsOrder o (Idle m) (blacklistOrRemove o) := by
  refine Keeps.get_bind_any fun w => Keeps.bind (Keeps.onlyIf fun _ => ?_) fun _ => ?_
  · exact Keeps.bind (Keeps.onlyIf fun _ => idle_setOnBlacklist) fun _ =>
      Keeps.onlyIf fun _ => idle_setOnBlacklist
  refine Keeps.get_bind_any fun w => Keeps.onlyIf fun _ => ?_
  exact Keeps.bind (idle_removeFromJobChain true) fun _ => kept_close Idle.kept

theorem idle_repeatOuterState : KeepsOrder o (Idle m) (repeatOuterState o) := by
  refine Keeps.get_bind_any fun w => Keeps.ite (fun _ => Keeps.pure _) fun _ => ?_
  refine Keeps.bind (Keeps.ofExcept _) fun outer => Keeps.bind (Keeps.ofExcept _) fun node => ?_
  exact Keeps.bind (idle_removeFromJobChain false) fun _ => Keeps.pure _

section End

variable (hset : ∀ state, KeepsOrder o (Idle m) (setState o state))
include hset

theorem idle_moveToNestedJobChain (outerState : Option String) (success : Bool) :
    KeepsOrder o (Idle m) (moveToNestedJobChain setState o outerState success) := by
  refine Keeps.bind (idle_nestedJobChain outerState success) fun next => ?_
  cases next with
  | none => exact Keeps.pure false
  | some next =>
      refine Keeps.bind (Keeps.get_bind_any fun w => ?_) fun _ => Keeps.pure true
      refine Keeps.bind (idle_write fun x hx => hx) fun _ => Keeps.bind ?_ fun _ =>
        idle_write fun x hx => hx
      refine Keeps.get_bind_any fun w => Keeps.ite (fun _ => ?_) fun _ =>
        idle_placeInJobChain next false
      exact Keeps.bind (Keeps.ofExcept _) fun first => hset _

theorem idle_handleEndStateOfNestedJobChain :
    KeepsOrder o (Idle m) (handleEndStateOfNestedJobChain setState o) := by
  refine Keeps.bind (idle_write fun x hx => hx) fun _ => Keeps.tryCatch ?_ fun _ => ?_
  · refine Keeps.get_bind_any fun w => Keeps.ite (fun _ => Keeps.pure _) fun _ => ?_
    refine Keeps.bind (Keeps.ofExcept _) fun outer => Keeps.bind (Keeps.ofExcept _) fun _ => ?_
    exact Keeps.bind (idle_moveToNestedJobChain hset _ _) fun _ => Keeps.pure _
  · refine Keeps.bind (idle_removeFromJobChain true) fun _ => ?_
    exact Keeps.bind (kept_close Idle.kept) fun _ => Keeps.pure false

theorem idle_repeatFrom (nextStart : Nat) (outerState : Option String) :
    KeepsOrder o (Idle m) (repeatFrom setState o nextStart outerState) := by
  refine Keeps.get_bind_any fun w => ?_
  cases outerState with
  | none => exact Keeps.bind (hset _) fun _ => idle_setSetback _ _
  | some s =>
      refine Keeps.bind (idle_write fun x hx => hx) fun _ => ?_
      refine Keeps.bind (idle_nestedJobChain _ _) fun nested => ?_
      cases nested with
      | none => exact Keeps.throw _
      | some nested =>
          refine Keeps.get_bind_any fun w => Keeps.bind (Keeps.ofExcept _) fun first => ?_
          refine Keeps.bind (hset _) fun _ => Keeps.bind (idle_setSetback _ _) fun _ => ?_
          exact idle_placeInJobChain nested false

theorem idle_handleEndStateWith : KeepsOrder o (Idle m) (handleEndStateWith setState o) := by
  refine Keeps.bind (Keeps.get_bind_any fun w => ?_) fun isEnd => Keeps.ite (fun _ => ?_) fun _ =>
    idle_write fun x hx => hx
  · exact Keeps.ite (fun _ => Keeps.pure _) fun _ => idle_handleEndStateOfNestedJobChain hset
  refine Keeps.bind (Keeps.get_bind_any fun w => ?_) fun _ => idle_checkForReplacingOrRemoving
  refine Keeps.ite (fun _ => ?_) fun _ => idle_blacklistOrRemove
  refine Keeps.bind (idle_write fun x hx => hx) fun _ => ?_
  refine Keeps.bind idle_repeatOuterState fun outerState => ?_
  exact Keeps.tryCatch (idle_repeatFrom hset _ outerState) fun _ => Keeps.pure ()

end End

/-! ## After a task -/

/-- `set_state1`, by induction on the depth of the calls. -/
theorem idle_setState1 (depth : Nat) (state : Option String) :
    KeepsOrder o (Idle m) (OrderMove.setState1 depth o state) := by
  induction depth generalizing state with
  | zero => exact Keeps.throw _
  | succ depth ih =>
      exact idle_setState1With (idle_handleEndStateWith (idle_setStateWith ih)) state

theorem idle_handleEndState (depth : Nat) :
    KeepsOrder o (Idle m) (OrderMove.handleEndState depth o) :=
  idle_handleEndStateWith (idle_setStateWith (idle_setState1 depth))

theorem idle_leaveState (depth : Nat) (transition : Transition) (jobNode : Option NodeRef) :
    KeepsOrder o (Idle m) (leaveState depth o transition jobNode) := by
  refine Keeps.get_bind_any fun w => ?_
  cases jobNode with
  | none => exact Keeps.pure ()
  | some n =>
      refine Keeps.ite (fun _ => idle_setSuspended true) fun _ => Keeps.ite (fun _ => ?_) fun _ =>
        idle_setState1 depth _
      exact Keeps.bind (idle_write fun x hx => hx) fun _ => idle_handleEndState depth

theorem idle_makeTransition (depth : Nat) (transition : Transition) (jobNode : Option NodeRef)
    (force : Bool) : KeepsOrder o (Idle m) (makeTransition depth o transition jobNode force) := by
  refine Keeps.get_bind_any fun w => ?_
  refine Keeps.ite (fun _ => idle_leaveState depth transition jobNode) fun _ => ?_
  refine Keeps.ite (fun _ => idle_handleEndState depth) fun _ => ?_
  refine Keeps.ite (fun _ => Keeps.get_bind_any fun w => ?_) fun _ => Keeps.pure ()
  exact Keeps.bind (Keeps.onlyIf fun _ => idle_clearSetback) fun _ => idle_setState1 depth _

theorem idle_postprocessing2 (depth : Nat) :
    KeepsOrder o (Idle m) (postprocessing2 depth o) := by
  refine Keeps.bind (idle_write fun x hx => hx) fun _ => ?_
  refine Keeps.bind (Keeps.get_bind_any fun w => ?_) fun _ => Keeps.get_bind_any fun w =>
    Keeps.onlyIf fun _ => kept_close Idle.kept
  cases (w.order o).jobChain with
  | none => exact Keeps.pure ()
  | some c =>
      cases (w.order o).jobChainNode with
      | none => exact Keeps.pure ()
      | some n => exact Keeps.onlyIf fun _ => idle_setState1 depth _

end OrderCount
