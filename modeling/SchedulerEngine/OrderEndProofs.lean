import SchedulerEngine.OrderMethodsProofs

/-! # The end of an order, and its next beginning

    `set_state` moves an order to a node; at an end node `handle_end_state`
    repeats the order, moves it to the next nested job chain, blacklists or
    removes it, and may set its state again.  All of it keeps closed predicates,
    by induction on the depth of the calls. -/

namespace OrderEnd

open FileBased (Failure)
open Execution Execution.Exec JobChainNode OrderWorld OrderQueue OrderMove OrderPlacement
open OrderClosed OrderMethods

variable {μ μ₂ : Mode} {o : OrderRef} {w : World} {I I₂ : World → Prop} {c : ChainRef}
  {n : NodeRef} {f : Order → Order} {setState : OrderRef → Option String → Method Unit}

/-! ## Looking for a nested job chain -/

/-- Looking for a nested job chain only writes the outer state. -/
theorem keeps_nestedJobChainLoop {P : World → Prop}
    (hP : ∀ w s, P w → P (w.setOrder o fun x => { x with outerJobChainState := s }))
    (outer : ChainRef) (success : Bool) (i : Nat) :
    Keeps P (nestedJobChainLoop o outer success i) := by
  induction i with
  | zero => exact Keeps.pure none
  | succ i ih =>
      refine Keeps.get_bind fun w hw => ?_
      cases (w.chain outer).nodeFromStateOrNull (w.order o).outerJobChainState with
      | none => exact hw
      | some outerNode =>
          refine Keeps.ite (fun _ => ?_) (fun _ => Keeps.pure none) w hw
          cases w.jobChainOrNull outerNode.nestedJobChainPath with
          | none => exact Keeps.pure none
          | some nested =>
              refine Keeps.bind (Keeps.ofExcept _) fun _ => Keeps.bind (Keeps.ofExcept _) fun _ => ?_
              refine Keeps.ite (fun _ => Keeps.pure _) fun _ => ?_
              exact Keeps.bind (fun w hw => hP w _ hw) fun _ => ih

theorem keeps_nestedJobChain {P : World → Prop}
    (hP : ∀ w s, P w → P (w.setOrder o fun x => { x with outerJobChainState := s }))
    (outerState : Option String) (success : Bool) :
    Keeps P (nestedJobChain o outerState success) := by
  refine Keeps.get_bind fun w hw => ?_
  refine Keeps.bind (Keeps.ofExcept _) (fun outer => ?_) w hw
  exact Keeps.bind (fun w hw => hP w _ hw) fun _ => keeps_nestedJobChainLoop hP outer success _

theorem outerState_of_closed (C : Closed μ o I) (w : World) (s : Option String) (hw : I w) :
    I (w.setOrder o fun x => { x with outerJobChainState := s }) :=
  C.move w _ hw (.write _ (.of_eq rfl) fun _ => rfl)

/-! ## Placing an order in a job chain -/

theorem keeps_setNextStartTime (C : Closed μ o I) : Keeps I (setNextStartTime o) :=
  Keeps.get_bind fun w hw =>
    Keeps.ite (fun _ => keeps_setSetback C _ _) (fun _ => keeps_setSetback C _ _) w hw

theorem keeps_activateSchedule (C : Closed μ o I) : Keeps I (activateSchedule o) :=
  Keeps.get_bind fun w hw => Keeps.onlyIf (fun _ =>
    Keeps.ite (fun _ => keeps_setSetback C _ _) fun _ => keeps_setNextStartTime C) w hw

/-- An order that is untouched where it will be: in the job chain it is placed in,
    or, while it stays in its outer job chain, in the nested one. -/
def Fresh (μ : Mode) (fromStack : Bool) (o : OrderRef) (w : World) : Prop :=
  μ.counted → (w.order o).isNestedTouched = false ∧
    ((w.order o).isTouched = false ∨ (w.order o).outerJobChainPath ≠ "" ∧ fromStack = false)

theorem Fresh.untouched {fromStack : Bool} (h : Fresh μ fromStack o w) (hk : μ.counted) :
    (w.order o).isTouchedInCurrentJobChain = false := by
  obtain ⟨hn, ht⟩ := h hk
  simp only [Order.isTouchedInCurrentJobChain, hn]
  obtain ht | ht := ht
  · rw [ht, ite_self]
  · rw [if_neg ht.1]

/-- Without a new outer job chain an order stays fresh. -/
theorem closed_fresh (C : Closed μ o I) (μ₂ : Mode) (fromStack : Bool) :
    Closed { μ with outer := False } o fun w => I w ∧ Fresh μ₂ fromStack o w := by
  have C : Closed { μ with outer := False } o I := C.mono ⟨id, id, id, id, False.elim⟩
  refine C.and fun w w' hp hfresh hm hk => ?_
  have hkeep := hm.keeping hp
  obtain ⟨hn, ht⟩ := hfresh hk
  refine ⟨Bool.eq_false_iff.mpr fun h => Bool.eq_false_iff.mp hn (hkeep.isNestedTouched h), ?_⟩
  refine ht.imp (fun ht => ?_) fun ht => ?_
  · exact Bool.eq_false_iff.mpr fun h => Bool.eq_false_iff.mp ht (hkeep.isTouched h)
  · rw [hkeep.outerJobChainPath id]
    exact ht

/-- The mode of what is done to an order that stays out of job chains and in its
    outer one. -/
def Mode.idle (μ : Mode) : Mode := { μ with entering := False, outer := False }

theorem Mode.idle_below (μ : Mode) : (Mode.idle μ).Below μ :=
  ⟨id, id, id, False.elim, False.elim⟩

/-- What holds of an order while it is placed. -/
def Placing (I : World → Prop) (μ₂ : Mode) (fromStack : Bool) (o : OrderRef) (w : World) :
    Prop :=
  (I w ∧ (w.order o).jobChain = none) ∧ Fresh μ₂ fromStack o w

theorem closed_placing (C : Closed μ o I) (μ₂ : Mode) (fromStack : Bool) :
    Closed (Mode.idle μ) o (Placing I μ₂ fromStack o) :=
  closed_fresh ((C.mono (Mode.idle_below μ)).unplaced id) μ₂ fromStack

/-- Keys of an order that is being placed may be written. -/
theorem keeps_writeOut (C : Closed μ o I) (hf : ∀ x, Same x (f x)) {μ₂ : Mode}
    {fromStack : Bool} : Keeps (Placing I μ₂ fromStack o) (write o f) := by
  intro w hw
  have hq := ((C.placed w hw.1.1 o).unqueued_of_unplaced hw.1.2).2
  have hmove : Move (Mode.idle μ) o w (rekeyed w o f) := .rekey f (hf _)
  rw [rekeyed_of_not_queued hq] at hmove
  exact (closed_placing C μ₂ fromStack).move w _ hw hmove

/-- Neither flag is set: this outlives a change of the outer job chain. -/
theorem closed_untouched (C : Closed μ o I) (μ₂ : Mode) :
    Closed μ o fun w => I w ∧ (μ₂.counted → (w.order o).isNestedTouched = false
      ∧ (w.order o).isTouched = false) := by
  refine C.and fun w w' hp hfresh hm hk => ?_
  have hkeep := hm.keeping hp
  obtain ⟨hn, ht⟩ := hfresh hk
  exact ⟨Bool.eq_false_iff.mpr fun h => Bool.eq_false_iff.mp hn (hkeep.isNestedTouched h),
    Bool.eq_false_iff.mpr fun h => Bool.eq_false_iff.mp ht (hkeep.isTouched h)⟩

/-- The order leaves the job chain it is in, and stays fresh. -/
theorem leaveForPlacing_spec (C : Closed μ o I) (ho : μ.outer) (μ₂ : Mode) (fromStack : Bool)
    {E : Failure → World → Prop} :
    Triple (fun w => I w ∧ Fresh μ₂ fromStack o w) (removeFromJobChain o fromStack)
      (fun _ w => I w ∧ Fresh μ₂ fromStack o w) E := by
  cases fromStack with
  | false =>
      exact (removeFromJobChain_spec (closed_fresh C μ₂ false) false nofun).consequence (fun _ h => h)
        (fun _ _ h => h.1) fun _ _ h => h
  | true =>
      have C' := closed_untouched C μ₂
      refine (removeFromJobChain_spec C' true fun _ => ho).consequence ?_ ?_ fun _ _ h => h
      · rintro w ⟨hw, hfresh⟩
        refine ⟨hw, fun hk => ?_⟩
        obtain ⟨hn, ht⟩ := hfresh hk
        exact ⟨hn, ht.resolve_right fun h => nomatch h.2⟩
      · rintro _ w ⟨⟨hw, hfresh⟩, -⟩
        exact ⟨hw, fun hk => ⟨(hfresh hk).1, Or.inl (hfresh hk).2⟩⟩

/-- Another outer job chain for an order that is placed and not touched. -/
theorem placing_reouter (C : Closed μ o I) (ho : μ.outer) {μ₂ : Mode} {fromStack : Bool}
    (path : String) (hw : Placing I μ₂ fromStack o w)
    (hf : Same { w.order o with outerJobChainPath := path } (f (w.order o)))
    (hkey : orderKey (f (w.order o)) = orderKey (w.order o))
    (ht : μ₂.counted → (w.order o).isTouched = false) :
    Placing I μ₂ fromStack o (w.setOrder o f) := by
  obtain ⟨⟨hI, hnone⟩, hfresh⟩ := hw
  refine ⟨⟨C.move w _ hI (.reouter path f ho hf hkey (Or.inl hnone)), ?_⟩, fun hk => ?_⟩
  · rw [World.setOrder_order_self]
    exact hf.jobChain.trans hnone
  · rw [World.setOrder_order_self]
    refine ⟨Bool.eq_false_iff.mpr fun h => ?_, Or.inl (Bool.eq_false_iff.mpr fun h => ?_)⟩
    · exact Bool.eq_false_iff.mp (hfresh hk).1 (hf.isNestedTouched h)
    · exact Bool.eq_false_iff.mp (ht hk) (hf.isTouched h)

theorem keeps_placeToBe (C : Closed μ o I) (ho : μ.outer) (μ₂ : Mode) (fromStack : Bool)
    (c : ChainRef) : Keeps (Placing I μ₂ fromStack o) (placeToBe c o) := by
  have C' := closed_placing C μ₂ fromStack
  refine Keeps.of_triple (Triple.at_state fun w hw => Triple.get_bind_at ?_)
  refine Triple.bind (Q := fun _ s => s = w)
    (Triple.ofExcept (fun _ _ _ h => h) fun _ _ _ h => h ▸ hw) fun node => ?_
  refine Triple.ite (fun _ => ?_) fun _ => Triple.pure fun _ h => h ▸ hw
  -- an order in no outer job chain is touched in none
  refine Triple.bind (Q := fun _ s => s = w ∧ (w.order o).outerJobChainPath = "")
    (Triple.require (fun h s hs => ⟨hs, of_decide_eq_true h⟩) fun _ _ h => h ▸ hw) fun _ => ?_
  refine Triple.bind (Q := fun _ => Placing I μ₂ fromStack o) (Triple.modify ?_) fun _ => ?_
  · rintro _ ⟨rfl, hpath⟩
    refine placing_reouter C ho _ hw (.of_eq rfl) rfl fun hk => ?_
    exact (hw.2 hk).2.resolve_right fun h => h.1 hpath
  refine Keeps.triple ?_
  refine Keeps.bind (keeps_nestedJobChain (outerState_of_closed C') _ _) fun nested => ?_
  cases nested with
  | none => exact Keeps.throw _
  | some nested =>
      refine Keeps.get_bind fun w hw => ?_
      refine Keeps.bind (Keeps.ofExcept _) (fun first => ?_) w hw
      exact Keeps.bind (keeps_write C' (fun _ => rfl) fun _ => rfl) fun _ => Keeps.pure _

section Placing

variable (C : Closed μ o I) (C₂ : Closed μ₂ o I₂) (hI : ∀ w, I w → I₂ w)
include C C₂ hI

/-- `try_place_in_job_chain` of a new order. Until it is registered it keeps `I`. -/
theorem placeNew_spec (ho : μ.outer) (he : μ₂.entering) (c : ChainRef) (fromStack : Bool) :
    Triple (fun w => I w ∧ Fresh μ₂ fromStack o w) (placeNew o c fromStack) (fun _ => I₂)
      fun _ => I := by
  have C' := closed_placing C μ₂ fromStack
  have hE : ∀ (_ : Failure) w, Placing I μ₂ fromStack o w → I w := fun _ _ h => h.1.1
  refine Triple.get_bind_any fun w => ?_
  refine Triple.bind (Q := fun _ s => I s ∧ Fresh μ₂ fromStack o s)
    (Triple.onlyIf (fun _ => leaveForPlacing_spec C ho μ₂ fromStack) fun _ _ h => h) fun _ => ?_
  refine Triple.at_state fun w hw => Triple.get_bind_at ?_
  refine Triple.bind (Q := fun _ => Placing I μ₂ fromStack o)
    (Triple.require ?_ fun _ _ h => h ▸ hw.1) fun _ => ?_
  · rintro hnone _ rfl
    exact ⟨⟨hw.1, Option.isNone_iff_eq_none.mp hnone⟩, hw.2⟩
  refine Keeps.bind_triple (Keeps.onlyIf fun _ => ?_) hE fun _ => ?_
  · exact Keeps.bind (Keeps.ofExcept _) fun _ => keeps_setState2 C' _
  refine Triple.get_bind_any fun w => ?_
  refine Keeps.bind_triple (Keeps.ofExcept _) hE fun node => ?_
  refine Keeps.bind_triple (Keeps.onlyIf fun hs => ?_) hE fun _ => ?_
  · intro w hw
    show Placing I μ₂ fromStack o (w.setOrder o fun x =>
      { x with outerJobChainPath := "", outerJobChainState := none })
    refine placing_reouter C ho "" hw (.of_eq rfl) rfl fun hk => ?_
    exact (hw.2 hk).2.resolve_right fun h => Bool.noConfusion (hs.symm.trans h.2)
  refine Keeps.bind_triple (keeps_placeToBe C ho μ₂ fromStack c) hE fun place => ?_
  refine Triple.get_bind_any fun w => ?_
  refine Keeps.bind_triple (Keeps.ofExcept _) hE fun referenced => ?_
  refine Keeps.bind_triple (Keeps.onlyIf fun _ => keeps_setState2 C' _) hE fun _ => ?_
  refine Keeps.bind_triple (Keeps.require _ _) hE fun _ => ?_
  refine Keeps.bind_triple (Keeps.onlyIf fun _ => keeps_writeOut C ?_) hE fun _ => ?_
  · exact fun _ => .of_eq rfl
  refine Keeps.bind_triple (keeps_writeOut C ?_) hE fun _ => ?_
  · exact fun _ => .of_eq rfl
  refine Keeps.bind_triple (keeps_activateSchedule C') hE fun _ => ?_
  refine Keeps.bind_triple (Keeps.onlyIf fun _ => keeps_writeOut C ?_) hE fun _ => ?_
  · exact fun _ => .of_eq rfl
  refine (addToJobChain_spec C C₂ hI he _).consequence ?_ (fun _ _ h => h) fun _ _ h => h
  exact fun w hw => ⟨hw.1.1, hw.1.2, fun hk => hw.2.untouched hk⟩

/-- `try_place_in_job_chain`. -/
theorem tryPlaceInJobChain_spec (ho : μ.outer) (he : μ₂.entering) (c : ChainRef)
    (fromStack existsException : Bool) :
    Triple (fun w => I w ∧ Fresh μ₂ fromStack o w)
      (tryPlaceInJobChain o c fromStack existsException) (fun _ => I₂) fun _ => I := by
  have hE : ∀ (_ : Failure) w, I w ∧ Fresh μ₂ fromStack o w → I w := fun _ _ h => h.1
  refine Triple.get_bind_any fun w => ?_
  refine Keeps.bind_triple (Keeps.require _ _) hE fun _ => ?_
  refine Keeps.bind_triple (Keeps.onlyIf fun _ => ?_) hE fun _ => ?_
  · exact Keeps.bind (Keeps.ofExcept _) fun _ => Keeps.pure ()
  refine Keeps.bind_triple (Keeps.require _ _) hE fun _ => ?_
  refine Triple.bind (Q := fun _ => I₂) (Triple.onlyIf (fun _ => ?_) fun _ w h => hI w h.1)
    fun _ => Triple.pure fun _ h => h
  exact placeNew_spec C C₂ hI ho he c fromStack

/-- `place_in_job_chain`. -/
theorem placeInJobChain_spec (ho : μ.outer) (he : μ₂.entering) (c : ChainRef)
    (fromStack : Bool) :
    Triple (fun w => I w ∧ Fresh μ₂ fromStack o w) (placeInJobChain o c fromStack)
      (fun _ => I₂) fun _ => I :=
  (tryPlaceInJobChain_spec C C₂ hI ho he c fromStack true).bind fun _ => Triple.pure fun _ h => h

end Placing

/-! ## Nested job chains -/

/-- `setState` keeps what the moves keep. -/
def KeepsClosed (μ : Mode) (setState : OrderRef → Option String → Method Unit)
    (o : OrderRef) : Prop :=
  ∀ I, Closed μ o I → ∀ state, Keeps I (setState o state)

/-- What has to be known of an order that goes to another nested job chain. -/
def MayEnterNested (μ : Mode) (o : OrderRef) (w : World) : Prop :=
  μ.counted → (w.order o).isNestedTouched = false ∧ (w.order o).outerJobChainPath ≠ ""

theorem MayEnterNested.fresh (h : MayEnterNested μ o w) : Fresh μ false o w := fun hk =>
  ⟨(h hk).1, Or.inr ⟨(h hk).2, rfl⟩⟩

theorem closed_notNestedTouched (C : Closed μ o I) (μ₂ : Mode) :
    Closed μ o fun w => I w ∧ (μ₂.counted → (w.order o).isNestedTouched = false) :=
  C.and fun _ _ hp hn hm hk => Bool.eq_false_iff.mpr fun h =>
    Bool.eq_false_iff.mp (hn hk) ((hm.keeping hp).isNestedTouched h)

section Nested

variable (C : Closed μ o I) (C₂ : Closed μ₂ o I₂) (hI : ∀ w, I w → I₂ w)
  (hset : KeepsClosed μ setState o)
include C C₂ hI hset

theorem enterNested_spec (ho : μ.outer) (he : μ₂.entering) (next : ChainRef) :
    Triple (fun w => I w ∧ Fresh μ₂ false o w) (enterNested setState o next) (fun _ => I₂)
      fun _ => I := by
  refine Triple.get_bind_any fun w => Triple.ite (fun _ => ?_) fun _ => ?_
  · refine Keeps.bind_triple (Keeps.ofExcept _) (fun _ _ h => h.1) fun first => ?_
    exact (hset I C _).triple.consequence (fun _ h => h.1) (fun _ w h => hI w h) fun _ _ h => h
  · exact placeInJobChain_spec C C₂ hI ho he next false

/-- The outer job chain is written last; the order is then not touched in the
    nested one. -/
theorem moveToNested_spec (ho : μ.outer) (he : μ₂.entering) (ho₂ : μ₂.outer)
    (next : ChainRef) :
    Triple (fun w => I w ∧ MayEnterNested μ₂ o w) (moveToNested setState o next) (fun _ => I₂)
      fun _ => I := by
  have C' := closed_notNestedTouched C μ₂
  have C₂' := closed_notNestedTouched C₂ μ₂
  refine Triple.at_state fun w hw => Triple.get_bind_at ?_
  refine Triple.bind (Q := fun _ s => (I s ∧ (μ₂.counted → (s.order o).isNestedTouched = false))
    ∧ Fresh μ₂ false o s) (Triple.modify ?_) fun _ => ?_
  · rintro _ rfl
    refine ⟨C'.move _ _ ⟨hw.1, fun hk => (hw.2 hk).1⟩ (.write _ (.of_eq rfl) fun _ => rfl), ?_⟩
    intro hk
    rw [World.setOrder_order_self]
    exact hw.2.fresh hk
  refine Triple.bind ((enterNested_spec C' C₂' (fun w h => ⟨hI w h.1, h.2⟩) hset ho he
    next).consequence (fun _ h => h) (fun _ _ h => h) fun _ _ h => h.1) fun _ => ?_
  refine Triple.modify ?_
  rintro s ⟨hs, hn⟩
  exact C₂.move s _ hs (.reouter _ _ ho₂ (.of_eq rfl) rfl
    (Or.inr fun hk => ⟨hn hk, (hw.2 hk).2⟩))

/-- If there is no nested job chain to go to, only the outer state is written. -/
theorem moveToNestedJobChain_spec (ho : μ.outer) (he : μ₂.entering) (ho₂ : μ₂.outer)
    {P : World → Prop}
    (hP : ∀ w s, P w → P (w.setOrder o fun x => { x with outerJobChainState := s }))
    (outerState : Option String) (success : Bool) :
    Triple (fun w => I w ∧ MayEnterNested μ₂ o w ∧ P w)
      (moveToNestedJobChain setState o outerState success)
      (fun moved w => I₂ w ∧ (moved = false → I w ∧ P w)) fun _ => I := by
  have hkeeps : ∀ w s, I w ∧ MayEnterNested μ₂ o w ∧ P w →
      I (w.setOrder o fun x => { x with outerJobChainState := s })
      ∧ MayEnterNested μ₂ o (w.setOrder o fun x => { x with outerJobChainState := s })
      ∧ P (w.setOrder o fun x => { x with outerJobChainState := s }) := by
    rintro w s ⟨hw, hmay, hp⟩
    refine ⟨outerState_of_closed C w s hw, fun hk => ?_, hP w s hp⟩
    rw [World.setOrder_order_self]
    exact hmay hk
  refine Keeps.bind_triple (keeps_nestedJobChain hkeeps outerState success)
    (fun _ _ h => h.1) fun next => ?_
  cases next with
  | none => exact Triple.pure fun w h => ⟨hI w h.1, fun _ => ⟨h.1, h.2.2⟩⟩
  | some next =>
      refine Triple.bind ((moveToNested_spec C C₂ hI hset ho he ho₂ next).consequence
        (fun _ h => ⟨h.1, h.2.1⟩) (fun _ _ h => h) fun _ _ h => h) fun _ => ?_
      exact Triple.pure fun w h => ⟨h, nofun⟩

end Nested

/-! ## The end -/

/-- What has to be known of an order that ends: it may stand in a queue only if it
    will not be blacklisted. -/
def MayEnd (μ : Mode) (o : OrderRef) (w : World) : Prop :=
  μ.apart → (w.order o).isInOrderQueue = true →
    ((w.order o).suspended = false ∧ (w.order o).file ≠ .agentFile
      ∧ (w.order o).file ≠ .localFile true)
    ∨ (w.order o).outerJobChainPath = "" ∧ Order.isRepeated (w.order o) = true

theorem MayEnd.outerState (h : MayEnd μ o w) (s : Option String) :
    MayEnd μ o (w.setOrder o fun x => { x with outerJobChainState := s }) := by
  intro ha hq
  rw [World.setOrder_order_self] at hq ⊢
  refine (h ha hq).imp id fun ⟨hp, hr⟩ => ⟨hp, ?_⟩
  simp only [Order.isRepeated, hp] at hr ⊢
  exact hr

theorem MayEnd.notNestedTouched (h : MayEnd μ o w) :
    MayEnd μ o (w.setOrder o fun x => { x with isNestedTouched := false }) := by
  intro ha hq
  rw [World.setOrder_order_self] at hq ⊢
  exact h ha hq

theorem mayEnd_of_unqueued (h : (w.order o).isInOrderQueue = false) : MayEnd μ o w :=
  fun _ hq => Bool.noConfusion (h.symm.trans hq)

theorem keeps_checkForReplacingOrRemoving (C : Closed μ o I) (ho : μ.outer) :
    Keeps I (checkForReplacingOrRemoving o) := by
  refine Keeps.tryCatch (Keeps.get_bind fun w hw => ?_) fun _ => Keeps.pure ()
  refine Keeps.onlyIf (fun _ => ?_) w hw
  cases (w.order o).fileChange with
  | unchanged => exact Keeps.pure ()
  | toBeRemoved => exact keeps_removeFromJobChain C true fun _ => ho
  | toBeReplaced => exact keeps_close C

theorem blacklistOrRemove_spec (C : Closed μ o I) (ho : μ.outer) :
    Triple (fun w => I w ∧ (μ.apart → (w.order o).isInOrderQueue = true →
        (w.order o).suspended = false ∧ (w.order o).file ≠ .agentFile
          ∧ (w.order o).file ≠ .localFile true)) (blacklistOrRemove o) (fun _ => I)
      fun _ => I := by
  refine Triple.at_state fun w hpre => Triple.get_bind_at ?_
  obtain ⟨hw, hmay⟩ := hpre
  have hfile : ((w.order o).file = .agentFile ∨ (w.order o).file = .localFile true) →
      μ.apart → (w.order o).isInOrderQueue = false := by
    intro hf ha
    rw [Bool.eq_false_iff]
    intro hq
    exact hf.elim (hmay ha hq).2.1 (hmay ha hq).2.2
  have hsusp : (w.order o).suspended = true → μ.apart →
      (w.order o).isInOrderQueue = false := by
    intro hs ha
    rw [Bool.eq_false_iff]
    intro hq
    exact Bool.noConfusion (hs.symm.trans (hmay ha hq).1)
  refine Triple.bind (Q := fun _ => I) (Triple.onlyIf (fun _ => ?_) fun _ _ h => h ▸ hw)
    fun _ => Keeps.triple ?_
  · refine Triple.bind (Q := fun _ s => I s ∧ ((w.order o).suspended = true → μ.apart →
      (s.order o).isInOrderQueue = false)) (Triple.onlyIf (fun hf => ?_) ?_) fun _ => ?_
    · refine (setOnBlacklist_spec C).consequence ?_ (fun _ _ h => ⟨h.1, fun _ => h.2⟩)
        fun _ _ h => h
      rintro _ rfl
      exact ⟨hw, hfile hf⟩
    · rintro - _ rfl
      exact ⟨hw, hsusp⟩
    · refine Triple.onlyIf (fun hs => ?_) fun _ _ h => h.1
      exact (setOnBlacklist_spec C).consequence (fun _ h => ⟨h.1, h.2 hs⟩)
        (fun _ _ h => h.1) fun _ _ h => h
  · refine Keeps.get_bind fun w hw => Keeps.onlyIf (fun _ => ?_) w hw
    exact Keeps.bind (keeps_removeFromJobChain C true fun _ => ho) fun _ => keeps_close C

section End

variable (C : Closed μ o I) (he : μ.entering) (ho : μ.outer)
  (hset : KeepsClosed μ setState o)
include C he ho hset

/-- If the end of a nested job chain is the real end, the order is where it was. -/
theorem handleEndStateOfNestedJobChain_spec {E : Failure → World → Prop} :
    Triple (fun w => I w ∧ MayEnd μ o w ∧ (w.order o).outerJobChainPath ≠ "")
      (handleEndStateOfNestedJobChain setState o)
      (fun isEnd w => I w ∧ (isEnd = true →
        MayEnd μ o w ∧ (w.order o).isNestedTouched = false)) E := by
  refine Triple.bind (Q := fun _ w => I w ∧ MayEnterNested μ o w ∧ MayEnd μ o w
    ∧ (w.order o).isNestedTouched = false) (Triple.modify ?_) fun _ => ?_
  · rintro w ⟨hw, hmay, hpath⟩
    refine ⟨C.move w _ hw (.write _ ?_ fun _ => rfl), fun _ => ?_, hmay.notNestedTouched, ?_⟩
    · exact ⟨⟨rfl, rfl, rfl, rfl, rfl⟩, rfl, rfl, id, nofun⟩
    · rw [World.setOrder_order_self]
      exact ⟨rfl, hpath⟩
    · rw [World.setOrder_order_self]
  refine Triple.tryCatch (F := fun _ => I) ?_ fun _ => ?_
  · have hE : ∀ (_ : Failure) w, I w ∧ MayEnterNested μ o w ∧ MayEnd μ o w
        ∧ (w.order o).isNestedTouched = false → I w := fun _ _ h => h.1
    refine Triple.get_bind_any fun w => Triple.ite (fun _ => ?_) fun _ => ?_
    · exact Triple.pure fun w h => ⟨h.1, fun _ => h.2.2⟩
    refine Keeps.bind_triple (Keeps.ofExcept _) hE fun outer => ?_
    refine Keeps.bind_triple (Keeps.ofExcept _) hE fun outerNode => ?_
    refine Triple.bind (moveToNestedJobChain_spec C C (fun _ h => h) hset ho he ho
      (P := fun w => MayEnd μ o w ∧ (w.order o).isNestedTouched = false) ?_ _ _) fun moved => ?_
    · rintro w s ⟨hmay, hn⟩
      refine ⟨hmay.outerState s, ?_⟩
      rw [World.setOrder_order_self]
      exact hn
    · refine Triple.pure fun w h => ⟨h.1, fun hm => ?_⟩
      rw [Bool.not_eq_true'] at hm
      exact (h.2 hm).2
  · refine Triple.bind (removeFromJobChain_spec C true fun _ => ho) fun _ => ?_
    refine Triple.bind ((close_spec C).consequence (fun _ h => h.1) (fun _ _ h => h)
      fun _ _ h => h) fun _ => ?_
    exact Triple.pure fun w h => ⟨h.1, nofun⟩

theorem isRealEndState_spec {E : Failure → World → Prop} :
    Triple (fun w => I w ∧ MayEnd μ o w) (isRealEndState setState o)
      (fun isEnd w => I w ∧ (isEnd = true → MayEnd μ o w
        ∧ ((w.order o).outerJobChainPath = "" ∨ (w.order o).isNestedTouched = false))) E := by
  refine Triple.at_state fun w hw => Triple.get_bind_at ?_
  refine Triple.ite (fun hpath => Triple.pure ?_) fun hpath => ?_
  · rintro _ rfl
    exact ⟨hw.1, fun _ => ⟨hw.2, Or.inl hpath⟩⟩
  · refine (handleEndStateOfNestedJobChain_spec C he ho hset).consequence ?_ ?_ fun _ _ h => h
    · rintro _ rfl
      exact ⟨hw.1, hw.2, hpath⟩
    · exact fun _ w h => ⟨h.1, fun hm => ⟨(h.2 hm).1, Or.inr (h.2 hm).2⟩⟩

omit he ho hset in
theorem repeatOuterState_spec :
    Triple (fun w => I w ∧ (μ.counted → (w.order o).isTouched = false ∧
        ((w.order o).outerJobChainPath = "" ∨ (w.order o).isNestedTouched = false)))
      (repeatOuterState o)
      (fun outerState w => I w ∧ (outerState ≠ none → μ.counted →
        (w.order o).isNestedTouched = false ∧ (w.order o).isTouched = false)) fun _ => I := by
  refine Triple.at_state fun w hw => Triple.get_bind_at ?_
  refine Triple.ite (fun _ => Triple.pure ?_) fun hpath => ?_
  · rintro _ rfl
    exact ⟨hw.1, fun h => absurd rfl h⟩
  have C' := closed_untouched C μ
  have hw' : I w ∧ (μ.counted → (w.order o).isNestedTouched = false
      ∧ (w.order o).isTouched = false) :=
    ⟨hw.1, fun hk => ⟨(hw.2 hk).2.resolve_left hpath, (hw.2 hk).1⟩⟩
  have hE : ∀ (_ : Failure) s, s = w → I s := fun _ _ h => h ▸ hw.1
  refine Triple.bind (Q := fun _ s => s = w)
    (Triple.ofExcept (fun _ _ _ h => h) fun e _ => hE e) fun _ => ?_
  refine Triple.bind (Q := fun _ s => s = w)
    (Triple.ofExcept (fun _ _ _ h => h) fun e _ => hE e) fun _ => ?_
  refine Triple.bind ((removeFromJobChain_spec C' false nofun).consequence (fun _ h => h ▸ hw')
    (fun _ _ h => h.1) fun _ _ h => h) fun _ => ?_
  exact Triple.pure fun s h => ⟨h.1, fun _ => h.2⟩

theorem repeatFrom_spec (nextStart : Nat) (outerState : Option String) :
    Triple (fun w => I w ∧ (outerState ≠ none → μ.counted →
        (w.order o).isNestedTouched = false ∧ (w.order o).isTouched = false))
      (repeatFrom setState o nextStart outerState) (fun _ => I) fun _ => I := by
  refine Triple.get_bind_any fun w => ?_
  cases outerState with
  | none =>
      refine Keeps.bind_triple ?_ (fun _ _ h => h.1) fun _ => ?_
      · exact fun w h => ⟨hset I C _ w h.1, fun h => absurd rfl h⟩
      · exact (keeps_setSetback C _ _).triple.consequence (fun _ h => h.1) (fun _ _ h => h)
          fun _ _ h => h
  | some s =>
      have C' := closed_untouched C μ
      refine Triple.consequence (P := fun w => I w ∧ (μ.counted →
        (w.order o).isNestedTouched = false ∧ (w.order o).isTouched = false)) ?_
        (fun w h => ⟨h.1, h.2 nofun⟩) (fun _ _ h => h) fun _ _ h => h
      have hE : ∀ (_ : Failure) w, (I w ∧ (μ.counted →
        (w.order o).isNestedTouched = false ∧ (w.order o).isTouched = false)) → I w :=
        fun _ _ h => h.1
      refine Keeps.bind_triple (keeps_write C' (fun _ => by exact rfl) fun _ => by exact rfl) hE
        fun _ => ?_
      refine Keeps.bind_triple (keeps_nestedJobChain (outerState_of_closed C') _ _) hE
        fun nested => ?_
      cases nested with
      | none => exact Triple.throw fun w h => h.1
      | some nested =>
          refine Triple.get_bind_any fun w => ?_
          refine Keeps.bind_triple (Keeps.ofExcept _) hE fun first => ?_
          refine Keeps.bind_triple (hset _ C' _) hE fun _ => ?_
          refine Keeps.bind_triple (keeps_setSetback C' _ _) hE fun _ => ?_
          refine (placeInJobChain_spec C C (fun _ h => h) ho he nested false).consequence ?_
            (fun _ _ h => h) fun _ _ h => h
          exact fun w h => ⟨h.1, fun hk => ⟨(h.2 hk).1, Or.inl (h.2 hk).2⟩⟩

theorem handleEndStateRepeatOrder_spec (nextStart : Nat) :
    Triple (fun w => I w ∧ (μ.counted → (w.order o).isTouched = false ∧
        ((w.order o).outerJobChainPath = "" ∨ (w.order o).isNestedTouched = false)))
      (handleEndStateRepeatOrder setState o nextStart) (fun _ => I) fun _ => I :=
  (repeatOuterState_spec C).bind fun outerState =>
    (repeatFrom_spec C he ho hset nextStart outerState).tryCatch fun _ =>
      Triple.pure fun _ h => h

/-- A repeated order is not touched any more; any other one is blacklisted or
    removed. -/
theorem repeatOrEnd_spec :
    Triple (fun w => I w ∧ MayEnd μ o w
        ∧ ((w.order o).outerJobChainPath = "" ∨ (w.order o).isNestedTouched = false))
      (repeatOrEnd setState o) (fun _ => I) fun _ => I := by
  refine Triple.at_state fun w hpre => Triple.get_bind_at ?_
  obtain ⟨hw, hmay, hn⟩ := hpre
  refine Triple.ite (fun _ => ?_) fun hrep => ?_
  · refine Triple.bind (Q := fun _ w => I w ∧ (μ.counted → (w.order o).isTouched = false ∧
      ((w.order o).outerJobChainPath = "" ∨ (w.order o).isNestedTouched = false)))
      (Triple.modify ?_) fun _ => handleEndStateRepeatOrder_spec C he ho hset _
    rintro _ rfl
    refine ⟨C.move _ _ hw (.write _ ?_ fun _ => rfl), fun _ => ?_⟩
    · exact ⟨⟨rfl, rfl, rfl, rfl, rfl⟩, rfl, rfl, nofun, id⟩
    · rw [World.setOrder_order_self]
      exact ⟨rfl, hn⟩
  · refine (blacklistOrRemove_spec C ho).consequence ?_ (fun _ _ h => h) fun _ _ h => h
    rintro _ rfl
    exact ⟨hw, fun ha hq => (hmay ha hq).resolve_right fun h => hrep h.2⟩

/-- `handle_end_state`. -/
theorem handleEndStateWith_spec :
    Triple (fun w => I w ∧ MayEnd μ o w) (handleEndStateWith setState o) (fun _ => I)
      fun _ => I := by
  refine Triple.bind (isRealEndState_spec C he ho hset) fun isEnd => ?_
  refine Triple.ite (fun hend => ?_) fun _ => ?_
  · refine Triple.bind ((repeatOrEnd_spec C he ho hset).consequence ?_ (fun _ _ h => h)
      fun _ _ h => h) fun _ => (keeps_checkForReplacingOrRemoving C ho).triple
    exact fun w h => ⟨h.1, (h.2 hend).1, (h.2 hend).2⟩
  · refine Triple.consequence (Keeps.triple (keeps_write C ?_ ?_)) (fun _ h => h.1)
      (fun _ _ h => h) fun _ _ h => h
    · exact fun _ => rfl
    · exact fun _ => rfl

end End

/-! ## Another state -/

section State

variable {handleEndState : OrderRef → Method Unit} (C : Closed μ o I) (he : μ.entering)
  (hend : Triple (fun w => I w ∧ MayEnd μ o w) (handleEndState o) (fun _ => I) fun _ => I)
include C he hend

omit he in
/-- An order at an end node, or at none, is in no queue. -/
theorem endIfAtEnd_spec (previousState : Option String) :
    Triple I (endIfAtEnd handleEndState o previousState) (fun _ => I) fun _ => I := by
  refine Triple.at_state fun w hw => Triple.get_bind_at ?_
  refine Triple.onlyIf (fun hcond => ?_) fun _ _ h => h ▸ hw
  refine hend.consequence ?_ (fun _ _ h => h) fun _ _ h => h
  rintro _ rfl
  refine ⟨hw, mayEnd_of_unqueued (Bool.eq_false_iff.mpr fun hq => ?_)⟩
  obtain ⟨n, hn, hty⟩ := (C.placed _ hw o).queued.mp hq
  have htype : n.node.type = .endNode := by
    have := hcond.2
    rw [hn] at this
    exact this
  rw [htype] at hty
  cases hty

omit C he hend in
theorem target_of_targetNode {state : Option String} {target : Option NodeRef}
    (h : targetNode w c state = .ok target) (hn : target = some n) :
    n.chain = c ∧ n.node ∈ (w.chain c).nodes ∧ w.action n ≠ .nextState := by
  cases state with
  | none =>
      cases h
      cases hn
  | some s =>
      cases hr : (w.chain c).referencedNodeFromState (some s) with
      | error e =>
          simp only [targetNode, hr] at h
          cases h
      | ok m =>
          simp only [targetNode, hr] at h
          cases h
          cases hn
          obtain ⟨hmem, hact⟩ := mem_of_referencedNodeFromState hr
          exact ⟨rfl, hmem, hact⟩

omit C hend in
theorem mayMove_of_targetNode {state : Option String} {target : Option NodeRef}
    (hc : (w.order o).jobChain = some c) (h : targetNode w c state = .ok target)
    (ha : μ.apart → (w.order o).isOnBlacklist = false) : MayMove μ o target w where
  ofChain n hn := by
    obtain ⟨rfl, hmem, -⟩ := target_of_targetNode h hn
    exact ⟨hc, hmem⟩
  arriving _ _ _ _ := ⟨he, ha⟩

/-- `set_state1`. -/
theorem setState1With_spec (state : Option String) :
    Triple (fun w => I w ∧ (μ.apart → (w.order o).isOnBlacklist = false))
      (setState1With handleEndState o state) (fun _ => I) fun _ => I := by
  refine Triple.at_state fun w hpre => Triple.get_bind_at ?_
  obtain ⟨hw, ha⟩ := hpre
  cases hc : (w.order o).jobChain with
  | none =>
      exact (keeps_setState2 C state).triple.consequence (fun _ h => h ▸ hw) (fun _ _ h => h)
        fun _ _ h => h
  | some c =>
      refine Triple.bind (Q := fun target s => s = w ∧ targetNode w c state = .ok target)
        (Triple.ofExcept (fun _ ht _ h => ⟨h, ht⟩) fun _ _ _ h => h ▸ hw) fun target => ?_
      refine Triple.bind ((moveToNode_spec C target).consequence ?_ (fun _ _ h => h)
        fun _ _ h => h) fun _ => endIfAtEnd_spec C hend _
      rintro _ ⟨rfl, ht⟩
      exact ⟨hw, mayMove_of_targetNode he hc ht ha⟩

/-- `set_state1` to another node: the order leaves its queue first, and need not
    stand right there. -/
theorem setState1With_away {μ' : Mode} {K : World → Prop} (CK : Closed μ' o K)
    (hout : ∀ w, K w → (w.order o).isInOrderQueue = false → I w) (state : Option String) :
    Triple (fun w => K w ∧ (∃ c target, (w.order o).jobChain = some c
        ∧ targetNode w c state = .ok target ∧ target ≠ (w.order o).jobChainNode)
        ∧ (μ.apart → (w.order o).isOnBlacklist = false))
      (setState1With handleEndState o state) (fun _ => I) fun _ => I := by
  refine Triple.at_state fun w hpre => Triple.get_bind_at ?_
  obtain ⟨hw, ⟨c, target, hc, ht, hother⟩, ha⟩ := hpre
  rw [hc]
  refine Triple.bind (Q := fun r s => s = w ∧ r = target)
    (Triple.ofExcept (fun r hr s h => ⟨h, Except.ok.inj (hr.symm.trans ht)⟩) ?_) fun r => ?_
  · intro e hr
    rw [ht] at hr
    cases hr
  refine Triple.bind ((moveAway_spec CK C hout r).consequence ?_ (fun _ _ h => h)
    fun _ _ h => h) fun _ => endIfAtEnd_spec C hend _
  rintro _ ⟨rfl, rfl⟩
  exact ⟨hw, hother, by rw [hc]; rfl, mayMove_of_targetNode he hc ht ha⟩

end State

/-- `set_state`, from `set_state1`. -/
theorem keeps_setStateWith {setState1 : OrderRef → Option String → Method Unit}
    (C : Closed μ o I) (state : Option String)
    (h : Triple (fun w => I w ∧ (μ.apart → (w.order o).isOnBlacklist = false))
      (setState1 o state) (fun _ => I) fun _ => I) :
    Keeps I (setStateWith setState1 o state) := by
  refine Keeps.of_triple (Keeps.bind_triple (keeps_clearSetback C) (fun _ _ h => h) fun _ => ?_)
  refine Triple.bind (removeFromBlacklist_spec C) fun _ => ?_
  exact h.consequence (fun _ h => ⟨h.1, fun _ => h.2⟩) (fun _ _ h => h) fun _ _ h => h

/-- `set_state1`, by induction on the depth of the calls. -/
theorem setState1_spec (he : μ.entering) (ho : μ.outer) (depth : Nat) (C : Closed μ o I)
    (state : Option String) :
    Triple (fun w => I w ∧ (μ.apart → (w.order o).isOnBlacklist = false))
      (setState1 depth o state) (fun _ => I) fun _ => I := by
  induction depth generalizing I state with
  | zero => exact Triple.throw fun _ h => h.1
  | succ depth ih =>
      have hset : KeepsClosed μ (setStateWith (setState1 depth)) o := fun I C state =>
        keeps_setStateWith C state (ih C state)
      exact setState1With_spec C he (handleEndStateWith_spec C he ho hset) state

/-- `set_state1` to another node. -/
theorem setState1_away {μ' : Mode} {K : World → Prop} (he : μ.entering) (ho : μ.outer)
    (depth : Nat) (CK : Closed μ' o K) (C : Closed μ o I)
    (hout : ∀ w, K w → (w.order o).isInOrderQueue = false → I w) (state : Option String) :
    Triple (fun w => K w ∧ (∃ c target, (w.order o).jobChain = some c
        ∧ targetNode w c state = .ok target ∧ target ≠ (w.order o).jobChainNode)
        ∧ (μ.apart → (w.order o).isOnBlacklist = false))
      (setState1 (depth + 1) o state) (fun _ => I) fun _ => I := by
  have hset : KeepsClosed μ (setStateWith (setState1 depth)) o := fun _ C state =>
    keeps_setStateWith C state (setState1_spec he ho depth C state)
  exact setState1With_away C he (handleEndStateWith_spec C he ho hset) CK hout state

/-- `set_state`. -/
theorem keepsClosed_setState (he : μ.entering) (ho : μ.outer) (depth : Nat) :
    KeepsClosed μ (OrderMove.setState depth) o := fun _ C state =>
  keeps_setStateWith C state (setState1_spec he ho depth C state)

/-- `handle_end_state`. -/
theorem handleEndState_spec (he : μ.entering) (ho : μ.outer) (depth : Nat) (C : Closed μ o I) :
    Triple (fun w => I w ∧ MayEnd μ o w) (handleEndState depth o) (fun _ => I) fun _ => I :=
  handleEndStateWith_spec C he ho (keepsClosed_setState he ho depth)

end OrderEnd
