import SchedulerEngine.ChainReplacementProofs

/-! # Commands and calls for orders

    What the outside can do to orders: the commands `add_order`, `modify_order` and
    `remove_order`, the calls of the API, and the events of the files they come from.
    A command can fail half way; what has been done till then stays. -/

namespace OrderCommand

open FileBased (Failure)
open Execution Execution.Exec JobChainNode OrderWorld OrderQueue OrderMove OrderPlacement
open OrderClosed OrderMethods OrderStep OrderEnd OrderTask ChainReplacement

/-! ## Methods of an order -/

/-- `Order::assert_no_task`. -/
def assertNoTask (o : OrderRef) (debugText : String) : Method Unit := do
  let w ← get
  match (w.order o).task with
  | some task => throw (.xc "SCHEDULER-217" [w.objName o, task.objName, debugText])
  | none => pure ()

/-- `Order::finished`. -/
def finished (w : World) (o : OrderRef) : Bool := !(w.order o).suspended && endStateReached w o

/-- `Order::clear_setback`, if the count is kept. -/
def clearSetbackKeepingCount (o : OrderRef) : Method Unit := do
  let w ← get
  onlyIf (0 < (w.order o).setbackCount) (setSetback o 0 true)

/-- `Order::persist`: the record is inserted. -/
def persist (o : OrderRef) : Method Unit := do
  let w ← get
  match (w.order o).jobChain with
  | some c =>
      onlyIf ((w.chain c).ordersAreRecoverable = true ∧ (w.order o).isInDatabase = false)
        (write o fun x => { x with isInDatabase := true })
  | none => pure ()

/-- `Order::handle_changed_schedule`, while the orders are active. -/
def handleChangedSchedule (o : OrderRef) : Method Unit := do
  let w ← get
  onlyIf ((w.order o).isTouched = false) (setNextStartTime o)

/-- `Order::set_schedule`. -/
def setSchedule (o : OrderRef) (schedule : Schedule) : Method Unit := do
  write o fun x => { x with schedule := schedule }
  handleChangedSchedule o

/-- `Order::remove`: a file-based order is to be removed, at once if it can be, and leaves its
    job chain in any case. -/
def remove (o : OrderRef) : Method Unit := do
  let w ← get
  onlyIf ((w.order o).isFileBased = true) do
    write o fun x => { x with fileChange := .toBeRemoved }
    let w ← get
    onlyIf (isRemovableOrReplaceable w o = true) (removeFromJobChain o true)
  removeFromJobChain o true

/-- The order that has the id of `o` in a job chain or in the others of its order id space. -/
def otherOrder (w : World) (c : ChainRef) (o : OrderRef) : Option OrderRef :=
  (chainWithOrderId w c (w.order o).id).bind fun d => (w.chain d).orderOrNull (w.order o).id

/-- `Order::place_or_replace_in_job_chain`: an order that is in a task is replaced when the task
    is ready with it. -/
def placeOrReplaceInJobChain (o : OrderRef) (c : ChainRef) : Method Unit := do
  let w ← get
  match otherOrder w c o with
  | none => placeInJobChain o c true
  | some other => do
      if other = o then activateSchedule o
      else do
        removeFromJobChain other true
        placeInJobChain o c true
      let w ← get
      onlyIf ((w.order other).task.isSome = true) do
        require (!(w.order other).isReplacement) (.assertion "!replaced_order->_is_replacement")
        setReplacement o true

/-- `Order::on_activate` of an order with a file. -/
def onActivate (o : OrderRef) : Method Unit := do
  let w ← get
  match w.jobChainOrNull (w.order o).fileBasedJobChainPath with
  | some c => placeOrReplaceInJobChain o c
  | none => pure ()

/-- The file of an order has changed, or is gone. -/
def onFileChanged (o : OrderRef) (change : FileChange) : Method Unit := do
  write o fun x => { x with fileChange := change }
  checkForReplacingOrRemoving o

/-- `Order::on_blacklisted_file_removed`: errors are logged. -/
def onBlacklistedFileRemoved (o : OrderRef) : Method Unit :=
  tryCatch (do
    assertNoTask o "on_blacklisted_file_removed"
    removeFromJobChain o true
    close o) fun _ => pure ()

/-- `Order::processing_error`. -/
def processingError (depth : Nat) (o : OrderRef) : Method Unit := do
  let w ← get
  let jobNode ← Exec.ofExcept (jobNodeCast (w.order o).jobChainNode)
  onlyIf ((jobNode.any fun n => n.node.isOnErrorSuspend) = true) (setSuspended o true)
  write o fun x => { x with task := none }
  postprocessing2 depth o

/-! ## Commands -/

/-- The attributes and the children of `<modify_order>`: an attribute that is missing is `none`,
    an empty state as well. -/
structure ModifyOrder where
  reset : Bool := false
  runTime : Option Schedule := none
  priority : Option Int := none
  state : Option String := none
  endState : Option (Option String) := none
  at_ : Option Nat := none
  setback : Option Bool := none
  suspended : Option Bool := none
  title : Option String := none

/-- Do what an attribute says, if it is there. -/
def whenGiven {α : Type} (value : Option α) (f : α → Method Unit) : Method Unit :=
  match value with
  | some a => f a
  | none => pure ()

/-- The last part of `execute_modify_order`: the order is written to the database, or leaves
    its job chain if it is finished. -/
def writeModified (c : ChainRef) (o : OrderRef) : Method Unit := do
  let w ← get
  onlyIf ((w.chain c).ordersAreRecoverable = true) do
    persist o
    let w ← get
    onlyIf (finished w o = true ∧ (w.order o).isFileBased = false
        ∧ (w.order o).isOnBlacklist = false) do
      removeFromJobChain o true
      close o

/-- What `execute_modify_order` does to the order. -/
def modifyOrder (depth : Nat) (c : ChainRef) (o : OrderRef) (m : ModifyOrder) : Method Unit := do
  onlyIf (m.reset = true) (reset depth o)
  whenGiven m.runTime (setSchedule o)
  whenGiven m.priority (setPriority o)
  whenGiven m.state fun s => do
    assertNoTask o "execute_modify_order"
    setState depth o (some s)
  whenGiven m.endState (setEndState o)
  whenGiven m.at_ (setAt o)
  whenGiven m.setback fun b =>
    if b then throw (.xc "SCHEDULER-351" ["true"])
    else do
      assertNoTask o "execute_modify_order"
      clearSetbackKeepingCount o
  whenGiven m.suspended (setSuspended o)
  whenGiven m.title fun title => write o fun x => { x with title := title }
  writeModified c o

/-- The order that a command names. -/
def findOrder (path id : String) : Method (ChainRef × OrderRef) := do
  let w ← get
  let c ← Exec.ofExcept (w.jobChain path)
  match (w.chain c).orderOrNull id with
  | some o => pure (c, o)
  | none => throw (.xc "SCHEDULER-162" [id, (w.chain c).path])

/-- `Command_processor::execute_modify_order`. -/
def executeModifyOrder (depth : Nat) (path id : String) (m : ModifyOrder) : Method Unit := do
  let (c, o) ← findOrder path id
  modifyOrder depth c o m

/-- `Command_processor::execute_remove_order`. -/
def executeRemoveOrder (path id : String) : Method Unit := do
  let (_, o) ← findOrder path id
  remove o

/-- `Command_processor::execute_add_order`, of the order that has been read from the command. -/
def executeAddOrder (o : OrderRef) (path : String) (replace : Bool) : Method Unit := do
  let w ← get
  let c ← Exec.ofExcept (w.jobChain path)
  if replace then placeOrReplaceInJobChain o c else placeInJobChain o c true

/-! ## The API -/

/-- What a `Com_order` and a `Com_job_chain` can be asked to do with an order. -/
inductive Call where
  | putState (state : Option String)
  | putEndState (state : Option String)
  | putPriority (priority : Int)
  | putAt (time : Nat)
  | putSuspended (suspended : Bool)
  | setback
  | removeFromJobChain
  | addOrder (c : ChainRef)
  | addOrReplaceOrder (c : ChainRef)
  | tryAddOrder (c : ChainRef)

/-- `Com_job_chain` takes orders only while the job chain is loaded. -/
def whenLoaded (c : ChainRef) (m : Method Unit) : Method Unit := do
  let w ← get
  require ((w.chain c).state = .loaded || (w.chain c).state = .active) (.xc "SCHEDULER-151" [])
  m

/-- What the call does. -/
def Call.run (depth : Nat) (o : OrderRef) : Call → Method Unit
  | putState state => setState depth o state
  | putEndState state => setEndState o state
  | putPriority priority => setPriority o priority
  | putAt time => setAt o time
  | putSuspended suspended => setSuspended o suspended
  | setback => do
      let _ ← OrderMove.setback o
      pure ()
  | removeFromJobChain => remove o
  | addOrder c => whenLoaded c (placeInJobChain o c true)
  | addOrReplaceOrder c => whenLoaded c (placeOrReplaceInJobChain o c)
  | tryAddOrder c => whenLoaded c do
      let _ ← tryPlaceInJobChain o c true false
      pure ()

/-! ## What the methods keep -/

/-- A predicate that the moves of every order keep.  An order that starts again may be touched
    till its marks are cleared; what is left of the predicate then is its own. -/
structure Lasting (μ : Mode) (I : World → Prop) : Prop where
  closed : ∀ o, Closed μ o I
  unsorted : ¬μ.sorted
  entering : μ.entering
  outer : μ.outer
  apart : μ.apart → ∀ w o, I w → (w.order o).isInOrderQueue = true →
    (w.order o).isOnBlacklist = false
  restart : ∀ o, ∃ μ₂ I₂, Closed μ₂ o I₂ ∧ (∀ w, I w → I₂ w) ∧ μ₂.entering ∧ μ₂.outer
    ∧ ¬μ₂.counted ∧ ∀ w, I₂ w → (w.order o).isTouched = false →
      (w.order o).isNestedTouched = false → I w

variable {μ : Mode} {I : World → Prop} {o : OrderRef} {c : ChainRef} {w : World}
  {f : Order → Order}

section Lasting

variable (L : Lasting μ I)
include L

theorem Lasting.loosened (o : OrderRef) : Loosened μ o I I :=
  .of_unsorted (L.closed o) L.unsorted fun ha w => L.apart ha w o

theorem keeps_change (hf : ∀ x, members (f x) = members x) : Keeps I (write o f) :=
  keeps_writeSame (L.closed o) (fun _ => .of_eq (hf _)) fun hs => absurd hs L.unsorted

omit L in
theorem keeps_assertNoTask (debugText : String) : Keeps I (assertNoTask o debugText) := by
  refine Keeps.get_bind_any fun w => ?_
  cases (w.order o).task with
  | some task => exact Keeps.throw _
  | none => exact Keeps.pure ()

theorem keeps_reset (depth : Nat) : Keeps I (reset depth o) := by
  obtain ⟨μ₂, I₂, C₂, hI, he₂, ho₂, hk₂, hback⟩ := L.restart o
  exact reset_spec (L.closed o) C₂ hI L.entering L.outer he₂ ho₂ hk₂ (L.loosened o) hback depth

theorem keeps_setSchedule (schedule : Schedule) : Keeps I (setSchedule o schedule) := by
  refine Keeps.bind (keeps_change L fun _ => rfl) fun _ => ?_
  exact Keeps.get_bind_any fun w => Keeps.onlyIf fun _ => keeps_setNextStartTime (L.closed o)

theorem keeps_setPriority (priority : Int) : Keeps I (setPriority o priority) := by
  refine Keeps.of_triple ((setPriority_spec (L.closed o) priority).consequence ?_
    (fun _ _ h => h) fun _ _ h => h)
  exact fun w hw => ⟨hw, fun hs => absurd hs L.unsorted⟩

theorem keeps_setEndState (state : Option String) : Keeps I (setEndState o state) := by
  have hend : Keeps I (write o fun x => { x with endState := state }) :=
    keeps_change L fun _ => rfl
  refine Keeps.get_bind_any fun w => ?_
  cases state with
  | none => exact hend
  | some s =>
      cases (w.order o).jobChain with
      | none => exact hend
      | some c =>
          exact Keeps.bind (Keeps.ofExcept _) fun _ => hend

theorem keeps_clearSetbackKeepingCount : Keeps I (clearSetbackKeepingCount o) :=
  Keeps.get_bind_any fun _ => Keeps.onlyIf fun _ => keeps_setSetback (L.closed o) 0 true

theorem keeps_persist : Keeps I (persist o) := by
  refine Keeps.get_bind_any fun w => ?_
  cases (w.order o).jobChain with
  | none => exact Keeps.pure ()
  | some c => exact Keeps.onlyIf fun _ => keeps_change L fun _ => rfl

theorem keeps_removeFromJobChainStack : Keeps I (removeFromJobChain o true) :=
  keeps_removeFromJobChain (L.closed o) true fun _ => L.outer

theorem keeps_remove : Keeps I (remove o) := by
  refine Keeps.get_bind_any fun w => Keeps.bind (Keeps.onlyIf fun _ => ?_) fun _ =>
    keeps_removeFromJobChainStack L
  refine Keeps.bind (keeps_change L fun _ => rfl) fun _ => ?_
  exact Keeps.get_bind_any fun w => Keeps.onlyIf fun _ => keeps_removeFromJobChainStack L

/-! ### Placing -/

theorem placeInJobChain_lasting (c : ChainRef) :
    Triple (fun w => I w ∧ Fresh μ true o w) (placeInJobChain o c true) (fun _ => I) fun _ => I :=
  placeInJobChain_spec (L.closed o) (L.closed o) (fun _ h => h) L.outer L.entering c true

/-- The other order leaves, and this one stays as it is. -/
theorem removeOther_spec {other : OrderRef} (hne : o ≠ other) :
    Triple (fun w => I w ∧ Fresh μ true o w) (removeFromJobChain other true)
      (fun _ w => I w ∧ Fresh μ true o w) fun _ => I := by
  refine Triple.at_state fun w hw => ?_
  have hframe := keeps_removeFromJobChain ((L.closed other).frame w) true fun _ => L.outer
  refine hframe.triple.consequence ?_ ?_ fun _ _ h => h.1
  · rintro _ rfl
    exact ⟨hw.1, fun _ _ => rfl, fun _ => rfl⟩
  · rintro _ s ⟨hs, hothers, -⟩
    refine ⟨hs, ?_⟩
    rw [Fresh, hothers o hne]
    exact hw.2

theorem placeOrReplaceInJobChain_spec (c : ChainRef) :
    Triple (fun w => I w ∧ Fresh μ true o w) (placeOrReplaceInJobChain o c) (fun _ => I)
      fun _ => I := by
  refine Triple.get_bind_any fun w => ?_
  cases otherOrder w c o with
  | none => exact placeInJobChain_lasting L c
  | some other =>
      have hlast : Keeps I (do
          let w ← get
          onlyIf ((w.order other).task.isSome = true) do
            require (!(w.order other).isReplacement)
              (.assertion "!replaced_order->_is_replacement")
            setReplacement o true) := Keeps.get_bind_any fun w => Keeps.onlyIf fun _ =>
        Keeps.bind (Keeps.require _ _) fun _ => keeps_change L fun _ => rfl
      by_cases hne : other = o
      · subst hne
        simp only [if_true]
        exact Triple.bind ((keeps_activateSchedule (L.closed other)).triple.consequence
          (fun _ h => h.1) (fun _ _ h => h) fun _ _ h => h) fun _ => hlast.triple
      · simp only [if_neg hne]
        refine (removeOther_spec L fun h => hne h.symm).bind fun _ => ?_
        exact (placeInJobChain_lasting L c).bind fun _ => hlast.triple

theorem onActivate_spec :
    Triple (fun w => I w ∧ Fresh μ true o w) (onActivate o) (fun _ => I) fun _ => I := by
  refine Triple.get_bind_any fun w => ?_
  cases w.jobChainOrNull (w.order o).fileBasedJobChainPath with
  | none => exact Triple.pure fun _ h => h.1
  | some c => exact placeOrReplaceInJobChain_spec L c

/-! ### Events -/

theorem keeps_onFileChanged (change : FileChange) : Keeps I (onFileChanged o change) :=
  Keeps.bind (keeps_change L fun _ => rfl) fun _ =>
    keeps_checkForReplacingOrRemoving (L.closed o) L.outer

theorem keeps_onBlacklistedFileRemoved : Keeps I (onBlacklistedFileRemoved o) := by
  refine Keeps.tryCatch ?_ fun _ => Keeps.pure ()
  refine Keeps.bind (keeps_assertNoTask _) fun _ => ?_
  exact Keeps.bind (keeps_removeFromJobChainStack L) fun _ => keeps_close (L.closed o)

/-- A suspended order stays where it is, and then goes on as after a step. -/
theorem processingError_spec (depth : Nat) (transition : Transition) :
    Triple (fun w => I w ∧ MayPostprocess μ o transition w) (processingError depth o)
      (fun _ => I) fun _ => I := by
  refine Triple.at_state fun w hpre => Triple.get_bind_at ?_
  obtain ⟨hw, hmay⟩ := hpre
  have Lw := (L.loosened o).sameChains w
  have hE : ∀ (_ : Failure) s, I s ∧ SameChains w s → I s := fun _ _ h => h.1
  have hstart : ∀ s, s = w → I s ∧ SameChains w s := by
    rintro _ rfl
    exact ⟨hw, fun _ => rfl⟩
  refine Triple.consequence (P := fun s => I s ∧ SameChains w s) ?_ hstart (fun _ _ h => h)
    fun _ _ h => h
  refine Keeps.bind_triple (Keeps.ofExcept _) hE fun jobNode => ?_
  refine Keeps.bind_triple (Keeps.onlyIf fun _ => keeps_setSuspended Lw L.outer true) hE
    fun _ => ?_
  refine Keeps.bind_triple (keeps_writeSame Lw.strict (fun _ => .of_eq rfl) fun hs =>
    absurd hs L.unsorted) hE fun _ => ?_
  exact postprocessing2_spec (L.loosened o) L.entering L.outer hmay depth

/-! ### Commands -/

omit L in
theorem keeps_whenGiven {α : Type} {value : Option α} {m : α → Method Unit}
    (h : ∀ a, Keeps I (m a)) : Keeps I (whenGiven value m) := by
  cases value with
  | none => exact Keeps.pure ()
  | some a => exact h a

theorem keeps_writeModified (c : ChainRef) : Keeps I (writeModified c o) := by
  refine Keeps.get_bind_any fun w => Keeps.onlyIf fun _ => ?_
  refine Keeps.bind (keeps_persist L) fun _ => ?_
  refine Keeps.get_bind_any fun w => Keeps.onlyIf fun _ => ?_
  exact Keeps.bind (keeps_removeFromJobChainStack L) fun _ => keeps_close (L.closed o)

theorem keeps_modifyOrder (depth : Nat) (c : ChainRef) (m : ModifyOrder) :
    Keeps I (modifyOrder depth c o m) := by
  have hset := keepsClosed_setState (o := o) L.entering L.outer depth I (L.closed o)
  refine Keeps.bind (Keeps.onlyIf fun _ => keeps_reset L depth) fun _ => ?_
  refine Keeps.bind (keeps_whenGiven (keeps_setSchedule L)) fun _ => ?_
  refine Keeps.bind (keeps_whenGiven (keeps_setPriority L)) fun _ => ?_
  refine Keeps.bind (keeps_whenGiven fun s => ?_) fun _ => ?_
  · exact Keeps.bind (keeps_assertNoTask _) fun _ => hset _
  refine Keeps.bind (keeps_whenGiven (keeps_setEndState L)) fun _ => ?_
  refine Keeps.bind (keeps_whenGiven (keeps_setAt (L.closed o))) fun _ => ?_
  refine Keeps.bind (keeps_whenGiven fun b => Keeps.ite (fun _ => Keeps.throw _) fun _ => ?_)
    fun _ => ?_
  · exact Keeps.bind (keeps_assertNoTask _) fun _ => keeps_clearSetbackKeepingCount L
  refine Keeps.bind (keeps_whenGiven (keeps_setSuspended (L.loosened o) L.outer)) fun _ => ?_
  refine Keeps.bind (keeps_whenGiven fun title => keeps_change L fun _ => rfl) fun _ => ?_
  exact keeps_writeModified L c

omit L in
theorem keeps_findOrder (path id : String) : Keeps I (findOrder path id) := by
  refine Keeps.get_bind_any fun w => Keeps.bind (Keeps.ofExcept _) fun c => ?_
  cases (w.chain c).orderOrNull id with
  | none => exact Keeps.throw _
  | some o => exact Keeps.pure _

theorem keeps_executeModifyOrder (depth : Nat) (path id : String) (m : ModifyOrder) :
    Keeps I (executeModifyOrder depth path id m) :=
  Keeps.bind (keeps_findOrder path id) fun _ => keeps_modifyOrder L depth _ m

theorem keeps_executeRemoveOrder (path id : String) : Keeps I (executeRemoveOrder path id) :=
  Keeps.bind (keeps_findOrder path id) fun _ => keeps_remove L

theorem executeAddOrder_spec (path : String) (replace : Bool) :
    Triple (fun w => I w ∧ Fresh μ true o w) (executeAddOrder o path replace) (fun _ => I)
      fun _ => I := by
  refine Triple.get_bind_any fun w => ?_
  refine Keeps.bind_triple (Keeps.ofExcept _) (fun _ _ h => h.1) fun c => ?_
  exact Triple.ite (fun _ => placeOrReplaceInJobChain_spec L c) fun _ =>
    placeInJobChain_lasting L c

/-! ### Calls -/

omit L in
theorem whenLoaded_spec {P : World → Prop} {m : Method Unit} (hP : ∀ w, P w → I w)
    (h : Triple P m (fun _ => I) fun _ => I) : Triple P (whenLoaded c m) (fun _ => I) fun _ => I :=
  Triple.get_bind_any fun _ => Keeps.bind_triple (Keeps.require _ _) (fun _ w hw => hP w hw) fun _ => h

/-- Calls that place an order have to know that it is fresh. -/
def Call.places : Call → Bool
  | addOrder _ | addOrReplaceOrder _ | tryAddOrder _ => true
  | _ => false

theorem call_spec (depth : Nat) (call : Call) :
    Triple (fun w => I w ∧ (call.places = true → Fresh μ true o w)) (call.run depth o)
      (fun _ => I) fun _ => I := by
  have keeps : ∀ {m : Method Unit}, Keeps I m →
      Triple (fun w => I w ∧ (call.places = true → Fresh μ true o w)) m (fun _ => I) fun _ => I :=
    fun h => h.triple.consequence (fun _ h => h.1) (fun _ _ h => h) fun _ _ h => h
  have places : ∀ {m : Method Unit}, call.places = true →
      Triple (fun w => I w ∧ Fresh μ true o w) m (fun _ => I) (fun _ => I) →
      Triple (fun w => I w ∧ (call.places = true → Fresh μ true o w)) m (fun _ => I) fun _ => I :=
    fun hp h => h.consequence (fun _ h => ⟨h.1, h.2 hp⟩) (fun _ _ h => h) fun _ _ h => h
  cases call with
  | putState state => exact keeps (keepsClosed_setState L.entering L.outer depth I (L.closed o) state)
  | putEndState state => exact keeps (keeps_setEndState L state)
  | putPriority priority => exact keeps (keeps_setPriority L priority)
  | putAt time => exact keeps (keeps_setAt (L.closed o) time)
  | putSuspended suspended =>
      exact keeps (keeps_setSuspended (L.loosened o) L.outer suspended)
  | setback =>
      refine keeps (Keeps.of_triple (Triple.at_state fun w hw => ?_))
      refine Triple.bind ((setback_spec (L.closed o) (w.order o)).consequence ?_
        (fun _ _ h => h.1) fun _ _ h => h) fun _ => Triple.pure fun _ h => h
      rintro _ rfl
      exact ⟨hw, rfl⟩
  | removeFromJobChain => exact keeps (keeps_remove L)
  | addOrder c => exact places rfl (whenLoaded_spec (fun _ h => h.1) (placeInJobChain_lasting L c))
  | addOrReplaceOrder c =>
      exact places rfl (whenLoaded_spec (fun _ h => h.1) (placeOrReplaceInJobChain_spec L c))
  | tryAddOrder c =>
      refine places rfl (whenLoaded_spec (fun _ h => h.1) (Triple.bind (Q := fun _ => I)
        ?_ fun _ => Triple.pure fun _ h => h))
      exact tryPlaceInJobChain_spec (L.closed o) (L.closed o) (fun _ h => h) L.outer L.entering c
        true false

end Lasting

end OrderCommand
