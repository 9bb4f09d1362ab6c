import SchedulerEngine.CallQueueProofs
import SchedulerEngine.ExecutionProofs
import SchedulerEngine.RunInvariantProofs
import Mathlib.Data.List.AList

/-! # Typed call registers

    An object registers its timers in a `typed_call_register`: one call for each
    call type.  The register remembers the call, the scheduler's call queue owns
    it, and the call stays remembered when it has been executed. -/

namespace TypedCallRegister

open CallQueue Execution Execution.Exec RunInvariant

/-! ## The program -/

/-- Instants, in milliseconds; `never` is the greatest. -/
structure Time where
  millis : Nat
  le_never : millis ≤ 2147483647000
deriving DecidableEq

instance : LinearOrder Time :=
  LinearOrder.lift' Time.millis fun
    | ⟨_, _⟩, ⟨_, _⟩, rfl => rfl

/-- `Time::never`, from `INT_MAX` seconds. -/
def never : Time := ⟨2147483647000, le_refl _⟩

theorem le_never (t : Time) : t ≤ never := t.le_never

/-- `Time(0)`: as soon as possible. -/
def shortTerm : Time := ⟨0, Nat.zero_le _⟩

/-- A `Timed_call`: an object of the class `type` for the owner of a register. -/
structure TimedCall where
  ref : Nat
  time : Time
  register : Nat
  type : String
deriving DecidableEq

/-- `at_millis()`. -/
def atMillis (c : TimedCall) : Nat := c.time.millis

/-- The call queue, the `_map` of each register, the names known to
    `Type_int_map`, the calls that an `Async_call` holds, and the number of
    calls created so far. -/
structure Calls where
  callQueue : StandardCallQueue TimedCall atMillis
  map : Nat → AList fun _ : Nat => Option TimedCall
  types : List String
  asyncCalls : List TimedCall
  created : Nat

abbrev Method := Exec Calls ClosedException

/-- `Type_int_map::type_to_int`: a new name gets the map's size. -/
def typeToInt (type : String) : Method Nat := do
  let s ← get
  onlyIf (type ∉ s.types) (modify fun s => { s with types := s.types ++ [type] })
  pure (s.types.idxOf type)

/-- `Typed_call_register::get`. -/
def get_ (s : Calls) (r id : Nat) : Option TimedCall := ((s.map r).lookup id).join

/-- `Typed_call_register::at`. -/
def atId (s : Calls) (r id : Nat) : Time :=
  match get_ s r id with
  | some c => c.time
  | none => never

/-- `_map[id] = o`. -/
def writeEntry (r id : Nat) (o : Option TimedCall) (s : Calls) : Calls :=
  { s with map := Function.update s.map r ((s.map r).insert id o) }

/-- `Spooler::cancel_call`. -/
def cancelCall (o : TimedCall) : Method Unit :=
  modify fun s => { s with callQueue := (s.callQueue.tryCancel o).2 }

/-- `Spooler::enqueue_call`. -/
def enqueueCall (o : TimedCall) : Method Unit := do
  let s ← get
  let q ← Exec.ofExcept (s.callQueue.add o)
  modify fun s => { s with callQueue := q }

/-- `Typed_call_register::cancel_entry`, for the entry of an id. -/
def cancelEntry (r id : Nat) : Method Unit := do
  let s ← get
  match get_ s r id with
  | none => pure ()
  | some o => do
      cancelCall o
      modify (writeEntry r id none)

/-- `Typed_call_register::cancel_id`. -/
def cancelId (r id : Nat) : Method Unit := do
  let s ← get
  onlyIf (id ∈ s.map r) (cancelEntry r id)

/-- `Typed_call_register::enqueue_id`. -/
def enqueueId (r id : Nat) (o : TimedCall) : Method Unit := do
  cancelId r id
  modify (writeEntry r id (some o))
  enqueueCall o

/-- `Z_NEW(CALL(t, _object))`. -/
def newCall (r : Nat) (type : String) (t : Time) : Method TimedCall := do
  let s ← get
  modify fun s => { s with created := s.created + 1 }
  pure ⟨s.created, t, r, type⟩

/-- `cancel<CALL>()`. -/
def cancel (r : Nat) (type : String) : Method Unit := do
  let id ← typeToInt type
  cancelId r id

/-- `call<CALL>(Z_NEW(CALL(t, _object)))`. -/
def enqueueNew (r : Nat) (type : String) (t : Time) : Method Unit := do
  let id ← typeToInt type
  let o ← newCall r type t
  enqueueId r id o

/-- `call_at<CALL>(t)`. -/
def callAt (r : Nat) (type : String) (t : Time) : Method Unit := do
  let id ← typeToInt type
  let s ← get
  onlyIf (t ≠ atId s r id)
    (if t = never then cancel r type else enqueueNew r type t)

/-- `call<CALL>()`. -/
def call (r : Nat) (type : String) : Method Unit := enqueueNew r type shortTerm

/-- `new_async_call<CALL>()`: the call is enqueued when an operation ends. -/
def newAsyncCall (r : Nat) (type : String) : Method Unit := do
  let _ ← typeToInt type
  let o ← newCall r type shortTerm
  modify fun s => { s with asyncCalls := o :: s.asyncCalls }

/-- `Async_call::call`. -/
def asyncCall (o : TimedCall) : Method Unit := do
  let id ← typeToInt o.type
  enqueueId o.register id o

/-- `~Typed_call_register`. -/
def destroy (r : Nat) : Method Unit := do
  let s ← get
  forEach (cancelEntry r) (s.map r).keys

/-- `executeMatureCalls` takes the next due call out and executes it; what its
    `on_call` does with the registers are further operations. -/
def executeMatureCall (now : Nat) : Method Unit :=
  modify fun s => { s with callQueue := (s.callQueue.popMature now).2 }

def closeQueue : Method Unit :=
  modify fun s => { s with callQueue := s.callQueue.close }

/-- `Typed_call_register::next_time`. -/
def nextTime (s : Calls) (r : Nat) : Time :=
  (s.map r).entries.foldl
    (fun result e => match e.2 with
      | none => result
      | some t => if result < t.time then t.time else result)
    never

/-! ## What the methods do -/

variable {s s' : Calls} {r r' id id' : Nat} {o c : TimedCall} {type : String} {t : Time}

/-- The types known after `type_to_int`. -/
def withType (s : Calls) (type : String) : Calls :=
  { s with types := if type ∈ s.types then s.types else s.types ++ [type] }

theorem typeToInt_run : typeToInt type s = (.ok (s.types.idxOf type), withType s type) := by
  by_cases h : type ∈ s.types
  · simp [typeToInt, withType, onlyIf, h]
  · simp [typeToInt, withType, onlyIf, h]

theorem mem_withType : type ∈ (withType s type).types := by
  by_cases h : type ∈ s.types <;> simp [withType, h]

/-- An id stays the id of its type. -/
theorem idxOf_withType {type' : String} (h : type' ∈ s.types) :
    (withType s type).types.idxOf type' = s.types.idxOf type' := by
  by_cases ht : type ∈ s.types
  · simp [withType, ht]
  · simp [withType, ht, List.idxOf_append_of_mem h]

theorem idxOf_withType_self :
    (withType s type).types.idxOf type = s.types.idxOf type := by
  by_cases ht : type ∈ s.types
  · exact idxOf_withType ht
  · simp [withType, ht, List.idxOf_append_of_notMem ht]

@[simp] theorem writeEntry_types (o : Option TimedCall) :
    (writeEntry r id o s).types = s.types := rfl

theorem get_writeEntry (o : Option TimedCall) :
    get_ (writeEntry r id o s) r' id' = if r' = r ∧ id' = id then o else get_ s r' id' := by
  by_cases hr : r' = r
  · subst hr
    by_cases hid : id' = id
    · subst hid
      simp [get_, writeEntry]
    · simp [get_, writeEntry, hid]
  · simp [get_, writeEntry, hr]

/-- The state after `cancel_id`. -/
def cancelled (r id : Nat) (s : Calls) : Calls :=
  match get_ s r id with
  | none => s
  | some o => writeEntry r id none { s with callQueue := (s.callQueue.tryCancel o).2 }

theorem cancelEntry_run : cancelEntry r id s = (.ok (), cancelled r id s) := by
  simp only [cancelEntry, bind_run, get_run, cancelled]
  cases get_ s r id with
  | none => rfl
  | some o => rfl

theorem cancelId_run : cancelId r id s = (.ok (), cancelled r id s) := by
  simp only [cancelId, bind_run, get_run, onlyIf]
  by_cases h : id ∈ s.map r
  · rw [if_pos h]
    exact cancelEntry_run
  · have hnone : get_ s r id = none := by
      rw [get_, AList.lookup_eq_none.mpr h]
      rfl
    rw [if_neg h, cancelled, hnone]
    rfl

@[simp] theorem cancelled_types : (cancelled r id s).types = s.types := by
  rw [cancelled]
  cases get_ s r id <;> rfl

@[simp] theorem cancelled_asyncCalls : (cancelled r id s).asyncCalls = s.asyncCalls := by
  rw [cancelled]
  cases get_ s r id <;> rfl

theorem get_cancelled :
    get_ (cancelled r id s) r' id' = if r' = r ∧ id' = id then none else get_ s r' id' := by
  rw [cancelled]
  cases h : get_ s r id with
  | none =>
      show get_ s r' id' = _
      split
      · rename_i heq
        rw [heq.1, heq.2, h]
      · rfl
  | some o => exact get_writeEntry none

theorem cancelled_sublist : (cancelled r id s).callQueue.queue.Sublist s.callQueue.queue := by
  rw [cancelled]
  cases get_ s r id with
  | none => exact List.Sublist.refl _
  | some o => exact List.erase_sublist

/-! ## The invariant -/

/-- What holds between the calls: every call in the queue is remembered by its
    register, under the id of its type. -/
structure Registered (s : Calls) : Prop where
  nodup : s.callQueue.queue.Nodup
  remembered : ∀ c ∈ s.callQueue.queue, get_ s c.register (s.types.idxOf c.type) = some c
  entry : ∀ r id c, get_ s r id = some c →
    c.register = r ∧ c.type ∈ s.types ∧ s.types.idxOf c.type = id ∧ c.time ≠ never
  async : ∀ c ∈ s.asyncCalls, c.time ≠ never

/-- A call that may be enqueued under the id. -/
structure Fits (o : TimedCall) (id : Nat) (s : Calls) : Prop where
  type : o.type ∈ s.types
  id : s.types.idxOf o.type = id
  time : o.time ≠ never

theorem Registered.withType (h : Registered s) (type : String) :
    Registered (withType s type) where
  nodup := h.nodup
  remembered := by
    intro c hc
    have hget := h.remembered c hc
    rw [idxOf_withType (h.entry _ _ _ hget).2.1]
    exact hget
  entry := by
    intro r id c hc
    obtain ⟨hr, htype, hid, htime⟩ := h.entry r id c hc
    refine ⟨hr, ?_, ?_, htime⟩
    · show c.type ∈ if type ∈ s.types then s.types else s.types ++ [type]
      split
      · exact htype
      · exact List.mem_append_left _ htype
    · rw [idxOf_withType htype]
      exact hid
  async := h.async

/-- Cancelling takes the call of the id out of the queue. -/
theorem Registered.cancelled (h : Registered s) (r id : Nat) :
    Registered (cancelled r id s) ∧
      ∀ c ∈ (cancelled r id s).callQueue.queue,
        ¬(c.register = r ∧ s.types.idxOf c.type = id) := by
  have hgone : ∀ c ∈ (TypedCallRegister.cancelled r id s).callQueue.queue,
      ¬(c.register = r ∧ s.types.idxOf c.type = id) := by
    rintro c hc ⟨rfl, rfl⟩
    have hget := h.remembered c (cancelled_sublist.mem hc)
    rw [TypedCallRegister.cancelled, hget] at hc
    exact (h.nodup.mem_erase_iff.mp hc).1 rfl
  refine ⟨⟨h.nodup.sublist cancelled_sublist, ?_, ?_, ?_⟩, hgone⟩
  · intro c hc
    rw [cancelled_types, get_cancelled, if_neg (hgone c hc)]
    exact h.remembered c (cancelled_sublist.mem hc)
  · intro r' id' c hc
    rw [get_cancelled] at hc
    split at hc
    · cases hc
    · rw [cancelled_types]
      exact h.entry r' id' c hc
  · rw [cancelled_asyncCalls]
    exact h.async

theorem keeps_cancelEntry (r id : Nat) : Keeps Registered (cancelEntry r id) := by
  intro s hs
  show Registered (cancelEntry r id s).2
  rw [cancelEntry_run]
  exact (hs.cancelled r id).1

/-- An entry may be overwritten by a call that fits once no call of its id is
    in the queue. -/
theorem Registered.writeEntry (h : Registered s) (hfit : Fits o id s)
    (hgone : ∀ c ∈ s.callQueue.queue, ¬(c.register = o.register ∧ s.types.idxOf c.type = id)) :
    Registered (writeEntry o.register id (some o) s) where
  nodup := h.nodup
  remembered := by
    intro c hc
    rw [writeEntry_types, get_writeEntry, if_neg (hgone c hc)]
    exact h.remembered c hc
  entry := by
    intro r' id' c hc
    rw [get_writeEntry] at hc
    split at hc
    · rename_i heq
      cases hc
      exact ⟨heq.1.symm, hfit.type, heq.2 ▸ hfit.id, hfit.time⟩
    · exact h.entry r' id' c hc
  async := h.async

/-- A call that fits is in the queue after `enqueue_id`, unless the queue is
    closed. -/
theorem enqueueId_spec :
    Triple (fun s => Registered s ∧ Fits o id s) (enqueueId o.register id o)
      (fun _ s => Registered s ∧ o ∈ s.callQueue.queue) (fun _ => Registered) := by
  rintro s ⟨hs, hfit⟩
  obtain ⟨hcancelled, hgone⟩ := hs.cancelled o.register id
  have hfit' : Fits o id (cancelled o.register id s) :=
    ⟨by rw [cancelled_types]; exact hfit.type, by rw [cancelled_types]; exact hfit.id, hfit.time⟩
  have hwritten := hcancelled.writeEntry hfit' (by rw [cancelled_types]; exact hgone)
  simp only [enqueueId, enqueueCall, bind_run, cancelId_run, modify_run, get_run, ofExcept_run]
  cases hadd : (writeEntry o.register id (some o) (cancelled o.register id s)).callQueue.add o with
  | error e => exact hwritten
  | ok q =>
      have hperm := StandardCallQueue.add_perm hadd
      have hnew : o ∉ (cancelled o.register id s).callQueue.queue :=
        fun hmem => hgone o hmem ⟨rfl, hfit.id⟩
      refine ⟨⟨hperm.nodup_iff.mpr (List.nodup_cons.mpr ⟨hnew, hcancelled.nodup⟩), ?_,
        hwritten.entry, hwritten.async⟩, hperm.mem_iff.mpr (List.mem_cons_self ..)⟩
      intro c hc
      obtain rfl | hc := List.mem_cons.mp (hperm.mem_iff.mp hc)
      · show get_ (writeEntry _ _ _ _) _ ((cancelled c.register id s).types.idxOf c.type) = _
        rw [cancelled_types, hfit.id, get_writeEntry, if_pos ⟨rfl, rfl⟩]
      · exact hwritten.remembered c hc

/-- `call<CALL>(Z_NEW(CALL(t, _object)))` for an instant other than `never`. -/
theorem enqueueNew_spec (r : Nat) (type : String) (ht : t ≠ never) :
    Triple Registered (enqueueNew r type t)
      (fun _ s => Registered s ∧
        ∃ c ∈ s.callQueue.queue, c.register = r ∧ c.type = type ∧ c.time = t)
      (fun _ => Registered) := by
  intro s hs
  simp only [enqueueNew, newCall, bind_run, typeToInt_run, get_run, modify_run, pure_run]
  have hs' : Registered { withType s type with created := (withType s type).created + 1 } :=
    let h := hs.withType type
    ⟨h.nodup, h.remembered, h.entry, h.async⟩
  have hfit : Fits ⟨(withType s type).created, t, r, type⟩ (s.types.idxOf type)
      { withType s type with created := (withType s type).created + 1 } :=
    ⟨mem_withType, idxOf_withType_self, ht⟩
  refine (enqueueId_spec.consequence (fun _ h => h) ?_ fun _ _ h => h) _ ⟨hs', hfit⟩
  rintro _ s' ⟨hreg, hmem⟩
  exact ⟨hreg, _, hmem, rfl, rfl, rfl⟩

/-! ## The registered calls of a type -/

/-- The call of a type that the register remembers. -/
def remembered (s : Calls) (r : Nat) (type : String) : Option TimedCall :=
  get_ s r (s.types.idxOf type)

/-- The register has a call of the type in the queue. -/
def IsPending (s : Calls) (r : Nat) (type : String) : Prop :=
  ∃ c ∈ s.callQueue.queue, c.register = r ∧ c.type = type

/-- What is in the queue is remembered. -/
theorem Registered.remembered_of_mem (h : Registered s) (hc : c ∈ s.callQueue.queue)
    (hr : c.register = r) (htype : c.type = type) :
    TypedCallRegister.remembered s r type = some c := by
  subst hr htype
  exact h.remembered c hc

/-- What is remembered for a type is a call of this type. -/
theorem Registered.of_remembered (h : Registered s)
    (hc : TypedCallRegister.remembered s r type = some c) :
    c.register = r ∧ c.type = type ∧ type ∈ s.types ∧ c.time ≠ never := by
  obtain ⟨hr, htype, hid, htime⟩ := h.entry r _ c hc
  have heq : c.type = type := (List.idxOf_inj htype).mp hid
  exact ⟨hr, heq, heq ▸ htype, htime⟩

theorem atId_withType : atId (withType s type) r (s.types.idxOf type)
    = match remembered s r type with | some c => c.time | none => never := rfl

/-- `cancel` leaves no call of the type. -/
theorem cancel_clears (h : Registered s) (r : Nat) (type : String) :
    Registered (final (cancel r type) s) ∧ ¬IsPending (final (cancel r type) s) r type := by
  have hrun : final (cancel r type) s
      = cancelled r (s.types.idxOf type) (withType s type) := by
    simp only [final, cancel, bind_run, typeToInt_run, cancelId_run]
  obtain ⟨hreg, hgone⟩ := (h.withType type).cancelled r (s.types.idxOf type)
  rw [hrun]
  refine ⟨hreg, ?_⟩
  rintro ⟨c, hc, hr, rfl⟩
  exact hgone c hc ⟨hr, idxOf_withType_self⟩

/-- `call_at(t)` changes no call if the register remembers one for `t`. -/
theorem callAt_same (ht : t = atId (withType s type) r (s.types.idxOf type)) :
    callAt r type t s = (.ok (), withType s type) := by
  simp only [callAt, bind_run, typeToInt_run, get_run, onlyIf]
  rw [if_neg (not_not.mpr ht)]
  rfl

/-- Otherwise it cancels, or registers a new call. -/
theorem callAt_other (ht : t ≠ atId (withType s type) r (s.types.idxOf type)) :
    callAt r type t s
      = (if t = never then cancel r type else enqueueNew r type t) (withType s type) := by
  simp only [callAt, bind_run, typeToInt_run, get_run, onlyIf]
  rw [if_pos ht]

theorem keeps_callAt (r : Nat) (type : String) (t : Time) : Keeps Registered (callAt r type t) := by
  intro s hs
  by_cases ht : t = atId (withType s type) r (s.types.idxOf type)
  · show Registered (callAt r type t s).2
    rw [callAt_same ht]
    exact hs.withType type
  · show Registered (callAt r type t s).2
    rw [callAt_other ht]
    split
    · exact (cancel_clears (hs.withType type) r type).1
    · rename_i hnever
      have hkeeps : Triple Registered (enqueueNew r type t)
          (fun _ => Registered) (fun _ => Registered) :=
        (enqueueNew_spec r type hnever).consequence (fun _ h => h) (fun _ _ h => h.1)
          fun _ _ h => h
      exact hkeeps.final (hs.withType type)

/-- `call_at(never)` leaves no call of the type. -/
theorem callAt_never_clears (h : Registered s) (r : Nat) (type : String) :
    ¬IsPending (final (callAt r type never) s) r type := by
  by_cases ht : never = atId (withType s type) r (s.types.idxOf type)
  · have hrun : final (callAt r type never) s = withType s type := by
      rw [final, callAt_same ht]
    rw [hrun]
    rintro ⟨c, hc, hr, htype⟩
    -- a pending call is remembered, and none is registered for `never`
    have hrem := h.remembered_of_mem hc hr htype
    rw [atId_withType, hrem] at ht
    exact (h.of_remembered hrem).2.2.2 ht.symm
  · have hrun : final (callAt r type never) s = final (cancel r type) (withType s type) := by
      rw [final, callAt_other ht, if_pos rfl]
      rfl
    rw [hrun]
    exact (cancel_clears (h.withType type) r type).2

/-! ## Runs -/

/-- What is done with the registers and the queue. -/
inductive Op where
  | callAt (r : Nat) (type : String) (t : Time)
  | call (r : Nat) (type : String)
  | cancel (r : Nat) (type : String)
  | newAsyncCall (r : Nat) (type : String)
  | asyncCall (o : TimedCall)
  | destroy (r : Nat)
  | executeMatureCall (now : Nat)
  | closeQueue

def perform : Op → Method Unit
  | .callAt r type t => callAt r type t
  | .call r type => call r type
  | .cancel r type => cancel r type
  | .newAsyncCall r type => newAsyncCall r type
  | .asyncCall o => asyncCall o
  | .destroy r => destroy r
  | .executeMatureCall now => executeMatureCall now
  | .closeQueue => closeQueue

/-- An `Async_call` is called by the operation it was made for. -/
def Called (s : Calls) : Op → Prop
  | .asyncCall o => o ∈ s.asyncCalls
  | _ => True

def Step (s : Calls) (op : Op) (s' : Calls) : Prop := Called s op ∧ s' = final (perform op) s

/-- Before the first call. -/
def noCalls : Calls := ⟨.empty, fun _ => ∅, [], [], 0⟩

def Reachable : Calls → Prop := Reach (fun s => s = noCalls) Step

theorem registered_noCalls : Registered noCalls where
  nodup := List.nodup_nil
  remembered := by
    intro c hc
    cases hc
  entry := by
    intro r id c hc
    cases hc
  async := by
    intro c hc
    cases hc

theorem keeps_call (r : Nat) (type : String) : Keeps Registered (call r type) := by
  refine Keeps.of_triple ?_
  exact (enqueueNew_spec r type (by decide)).consequence (fun _ h => h) (fun _ _ h => h.1)
    fun _ _ h => h

theorem keeps_newAsyncCall (r : Nat) (type : String) :
    Keeps Registered (newAsyncCall r type) := by
  intro s hs
  obtain ⟨hnodup, hrem, hentry, hasync⟩ := hs.withType type
  refine ⟨?_, ?_, ?_, ?_⟩ <;>
    simp only [final, newAsyncCall, newCall, bind_run, typeToInt_run, get_run, modify_run, pure_run]
  · exact hnodup
  · exact hrem
  · exact hentry
  · intro c hc
    obtain rfl | hc := List.mem_cons.mp hc
    · exact (by decide : shortTerm ≠ never)
    · exact hasync c hc

/-- A step keeps the invariant. -/
theorem Registered.step {op : Op} (h : Registered s) (hs : Step s op s') : Registered s' := by
  obtain ⟨hcalled, rfl⟩ := hs
  cases op with
  | callAt r type t => exact keeps_callAt r type t s h
  | call r type => exact keeps_call r type s h
  | cancel r type => exact (cancel_clears h r type).1
  | newAsyncCall r type => exact keeps_newAsyncCall r type s h
  | asyncCall o =>
      have hfit : Fits o (s.types.idxOf o.type) (TypedCallRegister.withType s o.type) :=
        ⟨mem_withType, idxOf_withType_self, h.async o hcalled⟩
      have hkeeps : Triple (fun s' => Registered s' ∧ Fits o (s.types.idxOf o.type) s')
          (enqueueId o.register (s.types.idxOf o.type) o)
          (fun _ => Registered) (fun _ => Registered) :=
        enqueueId_spec.consequence (fun _ h => h) (fun _ _ h => h.1) fun _ _ h => h
      have hfinal := hkeeps.final ⟨h.withType o.type, hfit⟩
      rw [final] at hfinal
      simp only [final, perform, asyncCall, bind_run, typeToInt_run]
      exact hfinal
  | destroy r =>
      refine Keeps.get_bind (fun s hs => ?_) s h
      exact Keeps.forEach (fun id _ => keeps_cancelEntry r id) s hs
  | executeMatureCall now =>
      have hsub := StandardCallQueue.popMature_sublist s.callQueue now
      exact ⟨h.nodup.sublist hsub, fun c hc => h.remembered c (hsub.mem hc), h.entry, h.async⟩
  | closeQueue =>
      refine ⟨List.nodup_nil, ?_, h.entry, h.async⟩
      intro c hc
      cases hc

theorem Reachable.registered (h : Reachable s) : Registered s := by
  refine Reach.invariant ?_ (fun _ _ _ hi hs => hi.step hs) h
  rintro _ rfl
  exact registered_noCalls

/-! ## The law of the register -/

/-- At most one call of each type is in the queue. -/
def OnePerType (s : Calls) (r : Nat) : Prop :=
  ∀ type, s.callQueue.queue.countP (fun c => c.register = r ∧ c.type = type) ≤ 1

/-- When `call_at(t)` has returned, a call of the type for `t` is in the queue. -/
def CallAtPends (s : Calls) (r : Nat) (type : String) (t : Time) : Prop :=
  ∀ s', callAt r type t s = (.ok (), s') →
    ∃ c ∈ s'.callQueue.queue, c.register = r ∧ c.type = type ∧ c.time = t

/-- `next_time()` is the least instant of the calls in the queue. -/
def NextTimeIsLeast (s : Calls) (r : Nat) : Prop :=
  (∀ c ∈ s.callQueue.queue, c.register = r → nextTime s r ≤ c.time) ∧
    ((∃ c ∈ s.callQueue.queue, c.register = r ∧ c.time = nextTime s r) ∨
      (∀ c ∈ s.callQueue.queue, c.register ≠ r) ∧ nextTime s r = never)

/-- The register remembers a call of the type for `t` that has left the queue,
    being executed. -/
def Executed (s : Calls) (r : Nat) (type : String) (t : Time) : Prop :=
  ∃ c, remembered s r type = some c ∧ c.time = t ∧ c ∉ s.callQueue.queue

theorem Registered.onePerType (h : Registered s) (r : Nat) : OnePerType s r := by
  intro type
  cases hrem : TypedCallRegister.remembered s r type with
  | none =>
      rw [List.countP_eq_zero.mpr]
      · exact Nat.zero_le 1
      intro c hc hp
      obtain ⟨hr, htype⟩ := of_decide_eq_true hp
      rw [h.remembered_of_mem hc hr htype] at hrem
      cases hrem
  | some c =>
      -- whatever is counted is the call that the register remembers
      refine le_trans (List.countP_mono_left ?_) (List.nodup_iff_count_le_one.mp h.nodup c)
      intro c' hc' hp
      obtain ⟨hr, htype⟩ := of_decide_eq_true hp
      rw [h.remembered_of_mem hc' hr htype] at hrem
      cases hrem
      exact beq_self_eq_true c

/-- `call_at` fails to register exactly the instants of executed calls that are
    still remembered. -/
theorem Registered.callAtPends_iff (h : Registered s) (r : Nat) (type : String)
    (ht : t ≠ never) : CallAtPends s r type t ↔ ¬Executed s r type t := by
  constructor
  · rintro hpends ⟨c, hrem, rfl, hout⟩
    have hat : c.time = atId (TypedCallRegister.withType s type) r (s.types.idxOf type) := by
      rw [atId_withType, hrem]
    obtain ⟨c', hc', hr, htype, -⟩ := hpends _ (callAt_same hat)
    have hc := h.remembered_of_mem hc' hr htype
    rw [hrem] at hc
    cases hc
    exact hout hc'
  · intro hnot s' hrun
    by_cases hat : t = atId (TypedCallRegister.withType s type) r (s.types.idxOf type)
    · rw [callAt_same hat] at hrun
      cases hrun
      rw [atId_withType] at hat
      cases hrem : TypedCallRegister.remembered s r type with
      | none =>
          rw [hrem] at hat
          exact absurd hat ht
      | some c =>
          rw [hrem] at hat
          have hin : c ∈ s.callQueue.queue := by
            by_contra hout
            exact hnot ⟨c, hrem, hat.symm, hout⟩
          obtain ⟨hr, htype, -, -⟩ := h.of_remembered hrem
          exact ⟨c, hin, hr, htype, hat.symm⟩
    · rw [callAt_other hat, if_neg ht] at hrun
      have hspec := enqueueNew_spec r type ht _ (h.withType type)
      rw [hrun] at hspec
      exact hspec.2

/-! ## An open queue -/

/-- The queue accepts calls. -/
def Open (s : Calls) : Prop := s.callQueue.closed = false

theorem open_typeToInt (type : String) :
    Triple Open (typeToInt type) (fun _ => Open) fun _ _ => False := by
  refine Triple.get_bind_any fun s => ?_
  refine Triple.bind (Q := fun _ => Open) ?_ fun _ => Triple.pure fun _ h => h
  exact Triple.onlyIf (fun _ => Triple.modify fun _ h => h) fun _ _ h => h

theorem open_cancelId (r id : Nat) :
    Triple Open (cancelId r id) (fun _ => Open) fun _ _ => False := by
  refine Triple.get_bind_any fun s => Triple.onlyIf (fun _ => ?_) fun _ _ h => h
  refine Triple.get_bind_any fun s => ?_
  cases get_ s r id with
  | none => exact Triple.pure fun _ h => h
  | some o =>
      exact Triple.bind (Q := fun _ => Open) (Triple.modify fun _ h => h) fun _ =>
        Triple.modify fun _ h => h

theorem open_enqueueCall (o : TimedCall) :
    Triple Open (enqueueCall o) (fun _ => Open) fun _ _ => False := by
  refine Triple.get_bind fun s => ?_
  refine Triple.bind (Q := fun q _ => q.closed = false) ?_ fun q => ?_
  · intro s' hs
    obtain ⟨rfl, hopen⟩ := hs
    have hclosed : s'.callQueue.closed = false := hopen
    simp [StandardCallQueue.add, hclosed]
  · intro s' hq
    exact hq

theorem open_enqueueNew (r : Nat) (type : String) (t : Time) :
    Triple Open (enqueueNew r type t) (fun _ => Open) fun _ _ => False := by
  have hnew : Triple Open (newCall r type t) (fun _ => Open) fun _ _ => False :=
    Triple.get_bind_any fun s => Triple.bind (Q := fun _ => Open)
      (Triple.modify fun _ h => h) fun _ => Triple.pure fun _ h => h
  refine (open_typeToInt type).bind fun id => hnew.bind fun o => ?_
  refine (open_cancelId r id).bind fun _ => ?_
  exact Triple.bind (Q := fun _ => Open) (Triple.modify fun _ h => h) fun _ => open_enqueueCall o

/-- Before the queue is closed, `call_at` ends normally. -/
theorem open_callAt (r : Nat) (type : String) (t : Time) :
    Triple Open (callAt r type t) (fun _ => Open) fun _ _ => False := by
  refine (open_typeToInt type).bind fun id => ?_
  refine Triple.get_bind_any fun s => Triple.onlyIf (fun _ => ?_) fun _ _ h => h
  refine Triple.ite (fun _ => ?_) fun _ => open_enqueueNew r type t
  exact (open_typeToInt type).bind fun id => open_cancelId r id

theorem callAt_ok (hopen : Open s) (r : Nat) (type : String) (t : Time) :
    ∃ s', callAt r type t s = (.ok (), s') ∧ Open s' := by
  have h := open_callAt r type t s hopen
  rcases hrun : callAt r type t s with ⟨res, s'⟩
  rw [hrun] at h
  cases res with
  | ok _ => exact ⟨s', rfl, h⟩
  | error e => exact h.elim

/-- A call that is pending has not been executed. -/
theorem Registered.not_executed (h : Registered s) (hp : IsPending s r type) :
    ¬Executed s r type t := by
  rintro ⟨c, hrem, -, hout⟩
  obtain ⟨c', hin, hr, htype⟩ := hp
  rw [h.remembered_of_mem hin hr htype] at hrem
  cases hrem
  exact hout hin

/-- `call_at` makes no call an executed one. -/
theorem Registered.executed_of_callAt (h : Registered s) (hopen : Open s) {t' : Time}
    (he : Executed (final (callAt r type t) s) r type t') : Executed s r type t' := by
  have hrem : TypedCallRegister.remembered (TypedCallRegister.withType s type) r type
      = TypedCallRegister.remembered s r type := by
    show get_ _ r ((TypedCallRegister.withType s type).types.idxOf type) = _
    rw [idxOf_withType_self]
    rfl
  by_cases hat : t = atId (TypedCallRegister.withType s type) r (s.types.idxOf type)
  · rw [final, callAt_same hat] at he
    obtain ⟨c, hc, ht, hout⟩ := he
    exact ⟨c, hrem ▸ hc, ht, hout⟩
  · by_cases hnever : t = never
    · -- nothing is remembered after `cancel`
      rw [final, callAt_other hat, if_pos hnever] at he
      obtain ⟨c, hc, -, -⟩ := he
      simp only [cancel, bind_run, typeToInt_run, cancelId_run] at hc
      rw [TypedCallRegister.remembered, cancelled_types, get_cancelled] at hc
      simp [idxOf_withType_self] at hc
    · obtain ⟨s', hrun, -⟩ := callAt_ok hopen r type t
      rw [final, hrun] at he
      have hrun' := hrun
      rw [callAt_other hat, if_neg hnever] at hrun'
      have hspec := enqueueNew_spec r type hnever _ (h.withType type)
      rw [hrun'] at hspec
      obtain ⟨hreg, c, hin, hr, htype, -⟩ := hspec
      exact absurd he (hreg.not_executed ⟨c, hin, hr, htype⟩)

/-- Unless it is the instant of an executed call, `call_at` registers a call. -/
theorem Registered.callAt_pending (h : Registered s) (hopen : Open s) (ht : t ≠ never)
    (hnot : ¬Executed s r type t) :
    ∃ c ∈ (final (callAt r type t) s).callQueue.queue,
      c.register = r ∧ c.type = type ∧ c.time = t := by
  obtain ⟨s', hrun, -⟩ := callAt_ok hopen r type t
  rw [final, hrun]
  exact (h.callAtPends_iff r type ht).mpr hnot s' hrun

/-- The call that is executed is due. -/
theorem executed_of_executeMatureCall {now : Nat}
    (he : Executed (final (executeMatureCall now) s) r type t) :
    Executed s r type t ∨ t.millis ≤ now := by
  obtain ⟨c, hrem, rfl, hout⟩ := he
  by_cases hin : c ∈ s.callQueue.queue
  · have hdue : atMillis c ≤ now := StandardCallQueue.popMature_gone hin hout
    exact Or.inr hdue
  · exact Or.inl ⟨c, hrem, rfl, hin⟩

/-- `next_time()` is always `never`. -/
theorem nextTime_eq (s : Calls) (r : Nat) : nextTime s r = never := by
  rw [nextTime]
  induction (s.map r).entries with
  | nil => rfl
  | cons e l ih =>
      rw [List.foldl_cons]
      cases he : e.2 with
      | none => exact ih
      | some c =>
          have hlt : ¬never < c.time := not_lt_of_ge (le_never c.time)
          simp only [if_neg hlt]
          exact ih

theorem Registered.nextTimeIsLeast_iff (h : Registered s) (r : Nat) :
    NextTimeIsLeast s r ↔ ∀ c ∈ s.callQueue.queue, c.register ≠ r := by
  rw [NextTimeIsLeast, nextTime_eq]
  constructor
  · rintro ⟨hle, -⟩ c hc hr
    have hrem := h.remembered_of_mem hc hr rfl
    exact (h.of_remembered hrem).2.2.2 (le_antisymm (le_never c.time) (hle c hc hr))
  · intro hnone
    exact ⟨fun c hc hr => absurd hr (hnone c hc), Or.inr ⟨hnone, rfl⟩⟩

/-- What a register keeps over all runs: at most one call of each type, none
    after `cancel` and after `call_at(never)`; and exactly when `call_at` and
    `next_time` do what they are for. -/
theorem register_over_runs (h : Reachable s) (r : Nat) :
    OnePerType s r ∧
    (∀ type, ¬IsPending (final (cancel r type) s) r type ∧
      ¬IsPending (final (callAt r type never) s) r type) ∧
    (∀ type t, t ≠ never → (CallAtPends s r type t ↔ ¬Executed s r type t)) ∧
    (NextTimeIsLeast s r ↔ ∀ c ∈ s.callQueue.queue, c.register ≠ r) := by
  have hreg := h.registered
  refine ⟨hreg.onePerType r, fun type => ⟨?_, ?_⟩, ?_, hreg.nextTimeIsLeast_iff r⟩
  · exact (cancel_clears hreg r type).2
  · exact callAt_never_clears hreg r type
  · exact fun type t ht => hreg.callAtPends_iff r type ht

/-- The instants of the counterexample. -/
def noon : Time := ⟨43200000, by decide⟩

/-- A call for noon has been registered. -/
def beforeNoon : Calls := final (callAt 0 "Order_timed_call" noon) noCalls

/-- It has been executed. -/
def afterNoon : Calls := final (executeMatureCall 43200000) beforeNoon

theorem beforeNoon_reachable : Reachable beforeNoon := by
  have hstep : Step noCalls (.callAt 0 "Order_timed_call" noon) beforeNoon := ⟨trivial, rfl⟩
  have hstart : Reachable noCalls := Reach.start rfl
  exact hstart.next hstep

theorem afterNoon_reachable : Reachable afterNoon := by
  have hstep : Step beforeNoon (.executeMatureCall 43200000) afterNoon := ⟨trivial, rfl⟩
  exact beforeNoon_reachable.next hstep

/-- After noon a second call for noon is not registered; before noon
    `next_time()` does not see the call in the queue. -/
theorem second_call_missing :
    (¬ ∀ s r type t, Reachable s → t ≠ never → CallAtPends s r type t) ∧
      ¬ ∀ s r, Reachable s → NextTimeIsLeast s r := by
  constructor
  · intro hall
    obtain ⟨c, hc, -⟩ := hall afterNoon 0 "Order_timed_call" noon afterNoon_reachable
      (by decide) afterNoon rfl
    have hempty : afterNoon.callQueue.queue = [] := rfl
    rw [hempty] at hc
    cases hc
  · intro hall
    have hle := (hall beforeNoon 0 beforeNoon_reachable).1
      ⟨0, noon, 0, "Order_timed_call"⟩ (by decide) rfl
    rw [nextTime_eq] at hle
    exact absurd hle (by decide)

theorem afterNoon_registers :
    OnePerType afterNoon 0 ∧
    (∀ type, ¬IsPending (final (cancel 0 type) afterNoon) 0 type ∧
      ¬IsPending (final (callAt 0 type never) afterNoon) 0 type) ∧
    (∀ type t, t ≠ never → (CallAtPends afterNoon 0 type t ↔ ¬Executed afterNoon 0 type t)) ∧
    (NextTimeIsLeast afterNoon 0 ↔ ∀ c ∈ afterNoon.callQueue.queue, c.register ≠ 0) :=
  register_over_runs afterNoon_reachable 0

end TypedCallRegister
