import Mathlib.Data.Finset.Fold
import SchedulerEngine.VariantSerializerProofs

/-! # COM remoting: calls

    `writeCall` and `readCall` are written separately.  An `InvokeCall` has its
    arguments in three reversed sequences, and both sides agree on them; session
    calls and `QueryInterfaceCall` they write and read differently. -/

namespace Minicom

open Execution Wire

variable {O : Type}

/-! ## Calls -/

inductive DispatchType where
  | DISPATCH_METHOD
  | DISPATCH_PROPERTYGET
  | DISPATCH_PROPERTYPUT
  | DISPATCH_PROPERTYPUTREF
deriving DecidableEq

namespace DispatchType

def value : DispatchType → BitVec 32
  | DISPATCH_METHOD => 1
  | DISPATCH_PROPERTYGET => 2
  | DISPATCH_PROPERTYPUT => 4
  | DISPATCH_PROPERTYPUTREF => 8

def values : List DispatchType :=
  [DISPATCH_METHOD, DISPATCH_PROPERTYGET, DISPATCH_PROPERTYPUT, DISPATCH_PROPERTYPUTREF]

/-- The set of the types whose bits are given. -/
def ofBits (bits : BitVec 32) : Except Failure (Finset DispatchType) :=
  if bits &&& ~~~0xF ≠ 0 then .error (.invalidDispatchType bits)
  else .ok (values.filter fun dispatchType => bits &&& dispatchType.value ≠ 0).toFinset

/-- The bits of a set of types. -/
def bits (dispatchTypes : Finset DispatchType) : BitVec 32 :=
  dispatchTypes.fold (fun a b => a ||| b) 0 value

theorem or_eq_zero (x y : BitVec 32) : x ||| y = 0 ↔ x = 0 ∧ y = 0 := BitVec.or_eq_zero_iff

theorem bits_and (dispatchTypes : Finset DispatchType) (t : DispatchType) :
    bits dispatchTypes &&& t.value ≠ 0 ↔ t ∈ dispatchTypes := by
  induction dispatchTypes using Finset.induction_on with
  | empty => simp [bits]
  | insert a s ha ih =>
      have h1 : a.value &&& t.value = 0 ↔ t ≠ a := by cases a <;> cases t <;> decide
      have h2 : bits (insert a s) &&& t.value = (a.value &&& t.value) ||| (bits s &&& t.value) := by
        rw [bits, Finset.fold_insert ha, BitVec.and_or_distrib_right]
        rfl
      rw [h2, ne_eq, or_eq_zero, h1, Finset.mem_insert, ← ih]
      tauto

theorem bits_le (dispatchTypes : Finset DispatchType) : bits dispatchTypes &&& ~~~0xF = 0 := by
  induction dispatchTypes using Finset.induction_on with
  | empty => rfl
  | insert a s ha ih =>
      rw [bits, Finset.fold_insert ha, BitVec.and_or_distrib_right, or_eq_zero]
      refine ⟨?_, ih⟩
      cases a <;> rfl

/-- The mask is expanded to the set it was made of. -/
theorem ofBits_bits (dispatchTypes : Finset DispatchType) :
    ofBits (bits dispatchTypes) = .ok dispatchTypes := by
  rw [ofBits, if_neg (not_not.mpr (bits_le dispatchTypes))]
  congr 1
  ext t
  rw [List.mem_toFinset, List.mem_filter, decide_eq_true_eq, bits_and]
  have h : t ∈ values := by cases t <;> decide
  exact and_iff_right h

end DispatchType

structure CreateInstanceCall (O : Type) where
  clsid : CLSID
  /-- `none` is `null` -/
  outer : Option O
  context : BitVec 32
  iids : Seq IID

inductive ObjectCall (O : Type) where
  | ReleaseCall (proxyId : ProxyId)
  | QueryInterfaceCall (proxyId : ProxyId) (iid : IID)
  | GetIDsOfNamesCall (proxyId : ProxyId) (iid : IID) (localeId : BitVec 32) (names : Seq JString)
  | InvokeCall (proxyId : ProxyId) (dispatchId : DISPID) (iid : IID)
      (dispatchTypes : Finset DispatchType) (arguments : Seq (Value O))
      (namedArguments : Seq (DISPID × Value O))
  | CallCall (proxyId : ProxyId) (methodName : JString) (arguments : Seq (Value O))

def ObjectCall.proxyId : ObjectCall O → ProxyId
  | .ReleaseCall proxyId => proxyId
  | .QueryInterfaceCall proxyId _ => proxyId
  | .GetIDsOfNamesCall proxyId _ _ _ => proxyId
  | .InvokeCall proxyId _ _ _ _ _ => proxyId
  | .CallCall proxyId _ _ => proxyId

inductive Call (O : Type) where
  | session (call : CreateInstanceCall O)
  | object (call : ObjectCall O)
  | KeepaliveCall

/-! ## `MessageClass` and `MessageCommand` -/

def MessageClass.Session : UInt8 := 83
def MessageClass.Object : UInt8 := 79
def MessageClass.Answer : UInt8 := 65
def MessageClass.KeepAlive : UInt8 := 75

def MessageCommand.CreateInstance : UInt8 := 67
def MessageCommand.Release : UInt8 := 82
def MessageCommand.QueryInterface : UInt8 := 81
def MessageCommand.GetIDsOfNames : UInt8 := 71
def MessageCommand.Invoke : UInt8 := 73
def MessageCommand.Call : UInt8 := 65

/-! ## `CallSerializer` -/

section Writing

variable [DecidableEq O] (runtime : Runtime O)

def writeSessionCall (call : CreateInstanceCall O) : Writer O Unit := do
  writeUUID call.clsid.uuid
  writeNull
  writeInt32 0
  writeInt32 call.iids.size
  Exec.forEach (fun o => writeUUID o.uuid) call.iids.toList

def writeObjectCall : ObjectCall O → Writer O Unit
  | .QueryInterfaceCall proxyId iid => do
      writeByte MessageCommand.GetIDsOfNames
      writeInt64 proxyId.value
      writeUUID iid.uuid
  | .InvokeCall _ dispatchId iid dispatchTypes arguments namedArguments => do
      writeByte MessageCommand.Invoke
      writeInt32 dispatchId.value
      writeUUID iid.uuid
      writeInt32 0
      writeInt32 (DispatchType.bits dispatchTypes)
      writeInt32 (arguments.size + namedArguments.size)
      writeInt32 namedArguments.size
      Exec.forEach (fun a => writeInt32 a.1.value) namedArguments.toList.reverse
      Exec.forEach (writeVariant runtime (writeIUnknown runtime))
        (namedArguments.toList.reverse.map Prod.snd ++ arguments.toList.reverse)
  | .GetIDsOfNamesCall _ iid localeId names => do
      writeByte MessageCommand.GetIDsOfNames
      writeUUID iid.uuid
      writeInt32 localeId
      writeInt32 names.size
      Exec.forEach writeString names.toList
  | .ReleaseCall _ => throw (.unsupportedOperation "ReleaseCall")
  | .CallCall _ _ _ => throw (.unsupportedOperation "CallCall")

def writeCall : Call O → Writer O Unit
  | .session call => do
      writeByte MessageClass.Session
      writeSessionCall call
  | .object call => do
      writeByte MessageClass.Object
      writeInt64 call.proxyId.value
      writeObjectCall runtime call
  | .KeepaliveCall => writeByte MessageClass.KeepAlive

end Writing

/-- A new serializer with the register of the connection.  If it fails, the buffer is
    dropped, and the register stays as it was then. -/
def serialize (write : Writer O Unit) : Exec (ProxyRegister O) Failure (Serializer O) := fun r =>
  match write ⟨[], r, []⟩ with
  | (.ok _, s) => (.ok s, s.proxyRegister)
  | (.error e, s) => (.error e, s.proxyRegister)

def serializeCall [DecidableEq O] (runtime : Runtime O) (call : Call O) :
    Exec (ProxyRegister O) Failure (List UInt8) := do
  let serializer ← serialize (writeCall runtime call)
  pure serializer.builder

/-! ## `CallDeserializer` -/

section Reading

variable (remoting : ServerRemoting O)

def Seq.reverse {α : Type} (s : Seq α) : Seq α :=
  ⟨s.toList.reverse, by
    rw [List.length_reverse]
    exact s.size_lt⟩

def readArguments (n : BitVec 32) : Deserializer (Seq (Value O)) := do
  let arguments ← fill n.toInt.toNat (readVariant remoting)
  pure (Seq.ofVector arguments).reverse

def readSessionCall : Deserializer (Call O) := do
  let sessionId ← readInt64
  Exec.require (sessionId = 0) (.requirement "Session ID is not 0")
  let command ← readByte
  if command = MessageCommand.CreateInstance then do
    let clsid ← readUUID
    let outer ← readIUnknownOrNull remoting (readVariant remoting)
    let context ← readInt32
    let n ← readInt32
    let iids ← fill n.toInt.toNat readUUID
    pure (.session ⟨⟨clsid⟩, outer, context, Seq.ofVector (iids.map IID.mk)⟩)
  else throw .matchError

def readInvokeCall (proxyId : ProxyId) : Deserializer (ObjectCall O) := do
  let dispatchId ← readInt32
  let iid ← readUUID
  let localeId ← readInt32
  Exec.require (localeId = 0) (.requirement "")
  let flags ← readInt32
  let n ← readInt32
  let namedArgumentCount ← readInt32
  let argDispatchIds ← fill namedArgumentCount.toInt.toNat readInt32
  let namedArguments ← argDispatchIds.mmap fun id => (do
    let value ← readVariant remoting
    pure ((⟨id⟩ : DISPID), value))
  let arguments ← readArguments remoting (n - namedArgumentCount)
  let dispatchTypes ← Exec.ofExcept (DispatchType.ofBits flags)
  pure (.InvokeCall proxyId ⟨dispatchId⟩ ⟨iid⟩ dispatchTypes arguments
    (Seq.ofVector namedArguments).reverse)

def readGetIDsOfNamesCall (proxyId : ProxyId) : Deserializer (ObjectCall O) := do
  let iid ← readUUID
  let localeId ← readInt32
  let n ← readInt32
  let names ← fill n.toInt.toNat readString
  pure (.GetIDsOfNamesCall proxyId ⟨iid⟩ localeId (Seq.ofVector names))

def readCallCall (proxyId : ProxyId) : Deserializer (ObjectCall O) := do
  let methodName ← readString
  let argumentCount ← readInt32
  let namedArgumentCount ← readInt32
  Exec.require (namedArgumentCount = 0) (.requirement "")
  let arguments ← readArguments remoting argumentCount
  pure (.CallCall proxyId methodName arguments)

def readObjectCall : Deserializer (ObjectCall O) := do
  let proxyId ← readInt64
  let command ← readByte
  if command = MessageCommand.Release then pure (.ReleaseCall ⟨proxyId⟩)
  else if command = MessageCommand.QueryInterface then do
    let iid ← readUUID
    pure (.QueryInterfaceCall ⟨proxyId⟩ ⟨iid⟩)
  else if command = MessageCommand.GetIDsOfNames then readGetIDsOfNamesCall ⟨proxyId⟩
  else if command = MessageCommand.Invoke then readInvokeCall remoting ⟨proxyId⟩
  else if command = MessageCommand.Call then readCallCall remoting ⟨proxyId⟩
  else throw .matchError

def readCall : Deserializer (Call O) := do
  let messageClass ← readByte
  if messageClass = MessageClass.Session then readSessionCall remoting
  else if messageClass = MessageClass.Object then do
    let call ← readObjectCall remoting
    pure (.object call)
  else if messageClass = MessageClass.KeepAlive then pure .KeepaliveCall
  else throw .matchError

def readCallAndEnd : Deserializer (Call O) := do
  let result ← readCall remoting
  requireEndOfMessage
  pure result

def deserializeCall (message : List UInt8) : Except Failure (Call O) :=
  (readCallAndEnd remoting message).1

end Reading

/-! ## Calls that come back -/

variable {remoting : ServerRemoting O} {runtime : Runtime O}

/-- The calls with values that are read back: an invocation with such arguments, and a
    request for the ids of such names. -/
def ObjectCall.ReadsBack : ObjectCall O → Prop
  | .InvokeCall _ _ _ _ arguments namedArguments =>
      (∀ v ∈ arguments.toList, v.ReadsBack) ∧ ∀ a ∈ namedArguments.toList, a.2.ReadsBack
  | .GetIDsOfNamesCall _ _ _ names => ∀ n ∈ names.toList, ∀ c ∈ n.toList, c < 256
  | .ReleaseCall _ | .QueryInterfaceCall _ _ | .CallCall _ _ _ => False

/-- As many places as the size says, filled with the elements. -/
def Seq.toVector {α : Type} (s : Seq α) : List.Vector α s.size.toInt.toNat :=
  ⟨s.toList, by rw [s.toInt_size]; rfl⟩

theorem Seq.ofVector_toVector {α : Type} (s : Seq α) : Seq.ofVector s.toVector = s := rfl

theorem Seq.reverse_reverse {α : Type} (s : Seq α) : s.reverse.reverse = s :=
  Seq.toList_inj (List.reverse_reverse s.toList)

/-- The elements of a sequence, read one after the other. -/
theorem Reads.seq {α : Type} {m : Deserializer α} {w : α → List UInt8} (s : Seq α)
    (h : ∀ x ∈ s.toList, Reads m (w x) x) :
    Reads (fill s.size.toInt.toNat m) (s.toList.flatMap w) s.toVector :=
  Reads.fill (v := s.toVector) h

theorem Seq.size_reverse {α : Type} (s : Seq α) : s.reverse.size = s.size := by
  rw [Seq.size, Seq.size, Seq.reverse, List.length_reverse]

/-- Written in the reversed order and read, the arguments are in their order. -/
theorem reads_arguments {n : BitVec 32} (arguments : Seq (Value O))
    (hn : n = arguments.reverse.size) (h : ∀ v ∈ arguments.toList, v.ReadsBack) :
    Reads (readArguments remoting n)
      (arguments.toList.reverse.flatMap (valueBytes runtime)) arguments := by
  subst hn
  have h1 := Reads.seq (m := readVariant remoting) (w := valueBytes runtime) arguments.reverse
    fun v hv => (h v (List.mem_reverse.mp hv)).reads
  refine h1.ret ?_
  rw [Seq.ofVector_toVector, Seq.reverse_reverse]
  exact Reads.pure _

/-- The ids of named arguments, then their values: the pairs of them. -/
theorem reads_pairs {n : Nat} {γ : Type} {w : List UInt8} {c : γ}
    {f : List.Vector (DISPID × Value O) n → Deserializer γ}
    (v : List.Vector (DISPID × Value O) n) (h : ∀ a ∈ v.toList, a.2.ReadsBack)
    (hf : Reads (f v) w c) :
    Reads (do
        let argDispatchIds ← fill n readInt32
        let named ← argDispatchIds.mmap fun id => (do
          let value ← readVariant remoting
          pure ((⟨id⟩ : DISPID), value))
        f named)
      ((v.toList.flatMap fun a => int32Bytes a.1.value)
        ++ ((v.toList.flatMap fun a => valueBytes runtime a.2) ++ w)) c := by
  refine (Reads.fill_map (r := fun a => a.1.value) fun a _ => reads_int32 a.1.value).bind ?_
  refine Reads.bind (a := v) ?_ hf
  rw [mmap_map]
  have value : ∀ a ∈ v.toList, Reads (do
      let value ← readVariant remoting
      pure ((⟨a.1.value⟩ : DISPID), value)) (valueBytes runtime a.2) (id a) := by
    intro a ha
    have h1 : Reads (readVariant remoting) (valueBytes runtime a.2) a.2 := (h a ha).reads
    exact h1.ret (Reads.pure _)
  have h1 := Reads.mmap value
  rwa [show v.map id = v from List.Vector.eq _ _ (by simp)] at h1

/-- What follows the command byte of an invocation, in the order of the wire. -/
def invokeBytes (runtime : Runtime O) (dispatchId : DISPID) (iid : IID)
    (dispatchTypes : Finset DispatchType) (arguments : Seq (Value O))
    (namedArguments : Seq (DISPID × Value O)) : List UInt8 :=
  int32Bytes dispatchId.value ++ (uuidBytes iid.uuid ++ (int32Bytes 0 ++
    (int32Bytes (DispatchType.bits dispatchTypes) ++
    (int32Bytes (arguments.size + namedArguments.size) ++ (int32Bytes namedArguments.size ++
    ((namedArguments.toList.reverse.flatMap fun a => int32Bytes a.1.value) ++
    ((namedArguments.toList.reverse.flatMap fun a => valueBytes runtime a.2) ++
    arguments.toList.reverse.flatMap (valueBytes runtime))))))))

def getIDsOfNamesBytes (iid : IID) (localeId : BitVec 32) (names : Seq JString) : List UInt8 :=
  uuidBytes iid.uuid ++ (int32Bytes localeId ++ (int32Bytes names.size ++
    names.toList.flatMap stringBytes))

theorem reads_invokeCall (proxyId : ProxyId) (dispatchId : DISPID) (iid : IID)
    (dispatchTypes : Finset DispatchType) {arguments : Seq (Value O)}
    {namedArguments : Seq (DISPID × Value O)} (ha : ∀ v ∈ arguments.toList, v.ReadsBack)
    (hn : ∀ a ∈ namedArguments.toList, a.2.ReadsBack) :
    Reads (readInvokeCall remoting proxyId)
      (invokeBytes runtime dispatchId iid dispatchTypes arguments namedArguments)
      (.InvokeCall proxyId dispatchId iid dispatchTypes arguments namedArguments) := by
  refine (reads_int32 _).bind ((reads_uuid _).bind ((reads_int32 0).bind ?_))
  refine (Reads.require (by decide)).bind ((reads_int32 _).bind ((reads_int32 _).bind ?_))
  refine (reads_int32 _).bind ?_
  rw [← namedArguments.size_reverse]
  refine reads_pairs namedArguments.reverse.toVector
    (fun a h => hn a (List.mem_reverse.mp h)) ?_
  -- the difference of the counts is the number of positional arguments, also if their sum
  -- is no `Int`
  have hs : arguments.size + namedArguments.reverse.size - namedArguments.reverse.size
      = arguments.reverse.size := by
    rw [arguments.size_reverse, BitVec.add_sub_cancel]
  refine (reads_arguments arguments hs ha).ret ?_
  rw [DispatchType.ofBits_bits, Seq.ofVector_toVector, Seq.reverse_reverse]
  exact Reads.pure _

theorem reads_getIDsOfNamesCall (proxyId : ProxyId) (iid : IID) (localeId : BitVec 32)
    {names : Seq JString} (h : ∀ n ∈ names.toList, ∀ c ∈ n.toList, c < 256) :
    Reads (readGetIDsOfNamesCall proxyId : Deserializer (ObjectCall O))
      (getIDsOfNamesBytes iid localeId names)
      (.GetIDsOfNamesCall proxyId iid localeId names) := by
  have name : ∀ n ∈ names.toList, Reads readString (stringBytes n) n := by
    intro n hn
    have h1 := reads_string n
    rwa [(narrowed_eq_iff n).mpr (h n hn)] at h1
  refine (reads_uuid _).bind ((reads_int32 _).bind ((reads_int32 _).bind ?_))
  refine (Reads.seq names name).ret ?_
  rw [Seq.ofVector_toVector]
  exact Reads.pure _

variable [DecidableEq O]

/-- The bytes of an object call from its command byte on. -/
def objectCallBytes (runtime : Runtime O) : ObjectCall O → List UInt8
  | .InvokeCall _ dispatchId iid dispatchTypes arguments namedArguments =>
      [MessageCommand.Invoke]
        ++ invokeBytes runtime dispatchId iid dispatchTypes arguments namedArguments
  | .GetIDsOfNamesCall _ iid localeId names =>
      [MessageCommand.GetIDsOfNames] ++ getIDsOfNamesBytes iid localeId names
  | .ReleaseCall _ | .QueryInterfaceCall _ _ | .CallCall _ _ _ => []

theorem ObjectCall.ReadsBack.writes {call : ObjectCall O} (h : call.ReadsBack) :
    (builder O).Writes (writeObjectCall runtime call) (objectCallBytes runtime call) := by
  cases call with
  | InvokeCall proxyId dispatchId iid dispatchTypes arguments namedArguments =>
      refine (writes_bytes _).bind ((writes_bytes _).bind ((writes_uuid _).bind ?_))
      refine (writes_bytes _).bind ((writes_bytes _).bind ((writes_bytes _).bind ?_))
      refine (writes_bytes _).bind ((Sink.Writes.forEach fun a _ => writes_bytes _).bind ?_)
      rw [← List.flatMap_map, ← List.flatMap_append]
      refine Sink.Writes.forEach fun v hv => Value.ReadsBack.writes ?_
      rcases List.mem_append.mp hv with hv | hv
      · obtain ⟨a, ha, rfl⟩ := List.mem_map.mp hv
        exact h.2 a (List.mem_reverse.mp ha)
      · exact h.1 v (List.mem_reverse.mp hv)
  | GetIDsOfNamesCall proxyId iid localeId names =>
      refine (writes_bytes _).bind ((writes_uuid _).bind ((writes_bytes _).bind ?_))
      exact (writes_bytes _).bind (Sink.Writes.forEach fun n _ => writes_string n)
  | ReleaseCall proxyId => exact h.elim
  | QueryInterfaceCall proxyId iid => exact h.elim
  | CallCall proxyId methodName arguments => exact h.elim

omit [DecidableEq O] in
theorem ObjectCall.ReadsBack.reads {call : ObjectCall O} (h : call.ReadsBack) :
    Reads (readObjectCall remoting)
      (int64Bytes call.proxyId.value ++ objectCallBytes runtime call) call := by
  refine (reads_int64 _).bind ?_
  cases call with
  | InvokeCall proxyId dispatchId iid dispatchTypes arguments namedArguments =>
      exact (reads_byte _).bind (reads_invokeCall proxyId dispatchId iid dispatchTypes h.1 h.2)
  | GetIDsOfNamesCall proxyId iid localeId names =>
      exact (reads_byte _).bind (reads_getIDsOfNamesCall proxyId iid localeId h)
  | ReleaseCall proxyId => exact h.elim
  | QueryInterfaceCall proxyId iid => exact h.elim
  | CallCall proxyId methodName arguments => exact h.elim

theorem serializeCall_of_writes {call : Call O} {w : List UInt8}
    (h : (builder O).Writes (writeCall runtime call) w) (r : ProxyRegister O) :
    serializeCall runtime call r = (.ok w, r) := by
  rw [serializeCall, bind_run, serialize, h]
  rfl

omit [DecidableEq O] in
theorem deserializeCall_of_reads {call : Call O} {w : List UInt8}
    (h : Reads (readCall remoting) w call) : deserializeCall remoting w = .ok call := by
  have h1 := h []
  rw [List.append_nil] at h1
  rw [deserializeCall, readCallAndEnd, bind_run, h1]
  rfl

/-- The call is serialized, and what is deserialized is the call. -/
def CallRoundTrips (runtime : Runtime O) (remoting : ServerRemoting O) (call : Call O) : Prop :=
  ∀ r : ProxyRegister O, ∃ message,
    serializeCall runtime call r = (.ok message, r) ∧ deserializeCall remoting message = .ok call

/-- An invocation with any arguments that are read back, and a request for ids of any
    such names, come back as they were. -/
theorem invokeCall_roundTrips (runtime : Runtime O) (remoting : ServerRemoting O)
    (call : ObjectCall O) (h : call.ReadsBack) : CallRoundTrips runtime remoting (.object call) := by
  intro r
  have hw : (builder O).Writes (writeCall runtime (.object call))
      ([MessageClass.Object] ++ (int64Bytes call.proxyId.value ++ objectCallBytes runtime call)) :=
    (writes_bytes _).bind ((writes_bytes _).bind h.writes)
  have hr : Reads (readCall remoting)
      ([MessageClass.Object] ++ (int64Bytes call.proxyId.value ++ objectCallBytes runtime call))
      (.object call) :=
    (reads_byte _).bind (h.reads.ret (Reads.pure _))
  exact ⟨_, serializeCall_of_writes hw r, deserializeCall_of_reads hr⟩

/-- A call with two positional arguments, a named one and two types. -/
def sampleCall : ObjectCall DummyObject :=
  .InvokeCall ⟨5⟩ ⟨7⟩ ⟨⟨1, 2⟩⟩ {.DISPATCH_METHOD, .DISPATCH_PROPERTYGET}
    ⟨[.int 1, .string ⟨[97, 98], by decide⟩], by decide⟩ ⟨[(⟨0xFFFFFFFD⟩, .null)], by decide⟩

theorem sampleCall_roundTrips : CallRoundTrips sampleRuntime .Dummy (.object sampleCall) := by
  refine invokeCall_roundTrips sampleRuntime .Dummy sampleCall ⟨?_, ?_⟩
  · intro v hv
    rcases List.mem_cons.mp hv with rfl | hv
    · exact trivial
    · rw [List.mem_singleton.mp hv]
      exact narrow_of_all (o := ⟨[97, 98], by decide⟩) (by decide)
  · intro a ha
    rw [List.mem_singleton.mp ha]
    exact trivial

/-! ## Calls that do not come back -/

omit [DecidableEq O] in
theorem deserializeCall_ok {call : Call O} {w : List UInt8}
    (h : deserializeCall remoting w = .ok call) : ∃ t, readCall remoting w = (.ok call, t) := by
  rcases hr : readCallAndEnd remoting w with ⟨r, t⟩
  rw [deserializeCall, hr] at h
  have h1 : r = .ok call := h
  rw [h1] at hr
  obtain ⟨c, t1, h2, h3⟩ := bind_ok hr
  obtain ⟨_, t2, _, h4⟩ := bind_ok h3
  cases h4
  exact ⟨t1, h2⟩

theorem reads_word64 {w : List UInt8} (h : w.length = 8) :
    Reads readInt64 w (BitVec.ofNat 64 (number w)) := by
  have h1 := reads_take Failure.bufferUnderflow w
  rw [h] at h1
  exact h1.ret (Reads.pure _)

theorem reads_uuid_words {v w : List UInt8} (hv : v.length = 8) (hw : w.length = 8) :
    Reads readUUID (v ++ w) ⟨BitVec.ofNat 64 (number v), BitVec.ofNat 64 (number w)⟩ :=
  (reads_word64 hv).bind ((reads_word64 hw).ret (Reads.pure _))

/-- The bytes of a session call: there is neither a session id nor a command byte. -/
def sessionCallBytes (call : CreateInstanceCall O) : List UInt8 :=
  uuidBytes call.clsid.uuid ++ (nullBytes ++ (int32Bytes 0 ++
    (int32Bytes call.iids.size ++ call.iids.toList.flatMap fun o => uuidBytes o.uuid)))

omit [DecidableEq O] in
theorem writes_sessionCall (call : CreateInstanceCall O) :
    (builder O).Writes (writeSessionCall call) (sessionCallBytes call) := by
  refine (writes_uuid _).bind (writes_null.bind ((writes_bytes _).bind ((writes_bytes _).bind ?_)))
  exact Sink.Writes.forEach fun o _ => writes_uuid o.uuid

omit [DecidableEq O] in
/-- Where a reader of session calls takes these bytes apart. -/
theorem sessionCallBytes_eq (call : CreateInstanceCall O) :
    ∃ rest, sessionCallBytes call =
      int64Bytes call.clsid.uuid.mostSignificantBits ++
        ([UInt8.ofNat (call.clsid.uuid.leastSignificantBits.toNat / 256 ^ 7)] ++
        (((digits 7 call.clsid.uuid.leastSignificantBits.toNat ++ [0]) ++
        [0, 0, 13, 0, 0, 0, 0, 0]) ++ rest)) := by
  refine ⟨[0, 0, 0, 0] ++ (int32Bytes 0 ++ (int32Bytes call.iids.size
    ++ call.iids.toList.flatMap fun o => uuidBytes o.uuid)), ?_⟩
  have h1 : nullBytes = [0] ++ ([0, 0, 13, 0, 0, 0, 0, 0] ++ [0, 0, 0, 0]) := by decide
  have h2 : int64Bytes call.clsid.uuid.leastSignificantBits
      = [UInt8.ofNat (call.clsid.uuid.leastSignificantBits.toNat / 256 ^ 7)]
        ++ digits 7 call.clsid.uuid.leastSignificantBits.toNat := digits_succ 7 _
  rw [sessionCallBytes, uuidBytes, h1, h2]
  simp only [List.append_assoc, List.cons_append, List.nil_append]

omit [DecidableEq O] in
/-- Read as a session call, the upper half of the class id is the session id, and the
    lower half begins with the command byte; the class id that is read has a part of
    the null reference for its lower half. -/
theorem readSessionCall_written (call : CreateInstanceCall O) {t : List UInt8} :
    readSessionCall remoting (sessionCallBytes call) ≠ (.ok (.session call), t) := by
  intro h
  obtain ⟨rest, hb⟩ := sessionCallBytes_eq call
  rw [hb] at h
  obtain ⟨sessionId, t1, h1, h⟩ := bind_ok h
  rw [reads_int64] at h1
  cases h1
  obtain ⟨_, t2, h2, h⟩ := bind_ok h
  rw [require_run] at h2
  split at h2
  · cases h2
    obtain ⟨command, t3, h3, h⟩ := bind_ok h
    rw [reads_byte] at h3
    cases h3
    split at h
    · rename_i hc
      obtain ⟨clsid, t4, h4, h⟩ := bind_ok h
      have high : (digits 7 call.clsid.uuid.leastSignificantBits.toNat ++ [0]).length = 8 := by
        rw [List.length_append, length_digits]
        rfl
      rw [reads_uuid_words high (by decide)] at h4
      cases h4
      obtain ⟨outer, t5, _, h⟩ := bind_ok h
      obtain ⟨context, t6, _, h⟩ := bind_ok h
      obtain ⟨n, t7, _, h⟩ := bind_ok h
      obtain ⟨iids, t8, _, h⟩ := bind_ok h
      have h5 := congrArg CreateInstanceCall.clsid
        (Call.session.inj (Except.ok.inj (Prod.mk.inj h).1))
      have h6 : BitVec.ofNat 64 (number [0, 0, 13, 0, 0, 0, 0, 0])
          = call.clsid.uuid.leastSignificantBits :=
        congrArg (fun c : CLSID => c.uuid.leastSignificantBits) h5
      rw [← h6] at hc
      exact absurd hc (by decide)
    · cases h
  · cases h2

omit [DecidableEq O] in
/-- With the command byte of another call, a `QueryInterfaceCall` is never read. -/
theorem readObjectCall_queryInterface (proxyId : ProxyId) (iid : IID) {w t : List UInt8} :
    readObjectCall remoting
        (int64Bytes proxyId.value ++ ([MessageCommand.GetIDsOfNames] ++ w))
      ≠ (.ok (.QueryInterfaceCall proxyId iid), t) := by
  intro h
  obtain ⟨id, t1, h1, h⟩ := bind_ok h
  rw [reads_int64] at h1
  cases h1
  obtain ⟨command, t2, h2, h⟩ := bind_ok h
  rw [reads_byte] at h2
  cases h2
  obtain ⟨_, t3, _, h⟩ := bind_ok (show readGetIDsOfNamesCall _ _ = _ from h)
  obtain ⟨_, t4, _, h⟩ := bind_ok h
  obtain ⟨_, t5, _, h⟩ := bind_ok h
  obtain ⟨_, t6, _, h⟩ := bind_ok h
  cases h

theorem createInstance_not_roundTrips (runtime : Runtime O) (remoting : ServerRemoting O)
    (call : CreateInstanceCall O) : ¬ CallRoundTrips runtime remoting (.session call) := by
  intro h
  obtain ⟨message, h1, h2⟩ := h .empty
  have hw : (builder O).Writes (writeCall runtime (.session call))
      ([MessageClass.Session] ++ sessionCallBytes call) :=
    (writes_bytes _).bind (writes_sessionCall call)
  rw [serializeCall_of_writes hw] at h1
  cases h1
  obtain ⟨t, h3⟩ := deserializeCall_ok h2
  obtain ⟨messageClass, t1, h4, h5⟩ := bind_ok h3
  rw [reads_byte] at h4
  cases h4
  exact readSessionCall_written call h5

theorem queryInterface_not_roundTrips (runtime : Runtime O) (remoting : ServerRemoting O)
    (proxyId : ProxyId) (iid : IID) :
    ¬ CallRoundTrips runtime remoting (.object (.QueryInterfaceCall proxyId iid)) := by
  intro h
  obtain ⟨message, h1, h2⟩ := h .empty
  have hw : (builder O).Writes (writeCall runtime (.object (.QueryInterfaceCall proxyId iid)))
      ([MessageClass.Object] ++ (int64Bytes proxyId.value ++ ([MessageCommand.GetIDsOfNames]
        ++ (int64Bytes proxyId.value ++ uuidBytes iid.uuid)))) :=
    (writes_bytes _).bind ((writes_bytes _).bind ((writes_bytes _).bind
      ((writes_bytes _).bind (writes_uuid _))))
  rw [serializeCall_of_writes hw] at h1
  cases h1
  obtain ⟨t, h3⟩ := deserializeCall_ok h2
  obtain ⟨messageClass, t1, h4, h5⟩ := bind_ok h3
  rw [reads_byte] at h4
  cases h4
  obtain ⟨c, t2, h6, h7⟩ := bind_ok (show (do
    let call ← readObjectCall remoting
    pure (.object call) : Deserializer (Call O)) _ = _ from h5)
  cases h7
  exact readObjectCall_queryInterface proxyId iid h6

/-- No session call and no `QueryInterfaceCall` comes back. -/
theorem sessionCalls_never_roundTrip (runtime : Runtime O) (remoting : ServerRemoting O) :
    (∀ call, ¬ CallRoundTrips runtime remoting (.session call)) ∧
      ∀ proxyId iid, ¬ CallRoundTrips runtime remoting (.object (.QueryInterfaceCall proxyId iid)) :=
  ⟨createInstance_not_roundTrips runtime remoting, queryInterface_not_roundTrips runtime remoting⟩

theorem not_roundTrips_sample :
    ¬ CallRoundTrips sampleRuntime .Dummy (.session ⟨.Null, none, 0, ⟨[⟨⟨1, 2⟩⟩], by decide⟩⟩) ∧
      ¬ CallRoundTrips sampleRuntime .Dummy (.object (.QueryInterfaceCall ⟨5⟩ ⟨⟨1, 2⟩⟩)) :=
  ⟨createInstance_not_roundTrips _ _ _, queryInterface_not_roundTrips _ _ _ _⟩

end Minicom
