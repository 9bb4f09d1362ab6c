import SchedulerEngine.MinicomValuesProofs

/-! # COM remoting: the register of objects and the serializer

    The register gives each object that is sent an id of its own, and remembers the
    ids under which the peer has sent its objects.  A serializer writes into a
    buffer; what it changes in the register stays changed when it fails. -/

namespace Minicom

open Execution Wire

variable {O : Type}

/-! ## The register -/

def ProxyId.StartNumber : BitVec 32 := 0x40000001

def ProxyId.salt (nextInt i : BitVec 32) : BitVec 64 :=
  nextInt.signExtend 64 <<< 32 ||| i.signExtend 64 &&& 0x7fffffff

/-- No id and no object stands twice in the register. -/
structure ProxyRegister (O : Type) where
  entries : List (ProxyId × O)
  ids_nodup : (entries.map Prod.fst).Nodup
  objects_nodup : (entries.map Prod.snd).Nodup
  /-- how many ids the generator has given -/
  generated : Nat

namespace ProxyRegister

/-- The register of a new connection. -/
def empty : ProxyRegister O := ⟨[], List.nodup_nil, List.nodup_nil, 0⟩

def ids (r : ProxyRegister O) : List ProxyId := r.entries.map Prod.fst

def objects (r : ProxyRegister O) : List O := r.entries.map Prod.snd

variable [DecidableEq O]

def idOf (r : ProxyRegister O) (o : O) : Option ProxyId :=
  (r.entries.find? fun e => e.2 = o).map Prod.fst

/-- The id that the generator gives next. -/
def nextId (runtime : Runtime O) (r : ProxyRegister O) : ProxyId :=
  ⟨ProxyId.salt (runtime.nextInt r.generated)
    (ProxyId.StartNumber + BitVec.ofNat 32 r.generated)⟩

def proxyIdGeneratorNext (runtime : Runtime O) : Exec (ProxyRegister O) Failure ProxyId := do
  let r ← get
  set { r with generated := r.generated + 1 }
  pure (r.nextId runtime)

def add (proxyId : ProxyId) (o : O) : Exec (ProxyRegister O) Failure Unit := do
  let r ← get
  if hi : proxyId ∈ r.ids then throw (.duplicateKey proxyId)
  else if ho : o ∈ r.objects then throw (.duplicateKey proxyId)
  else set { r with
    entries := (proxyId, o) :: r.entries
    ids_nodup := List.nodup_cons.mpr ⟨hi, r.ids_nodup⟩
    objects_nodup := List.nodup_cons.mpr ⟨ho, r.objects_nodup⟩ }

/-- A proxy is an object of the peer; it keeps the peer's id. -/
def registerProxy (proxyId : ProxyId) (proxy : O) : Exec (ProxyRegister O) Failure Unit :=
  add proxyId proxy

def iUnknownToProxyId (runtime : Runtime O) (iUnknown : Option O) :
    Exec (ProxyRegister O) Failure (ProxyId × Bool) :=
  match iUnknown with
  | none => throw .nullPointer
  | some o => do
      let r ← get
      match r.idOf o with
      | none => do
          let proxyId ← proxyIdGeneratorNext runtime
          add proxyId o
          pure (proxyId, true)
      | some proxyId => pure (proxyId, false)

omit [DecidableEq O] in
theorem nodup_filter {α β : Type} {f : α → β} {p : α → Bool} {l : List α}
    (h : (l.map f).Nodup) : ((l.filter p).map f).Nodup :=
  h.sublist (List.filter_sublist.map f)

/-- The object's `close` is outside the register, and its failure is only logged. -/
def release (proxyId : ProxyId) (r : ProxyRegister O) : ProxyRegister O where
  entries := r.entries.filter fun e => e.1 ≠ proxyId
  ids_nodup := nodup_filter r.ids_nodup
  objects_nodup := nodup_filter r.objects_nodup
  generated := r.generated

end ProxyRegister

/-! ## `BaseSerializer` -/

structure Serializer (O : Type) where
  builder : List UInt8
  proxyRegister : ProxyRegister O
  /-- the ids written as references, each with its `isNew` (kept for the statements) -/
  references : List (ProxyId × Bool)

abbrev Writer (O : Type) := Exec (Serializer O) Failure

/-- What is written is appended to the buffer. -/
def builder (O : Type) : Sink UInt8 (Serializer O) where
  put w s := { s with builder := s.builder ++ w }
  put_nil s := by rw [List.append_nil]
  put_append v w s := by rw [← List.append_assoc]

def putBytes (w : List UInt8) : Writer O Unit := modify fun s => { s with builder := s.builder ++ w }

def writeByte (o : UInt8) : Writer O Unit := putBytes [o]

def writeInt32 (o : BitVec 32) : Writer O Unit := putBytes (int32Bytes o)

def writeInt64 (o : BitVec 64) : Writer O Unit := putBytes (int64Bytes o)

def writeDouble (runtime : Runtime O) (o : BitVec 64) : Writer O Unit := do
  let string := runtime.doubleToString o
  writeByte 's'.toUInt8
  writeByte (UInt8.ofNat string.toList.length)
  putBytes (string.toList.map UInt16.toUInt8)

def writeBoolean (o : Bool) : Writer O Unit := putBytes (booleanBytes o)

def writeString (o : JString) : Writer O Unit := do
  writeInt32 o.size
  putBytes (o.toList.map charToIso88591Byte)

def writeUUID (o : UUID) : Writer O Unit := do
  putBytes (int64Bytes o.mostSignificantBits)
  putBytes (int64Bytes o.leastSignificantBits)

theorem writes_bytes (w : List UInt8) : (builder O).Writes (putBytes w) w := fun _ => rfl

theorem writes_string (o : JString) : (builder O).Writes (writeString o) (stringBytes o) :=
  (writes_bytes _).bind (writes_bytes _)

theorem writes_uuid (o : UUID) : (builder O).Writes (writeUUID o) (uuidBytes o) :=
  (writes_bytes _).bind (writes_bytes _)

/-! ## `IDispatchSerializer` -/

/-- The register is changed in its own right; the buffer stays. -/
def onRegister {α : Type} (m : Exec (ProxyRegister O) Failure α) :
    Writer O α :=
  Exec.onPart Serializer.proxyRegister (fun r s => { s with proxyRegister := r }) id m

def writeIUnknown [DecidableEq O] (runtime : Runtime O) (iUnknown : Option O) : Writer O Unit := do
  let (proxyId, isNew) ← onRegister (ProxyRegister.iUnknownToProxyId runtime iUnknown)
  modify fun s => { s with references := s.references ++ [(proxyId, isNew)] }
  writeInt64 proxyId.value
  writeBoolean isNew
  match iUnknown, isNew with
  | some o, true => do
      writeString (runtime.simpleName o)
      writeUUID CLSID.Null.uuid
      writeInt32 0
  | _, _ => pure ()

end Minicom
