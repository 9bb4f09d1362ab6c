import SchedulerEngine.ProxyRegisterProofs

/-! # COM remoting: variants

    `writeVariant` and `readVariant` have each their own list of the types they
    know.  `readsBack` is what both know: every other value that is written is not
    read back. -/

namespace Minicom

open Execution Wire

variable {O : Type}

/-! ## `variantTypes` and `variantArrayFlags` -/

def VT_EMPTY : BitVec 32 := 0
def VT_I4 : BitVec 32 := 3
def VT_R8 : BitVec 32 := 5
def VT_BSTR : BitVec 32 := 8
def VT_DISPATCH : BitVec 32 := 9
def VT_BOOL : BitVec 32 := 11
def VT_VARIANT : BitVec 32 := 12
def VT_UNKNOWN : BitVec 32 := 13
def VT_I8 : BitVec 32 := 20
def VT_INT : BitVec 32 := 22
def VT_ARRAY : BitVec 32 := 0x2000

def FADF_FIXEDSIZE : BitVec 16 := 0x10
def FADF_HAVEVARTYPE : BitVec 16 := 0x80
def FADF_BSTR : BitVec 16 := 0x100
def FADF_VARIANT : BitVec 16 := 0x800

/-! ## `VariantSerializer` -/

def writeNull : Writer O Unit := do
  writeInt32 VT_UNKNOWN
  writeInt64 ProxyId.Null.value
  writeBoolean false

def writeVariant (runtime : Runtime O) (writeIUnknown : Option O → Writer O Unit) :
    Value O → Writer O Unit
  | .int o => do
      writeInt32 VT_I4
      writeInt32 o
  | .long o => do
      writeInt32 VT_I8
      writeInt64 o
  | .double o => do
      writeInt32 VT_R8
      writeDouble runtime o
  | .boolean o => do
      writeInt32 VT_BOOL
      writeBoolean o
  | .string o => do
      writeInt32 VT_BSTR
      writeString o
  | .idispatch none => do
      writeInt32 VT_DISPATCH
      throw .nullPointer
  | .idispatch (some o) => do
      writeInt32 VT_DISPATCH
      writeIUnknown (some o)
  | .null => writeNull
  | .unit => writeInt32 VT_EMPTY
  | .iUnknown _ => throw .matchError
  | .variantArray _ => throw .matchError
  | .other => throw .matchError

/-! ## `VariantDeserializer` -/

/-- Where the references of a message are resolved. -/
structure ServerRemoting (O : Type) where
  newProxy : ProxyId → JString → CLSID → List (JString × Value O) → Except Failure O
  iUnknown : ProxyId → Except Failure O

/-- The objects of `ServerRemoting.Dummy`. -/
inductive DummyObject where
  | proxy (id : ProxyId) (name : JString)
  | empty
deriving DecidableEq

def ServerRemoting.Dummy : ServerRemoting DummyObject where
  newProxy proxyId name _ _ := .ok (.proxy proxyId name)
  iUnknown _ := .ok .empty

variable (remoting : ServerRemoting O)

def readVariantArray (readVariant : Deserializer (Value O)) : Deserializer (Value O) := do
  let dimensions ← readInt16
  Exec.require (dimensions = 1) (.requirement "")
  let features ← readInt16
  Exec.require
    (features &&& ~~~(FADF_FIXEDSIZE ||| FADF_HAVEVARTYPE ||| FADF_BSTR ||| FADF_VARIANT) = 0)
    (.badFeatures features)
  let count ← readInt32
  let lowerBound ← readInt32
  Exec.require (lowerBound = 0) (.requirement "")
  let vt ← readInt32
  if vt = VT_VARIANT then do
    Exec.require (features &&& FADF_VARIANT ≠ 0) (.badFeatures features)
    let elements ← fill count.toInt.toNat readVariant
    pure (.variantArray elements.toList)
  else throw (.unsupportedArrayVariant vt)

/-- `RemotingIUnknownDeserializer`: `none` is `null`. -/
def readIUnknownOrNull (readVariant : Deserializer (Value O)) : Deserializer (Option O) := do
  let proxyId ← readInt64
  let isNew ← readBoolean
  if isNew then do
    let name ← readString
    let proxyClsid ← readUUID
    let n ← readInt32
    let proxyProperties ← fill n.toInt.toNat (do
      let name ← readString
      let value ← readVariant
      pure (name, value))
    let o ← Exec.ofExcept (remoting.newProxy ⟨proxyId⟩ name ⟨proxyClsid⟩ proxyProperties.toList)
    pure (some o)
  else if (⟨proxyId⟩ : ProxyId) = ProxyId.Null then pure none
  else do
    let o ← Exec.ofExcept (remoting.iUnknown ⟨proxyId⟩)
    pure (some o)

/-- `VT_ERROR` and the types that are not listed are not supported. -/
def readSimpleVariant (vt : BitVec 32) : Deserializer (Value O) :=
  if vt = VT_EMPTY then pure .unit
  else if vt = VT_I4 ∨ vt = VT_INT then do
    let o ← readInt32
    pure (.int o)
  else if vt = VT_BSTR then do
    let o ← readString
    pure (.string o)
  else if vt = VT_BOOL then do
    let o ← readBoolean
    pure (.boolean o)
  else if vt = VT_I8 then do
    let o ← readInt64
    pure (.long o)
  else throw (.unsupportedVariant vt)

/-- `readVariant`, given what reads a variant inside this one. -/
def readVariantBody (readVariant : Deserializer (Value O)) : Deserializer (Value O) := do
  let vt ← readInt32
  if vt &&& VT_ARRAY ≠ 0 then readVariantArray readVariant
  else if vt = VT_UNKNOWN ∨ vt = VT_DISPATCH then do
    let o ← readIUnknownOrNull remoting readVariant
    pure (match o with
      | some o => .iUnknown o
      | none => .null)
  else readSimpleVariant vt

/-- `readVariant` to a depth of nesting. -/
def readVariantDepth : Nat → Deserializer (Value O)
  | 0 => throw .stackOverflow
  | n + 1 => readVariantBody remoting (readVariantDepth n)

/-- Each level of nesting takes bytes, so that the depth is no more than their number. -/
def readVariant : Deserializer (Value O) := fun s => readVariantDepth remoting (s.length + 1) s

/-! ## The recursion of `readVariant` -/

variable {remoting}

theorem Shrinks.readVariantArray {m : Deserializer (Value O)} (h : Shrinks m) :
    Shrinks (readVariantArray m) :=
  Shrinks.readInt16.bind fun _ => (Shrinks.require _ _).bind fun _ =>
    Shrinks.readInt16.bind fun _ => (Shrinks.require _ _).bind fun _ =>
    Shrinks.readInt32.bind fun _ => Shrinks.readInt32.bind fun _ =>
    (Shrinks.require _ _).bind fun _ => Shrinks.readInt32.bind fun _ =>
    ((Shrinks.require _ _).bind fun _ => (h.fill _).bind fun _ => Shrinks.pure _).ite
      (Shrinks.throw _)

theorem Shrinks.readIUnknownOrNull {m : Deserializer (Value O)} (h : Shrinks m) :
    Shrinks (readIUnknownOrNull remoting m) :=
  Shrinks.readInt64.bind fun _ => Shrinks.readBoolean.bind fun _ =>
    (Shrinks.readString.bind fun _ => Shrinks.readUUID.bind fun _ =>
      Shrinks.readInt32.bind fun _ =>
      (Shrinks.fill (Shrinks.readString.bind fun _ => h.bind fun _ => Shrinks.pure _) _).bind
      fun _ => (Shrinks.ofExcept _).bind fun _ => Shrinks.pure _).ite
    ((Shrinks.pure _).ite ((Shrinks.ofExcept _).bind fun _ => Shrinks.pure _))

theorem Shrinks.readSimpleVariant (vt : BitVec 32) :
    Shrinks (readSimpleVariant vt : Deserializer (Value O)) :=
  (Shrinks.pure _).ite <| (Shrinks.readInt32.bind fun _ => Shrinks.pure _).ite <|
    (Shrinks.readString.bind fun _ => Shrinks.pure _).ite <|
    (Shrinks.readBoolean.bind fun _ => Shrinks.pure _).ite <|
    (Shrinks.readInt64.bind fun _ => Shrinks.pure _).ite (Shrinks.throw _)

theorem Shrinks.readVariantBody {m : Deserializer (Value O)} (h : Shrinks m) :
    Shrinks (readVariantBody remoting m) :=
  Shrinks.readInt32.bind fun _ => (Shrinks.readVariantArray h).ite <|
    ((Shrinks.readIUnknownOrNull h).bind fun _ => Shrinks.pure _).ite (Shrinks.readSimpleVariant _)

theorem Shrinks.readVariantDepth (n : Nat) : Shrinks (readVariantDepth remoting n) := by
  induction n with
  | zero => exact Shrinks.throw _
  | succ n ih => exact Shrinks.readVariantBody ih

/-- With four bytes more, the body does the same if what is inside does. -/
theorem Agree.readVariantBody {k : Nat} {m m' : Deserializer (Value O)} (hs : Shrinks m)
    (h : Agree k m m') :
    Agree (k + 4) (readVariantBody remoting m) (readVariantBody remoting m') := by
  refine Agree.after Consumes.readInt32 fun vt => Agree.ite ?_ (Agree.ite ?_ (Agree.refl _))
  · refine Agree.bind Shrinks.readInt16 (Agree.refl _) fun _ => ?_
    refine Agree.bind (Shrinks.require _ _) (Agree.refl _) fun _ => ?_
    refine Agree.bind Shrinks.readInt16 (Agree.refl _) fun _ => ?_
    refine Agree.bind (Shrinks.require _ _) (Agree.refl _) fun _ => ?_
    refine Agree.bind Shrinks.readInt32 (Agree.refl _) fun _ => ?_
    refine Agree.bind Shrinks.readInt32 (Agree.refl _) fun _ => ?_
    refine Agree.bind (Shrinks.require _ _) (Agree.refl _) fun _ => ?_
    refine Agree.bind Shrinks.readInt32 (Agree.refl _) fun _ => Agree.ite ?_ (Agree.refl _)
    refine Agree.bind (Shrinks.require _ _) (Agree.refl _) fun _ => ?_
    exact Agree.bind (hs.fill _) (h.fill hs _) fun _ => Agree.refl _
  · refine Agree.bind (Shrinks.readIUnknownOrNull hs) ?_ fun _ => Agree.refl _
    refine Agree.bind Shrinks.readInt64 (Agree.refl _) fun _ => ?_
    refine Agree.bind Shrinks.readBoolean (Agree.refl _) fun _ => Agree.ite ?_ (Agree.refl _)
    refine Agree.bind Shrinks.readString (Agree.refl _) fun _ => ?_
    refine Agree.bind Shrinks.readUUID (Agree.refl _) fun _ => ?_
    refine Agree.bind Shrinks.readInt32 (Agree.refl _) fun _ => ?_
    have hp : Shrinks (do
        let name ← readString
        let value ← m
        pure (name, value) : Deserializer (JString × Value O)) :=
      Shrinks.readString.bind fun _ => hs.bind fun _ => Shrinks.pure _
    refine Agree.bind (hp.fill _) (Agree.fill hp ?_ _) fun _ => Agree.refl _
    exact Agree.bind Shrinks.readString (Agree.refl _) fun _ =>
      Agree.bind hs h fun _ => Agree.refl _

/-- No more depth is needed than there are bytes. -/
theorem agree_readVariantDepth {k n n' : Nat} (hn : k ≤ n) (hn' : k ≤ n') :
    Agree k (readVariantDepth remoting n) (readVariantDepth remoting n') := by
  induction k generalizing n n' with
  | zero => exact fun s hs => absurd hs (Nat.not_lt_zero _)
  | succ k ih =>
      obtain ⟨n, rfl⟩ := Nat.exists_eq_add_of_le' hn
      obtain ⟨n', rfl⟩ := Nat.exists_eq_add_of_le' hn'
      have h1 : Agree k (readVariantDepth remoting (n + k)) (readVariantDepth remoting (n' + k)) :=
        ih (Nat.le_add_left ..) (Nat.le_add_left ..)
      exact (Agree.readVariantBody (Shrinks.readVariantDepth _) h1).mono (by omega)

/-- `readVariant` calls itself. -/
theorem readVariant_eq : readVariant remoting = readVariantBody remoting (readVariant remoting) := by
  funext s
  have h1 : Agree s.length (readVariantDepth remoting s.length) (readVariant remoting) :=
    fun t ht => agree_readVariantDepth (k := t.length + 1) ht (Nat.le_refl _) t (by omega)
  exact Agree.readVariantBody (Shrinks.readVariantDepth _) h1 s (by omega)

/-- What is read without looking inside does not depend on what is inside. -/
theorem Reads.readVariant {w : List UInt8} {v : Value O}
    (h : ∀ m, Reads (readVariantBody remoting m) w v) : Reads (readVariant remoting) w v := by
  rw [readVariant_eq]
  exact h _

/-! ## What is written is read back -/

variable {runtime : Runtime O} {writeIUnknown : Option O → Writer O Unit}

def nullBytes : List UInt8 :=
  int32Bytes VT_UNKNOWN ++ (int64Bytes ProxyId.Null.value ++ booleanBytes false)

/-- The bytes of the values that are no objects, as far as they can be written. -/
def valueBytes (runtime : Runtime O) : Value O → List UInt8
  | .int o => int32Bytes VT_I4 ++ int32Bytes o
  | .long o => int32Bytes VT_I8 ++ int64Bytes o
  | .double o =>
      let string := (runtime.doubleToString o).toList
      int32Bytes VT_R8 ++ ([115] ++ ([UInt8.ofNat string.length] ++ string.map UInt16.toUInt8))
  | .boolean o => int32Bytes VT_BOOL ++ booleanBytes o
  | .string o => int32Bytes VT_BSTR ++ stringBytes o
  | .null => nullBytes
  | .unit => int32Bytes VT_EMPTY
  | .idispatch _ | .iUnknown _ | .variantArray _ | .other => []

/-- The values that `readVariant` returns as they were written. -/
def Value.ReadsBack : Value O → Prop
  | .int _ | .long _ | .boolean _ | .null | .unit => True
  | .string o => ∀ c ∈ o.toList, c < 256
  | .double _ | .idispatch _ | .iUnknown _ | .variantArray _ | .other => False

theorem reads_null (m : Deserializer (Value O)) :
    Reads (readIUnknownOrNull remoting m) (int64Bytes ProxyId.Null.value ++ booleanBytes false)
      none :=
  (reads_int64 _).bind ((reads_boolean false).ret (Reads.pure none))

/-- A string is read with one byte for each character. -/
theorem reads_string_variant (o : JString) :
    Reads (readVariant remoting) (valueBytes runtime (.string o)) (.string o.narrowed) :=
  Reads.readVariant fun _ => (reads_int32 VT_BSTR).bind ((reads_string o).ret (Reads.pure _))

theorem Value.ReadsBack.reads {v : Value O} (h : v.ReadsBack) :
    Reads (readVariant remoting) (valueBytes runtime v) v := by
  cases v with
  | int o =>
      exact Reads.readVariant fun _ =>
        (reads_int32 VT_I4).bind ((reads_int32 o).ret (Reads.pure _))
  | long o =>
      exact Reads.readVariant fun _ =>
        (reads_int32 VT_I8).bind ((reads_int64 o).ret (Reads.pure _))
  | boolean o =>
      exact Reads.readVariant fun _ =>
        (reads_int32 VT_BOOL).bind ((reads_boolean o).ret (Reads.pure _))
  | string o =>
      have h1 : o.narrowed = o := (narrowed_eq_iff o).mpr h
      have h2 : Reads (readVariant remoting) (valueBytes runtime (.string o)) (.string o.narrowed) :=
        reads_string_variant o
      rwa [h1] at h2
  | null =>
      exact Reads.readVariant fun m =>
        (reads_int32 VT_UNKNOWN).bind ((reads_null m).ret (Reads.pure _))
  | unit => exact Reads.readVariant fun _ => (reads_int32 VT_EMPTY).ret (Reads.pure _)
  | double o => exact h.elim
  | idispatch o => exact h.elim
  | iUnknown o => exact h.elim
  | variantArray o => exact h.elim
  | other => exact h.elim

/-- The type that `writeVariant` gives a `Double` is none that `readVariant` knows. -/
theorem readVariant_double (o : BitVec 64) (rest : List UInt8) :
    (readVariant remoting (valueBytes runtime (.double o) ++ rest)).1
      = .error (.unsupportedVariant VT_R8) := by
  rw [readVariant_eq, valueBytes, List.append_assoc, readVariantBody, bind_run, reads_int32]
  rfl

theorem writes_null : (builder O).Writes writeNull nullBytes :=
  (writes_bytes _).bind ((writes_bytes _).bind (writes_bytes _))

theorem writes_double (o : BitVec 64) :
    (builder O).Writes (writeVariant runtime writeIUnknown (.double o))
      (valueBytes runtime (.double o)) :=
  (writes_bytes _).bind ((writes_bytes _).bind ((writes_bytes _).bind (writes_bytes _)))

theorem writes_string_variant (o : JString) :
    (builder O).Writes (writeVariant runtime writeIUnknown (.string o))
      (valueBytes runtime (.string o)) :=
  (writes_bytes _).bind (writes_string o)

theorem Value.ReadsBack.writes {v : Value O} (h : v.ReadsBack) :
    (builder O).Writes (writeVariant runtime writeIUnknown v) (valueBytes runtime v) := by
  cases v with
  | int o => exact (writes_bytes _).bind (writes_bytes _)
  | long o => exact (writes_bytes _).bind (writes_bytes _)
  | boolean o => exact (writes_bytes _).bind (writes_bytes _)
  | string o => exact writes_string_variant o
  | null => exact writes_null
  | unit => exact writes_bytes _
  | double o => exact h.elim
  | idispatch o => exact h.elim
  | iUnknown o => exact h.elim
  | variantArray o => exact h.elim
  | other => exact h.elim

/-- If the value is written, then it is read back from the bytes written, whatever
    follows them. -/
def RoundTrips (runtime : Runtime O) (writeIUnknown : Option O → Writer O Unit)
    (remoting : ServerRemoting O) (v : Value O) : Prop :=
  ∀ s s', writeVariant runtime writeIUnknown v s = (.ok (), s') →
    ∃ w, s'.builder = s.builder ++ w ∧ Reads (readVariant remoting) w v

theorem RoundTrips.of_writes {v : Value O} {w : List UInt8}
    (hw : (builder O).Writes (writeVariant runtime writeIUnknown v) w)
    (h : RoundTrips runtime writeIUnknown remoting v) : Reads (readVariant remoting) w v := by
  obtain ⟨u, hu, hr⟩ := h ⟨[], .empty, []⟩ _ (hw _)
  have h1 : w = u := hu
  rw [h1]
  exact hr

theorem RoundTrips.of_fails {v : Value O} {e : Failure}
    (h : ∀ s, (writeVariant runtime writeIUnknown v s).1 = .error e) :
    RoundTrips runtime writeIUnknown remoting v := by
  intro s s' hs
  have h1 := h s
  rw [hs] at h1
  cases h1

/-- A value that is no object makes its way through `writeVariant` and `readVariant`
    exactly if it is no `Double` and no string with a character from U+0100 on. -/
theorem roundTrips_iff (runtime : Runtime O) (writeIUnknown : Option O → Writer O Unit)
    (remoting : ServerRemoting O) (v : Value O) (hv : ∀ o, v ≠ .idispatch o) :
    RoundTrips runtime writeIUnknown remoting v
      ↔ (∀ o, v ≠ .double o) ∧ ∀ o, v = .string o → ∀ c ∈ o.toList, c < 256 := by
  constructor
  · intro h
    constructor
    · rintro o rfl
      have h1 := h.of_writes (writes_double o) []
      have h2 := @readVariant_double O remoting runtime o []
      rw [h1] at h2
      cases h2
    · rintro o rfl
      have h1 := h.of_writes (writes_string_variant o) []
      rw [reads_string_variant] at h1
      exact (narrowed_eq_iff o).mp (Value.string.inj (Except.ok.inj (Prod.mk.inj h1).1))
  · rintro ⟨hd, hs⟩
    have plain : v.ReadsBack → RoundTrips runtime writeIUnknown remoting v := by
      intro h s s' hw
      rw [h.writes s] at hw
      cases hw
      exact ⟨valueBytes runtime v, rfl, h.reads⟩
    cases v with
    | int o => exact plain trivial
    | long o => exact plain trivial
    | boolean o => exact plain trivial
    | string o => exact plain (hs o rfl)
    | null => exact plain trivial
    | unit => exact plain trivial
    | double o => exact absurd rfl (hd o)
    | idispatch o => exact absurd rfl (hv o)
    | iUnknown o => exact RoundTrips.of_fails (e := .matchError) fun _ => rfl
    | variantArray o => exact RoundTrips.of_fails (e := .matchError) fun _ => rfl
    | other => exact RoundTrips.of_fails (e := .matchError) fun _ => rfl

/-- A runtime for examples: it knows the text of the `Double` 0.0 only. -/
def sampleRuntime : Runtime DummyObject where
  doubleToString _ := ⟨[48, 46, 48], by decide⟩
  simpleName _ := ⟨[80, 114, 111, 120, 121], by decide⟩
  nextInt n := BitVec.ofNat 32 (7 * n + 3)

/-- `"ab"` makes its way. -/
theorem roundTrips_ab :
    RoundTrips sampleRuntime (fun _ => throw (.unsupportedOperation "")) .Dummy
      (.string ⟨[97, 98], by decide⟩) := by
  have no_idispatch : ∀ s o, (.string s : Value DummyObject) ≠ .idispatch o := by
    intro s o h
    cases h
  refine (roundTrips_iff _ _ _ _ (no_idispatch _)).mpr ⟨?_, ?_⟩
  · intro o h
    cases h
  · intro o h
    cases h
    exact narrow_of_all (by decide)

/-- The euro sign becomes another character, and 0.0 cannot be read. -/
theorem not_roundTrips_euro :
    ¬ RoundTrips sampleRuntime (fun _ => throw (.unsupportedOperation "")) .Dummy
        (.string ⟨[0x20AC], by decide⟩)
      ∧ ¬ RoundTrips sampleRuntime (fun _ => throw (.unsupportedOperation "")) .Dummy
        (.double 0) := by
  constructor
  · intro h
    have h1 := h.of_writes (writes_string_variant _) []
    rw [reads_string_variant] at h1
    have h2 := Value.string.inj (Except.ok.inj (Prod.mk.inj h1).1)
    have h3 := (narrowed_eq_iff _).mp h2 0x20AC (List.mem_cons_self ..)
    exact absurd h3 (by decide)
  · intro h
    have h1 := h.of_writes (writes_double 0) []
    have h2 := @readVariant_double DummyObject .Dummy sampleRuntime 0 []
    rw [h1] at h2
    cases h2

end Minicom
