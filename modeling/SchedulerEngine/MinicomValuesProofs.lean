import Mathlib.Data.List.Basic
import SchedulerEngine.WireProofs

/-! # COM remoting: values and their bytes

    What the calls and results carry, and the serializer and deserializer of the
    simple types.  Integers are in big endian order; a string is its length and one
    byte for each character. -/

namespace Minicom

open Execution Wire

/-! ## Values -/

/-- A Scala sequence: its size is an `Int`. -/
structure Seq (α : Type) where
  toList : List α
  size_lt : toList.length < 2147483648
deriving DecidableEq

namespace Seq

variable {α : Type}

def size (s : Seq α) : BitVec 32 := BitVec.ofNat 32 s.toList.length

theorem toNat_size (s : Seq α) : s.size.toNat = s.toList.length := by
  have := s.size_lt
  rw [size, BitVec.toNat_ofNat]
  omega

theorem toInt_size (s : Seq α) : s.size.toInt = s.toList.length := by
  have h1 := s.size_lt
  have h2 := s.toNat_size
  rw [BitVec.toInt_eq_toNat_of_lt (by omega), h2]

/-- What stands in as many places as an `Int` says. -/
def ofVector {n : BitVec 32} (v : List.Vector α n.toInt.toNat) : Seq α :=
  ⟨v.toList, by
    have h1 := n.toInt_lt
    have h2 := v.toList_length
    omega⟩

theorem toList_inj {s t : Seq α} (h : s.toList = t.toList) : s = t := by
  cases s
  cases t
  cases h
  rfl

end Seq

/-- A string: its UTF-16 code units. -/
abbrev JString := Seq UInt16

structure UUID where
  mostSignificantBits : BitVec 64
  leastSignificantBits : BitVec 64
deriving DecidableEq

structure ProxyId where
  value : BitVec 64
deriving DecidableEq

def ProxyId.Null : ProxyId := ⟨0⟩

structure DISPID where
  value : BitVec 32
deriving DecidableEq

structure IID where
  uuid : UUID
deriving DecidableEq

structure CLSID where
  uuid : UUID
deriving DecidableEq

def CLSID.Null : CLSID := ⟨⟨0, 0⟩⟩

/-- What stands as `Any` for a value; `O` are the objects, which are compared by
    reference. -/
inductive Value (O : Type) where
  | int (o : BitVec 32)
  | long (o : BitVec 64)
  /-- a `Double` by its bits -/
  | double (o : BitVec 64)
  | boolean (o : Bool)
  | string (o : JString)
  /-- a `sos.spooler.Idispatch`; `none` if it has no invoker -/
  | idispatch (iDispatch : Option O)
  | null
  | unit
  /-- an object itself -/
  | iUnknown (o : O)
  | variantArray (indexedSeq : List (Value O))
  /-- a value of any other class, as a `Byte` -/
  | other

/-- What ends a serialization or deserialization early. -/
inductive Failure where
  | matchError
  | unsupportedOperation (what : String)
  | nullPointer
  | duplicateKey (proxyId : ProxyId)
  | bufferUnderflow
  | negativeArraySize
  | stackOverflow
  | requirement (text : String)
  | badFeatures (features : BitVec 16)
  | unsupportedArrayVariant (vt : BitVec 32)
  | unsupportedVariant (vt : BitVec 32)
  | invalidDispatchType (bits : BitVec 32)
  | moreBytesThanExpected (n : Nat)
deriving DecidableEq

/-- What the serializers use of the Java runtime. -/
structure Runtime (O : Type) where
  /-- `Double.toString` -/
  doubleToString : BitVec 64 → JString
  /-- `getClass.getSimpleName` -/
  simpleName : O → JString
  /-- what `Random.nextInt()` returns, call after call -/
  nextInt : Nat → BitVec 32

/-! ## The bytes of the simple types -/

def charToIso88591Byte (c : UInt16) : UInt8 := c.toUInt8

def iso88591ByteToChar (b : UInt8) : UInt16 := b.toUInt16

def int32Bytes (o : BitVec 32) : List UInt8 := digits 4 o.toNat

def int64Bytes (o : BitVec 64) : List UInt8 := digits 8 o.toNat

def booleanBytes (o : Bool) : List UInt8 := [if o then 1 else 0]

def stringBytes (o : JString) : List UInt8 :=
  int32Bytes o.size ++ o.toList.map charToIso88591Byte

def uuidBytes (o : UUID) : List UInt8 :=
  int64Bytes o.mostSignificantBits ++ int64Bytes o.leastSignificantBits

/-! ## `BaseDeserializer` -/

/-- The state is what remains of the buffer. -/
abbrev Deserializer := Exec (List UInt8) Failure

def readByte : Deserializer UInt8 := do
  let b ← take .bufferUnderflow 1
  pure (b.headD 0)

def readInt16 : Deserializer (BitVec 16) := do
  let b ← take .bufferUnderflow 2
  pure (BitVec.ofNat 16 (number b))

def readInt32 : Deserializer (BitVec 32) := do
  let b ← take .bufferUnderflow 4
  pure (BitVec.ofNat 32 (number b))

def readInt64 : Deserializer (BitVec 64) := do
  let b ← take .bufferUnderflow 8
  pure (BitVec.ofNat 64 (number b))

def readBoolean : Deserializer Bool := do
  let b ← readByte
  pure (b != 0)

def readString : Deserializer JString := do
  let length ← readInt32
  Exec.require (0 ≤ length.toInt) .negativeArraySize
  let b ← fill length.toInt.toNat readByte
  pure (.ofVector (b.map iso88591ByteToChar))

def readUUID : Deserializer UUID := do
  let high ← readInt64
  let low ← readInt64
  pure ⟨high, low⟩

def requireEndOfMessage : Deserializer Unit := do
  let rest ← get
  match rest.length with
  | 0 => pure ()
  | n => throw (.moreBytesThanExpected n)

/-! ## What the readers take -/

theorem Shrinks.readByte : Shrinks readByte :=
  (Shrinks.take _ _).bind fun _ => Shrinks.pure _

theorem Shrinks.readInt16 : Shrinks readInt16 :=
  (Shrinks.take _ _).bind fun _ => Shrinks.pure _

theorem Shrinks.readInt32 : Shrinks readInt32 :=
  (Shrinks.take _ _).bind fun _ => Shrinks.pure _

theorem Shrinks.readInt64 : Shrinks readInt64 :=
  (Shrinks.take _ _).bind fun _ => Shrinks.pure _

theorem Shrinks.readBoolean : Shrinks readBoolean :=
  Shrinks.readByte.bind fun _ => Shrinks.pure _

theorem Shrinks.readString : Shrinks readString :=
  Shrinks.readInt32.bind fun _ => (Shrinks.require _ _).bind fun _ =>
    (Shrinks.readByte.fill _).bind fun _ => Shrinks.pure _

theorem Shrinks.readUUID : Shrinks readUUID :=
  Shrinks.readInt64.bind fun _ => Shrinks.readInt64.bind fun _ => Shrinks.pure _

theorem Consumes.readInt32 : Consumes 4 readInt32 :=
  (Consumes.take _ _).bind fun _ => Shrinks.pure _

/-! ## Reading back -/

/-- A number of `w` bits that fills `n` bytes is read back. -/
theorem reads_bitVec {w n : Nat} (h : 2 ^ w = 256 ^ n) (o : BitVec w) :
    Reads (do
      let b ← take .bufferUnderflow n
      pure (BitVec.ofNat w (number b)) : Deserializer (BitVec w)) (digits n o.toNat) o := by
  have h1 : number (digits n o.toNat) = o.toNat := number_digits (h ▸ o.isLt)
  have h2 := reads_take Failure.bufferUnderflow (digits n o.toNat)
  rw [length_digits] at h2
  refine h2.ret ?_
  rw [h1, BitVec.ofNat_toNat, BitVec.setWidth_eq]
  exact Reads.pure o

theorem reads_int32 (o : BitVec 32) : Reads readInt32 (int32Bytes o) o :=
  reads_bitVec (by decide) o

theorem reads_int64 (o : BitVec 64) : Reads readInt64 (int64Bytes o) o :=
  reads_bitVec (by decide) o

theorem reads_byte (b : UInt8) : Reads readByte [b] b :=
  (reads_take Failure.bufferUnderflow [b]).ret (Reads.pure b)

theorem reads_boolean (o : Bool) : Reads readBoolean (booleanBytes o) o := by
  refine (reads_byte (if o then 1 else 0)).ret ?_
  cases o <;> exact Reads.pure _

theorem reads_uuid (o : UUID) : Reads readUUID (uuidBytes o) o :=
  (reads_int64 o.mostSignificantBits).bind
    ((reads_int64 o.leastSignificantBits).ret (Reads.pure o))

/-- What is left of a string whose characters have become one byte each. -/
def JString.narrowed (o : JString) : JString :=
  ⟨o.toList.map fun c => iso88591ByteToChar (charToIso88591Byte c), by
    rw [List.length_map]
    exact o.size_lt⟩

theorem narrowed_eq_iff (o : JString) : o.narrowed = o ↔ ∀ c ∈ o.toList, c < 256 := by
  have char_iff : ∀ c : UInt16, iso88591ByteToChar (charToIso88591Byte c) = c ↔ c < 256 := by
    intro c
    rw [iso88591ByteToChar, charToIso88591Byte, UInt16.lt_iff_toNat_lt, ← UInt16.toNat_inj]
    show c.toNat % 256 = c.toNat ↔ c.toNat < 256
    omega
  constructor
  · intro h c hc
    have h1 : o.toList.map (fun c => iso88591ByteToChar (charToIso88591Byte c))
        = o.toList.map id := (congrArg Seq.toList h).trans (List.map_id _).symm
    exact (char_iff c).mp (List.map_inj_left.mp h1 c hc)
  · intro h
    apply Seq.toList_inj
    show o.toList.map (fun c => iso88591ByteToChar (charToIso88591Byte c)) = o.toList
    have h1 := List.map_congr_left (g := id) fun c hc => (char_iff c).mpr (h c hc)
    exact h1.trans (List.map_id _)

/-- The condition by evaluation. -/
theorem narrow_of_all {o : JString} (h : o.toList.all (fun c => c < 256) = true) :
    ∀ c ∈ o.toList, c < 256 :=
  fun c hc => of_decide_eq_true (List.all_eq_true.mp h c hc)

/-- A string is read back as far as its characters fit in a byte. -/
theorem reads_string (o : JString) : Reads readString (stringBytes o) o.narrowed := by
  have h1 : o.size.toInt.toNat = (o.toList.map charToIso88591Byte).length := by
    rw [o.toInt_size, List.length_map]
    rfl
  have h2 : Reads (fill o.size.toInt.toNat readByte) (o.toList.map charToIso88591Byte)
      ⟨o.toList.map charToIso88591Byte, h1.symm⟩ := by
    have h := Reads.fill (v := ⟨o.toList.map charToIso88591Byte, h1.symm⟩)
      fun b _ => reads_byte b
    rwa [List.Vector.toList_mk, List.flatMap_singleton'] at h
  refine (reads_int32 o.size).bind ?_
  refine (Reads.require (by rw [o.toInt_size]; simp)).bind ?_
  refine h2.ret ?_
  have h3 : Seq.ofVector (n := o.size) (List.Vector.map iso88591ByteToChar
      ⟨o.toList.map charToIso88591Byte, h1.symm⟩) = o.narrowed := by
    apply Seq.toList_inj
    show (o.toList.map charToIso88591Byte).map iso88591ByteToChar = _
    rw [List.map_map]
    rfl
  rw [h3]
  exact Reads.pure _

end Minicom
