import Mathlib.Data.List.Basic

/-! # Base64, in which the content of a file is sent

    `base64_encoded` makes four characters of three bytes; `base64_decoded` takes them
    back, with a last group that may be shorter. -/

namespace Base64

abbrev Bytes := List UInt8

/-! ## The tables -/

/-- `six2pr`: `A` to `Z`, `a` to `z`, `0` to `9`, `+` and `/`. -/
def six2pr (i : UInt8) : UInt8 :=
  if i < 26 then 65 + i
  else if i < 52 then 71 + i
  else if i < 62 then i - 4
  else if i = 62 then 43
  else 47

/-- `pr2six`: 199 is `=`, and 222 what does not belong to the text. -/
def pr2six (c : UInt8) : UInt8 :=
  if 65 ≤ c ∧ c ≤ 90 then c - 65
  else if 97 ≤ c ∧ c ≤ 122 then c - 71
  else if 48 ≤ c ∧ c ≤ 57 then c + 4
  else if c = 43 then 62
  else if c = 47 then 63
  else if c = 61 then 199
  else 222

/-- `=` -/
def fill : UInt8 := 61

/-! ## The codes -/

/-- The characters of three bytes. -/
def encodeGroup (p0 p1 p2 : UInt8) : UInt8 × UInt8 × UInt8 × UInt8 :=
  (six2pr (p0 >>> 2),
   six2pr (((p0 &&& 0x03) <<< 4) ||| ((p1 &&& 0xF0) >>> 4)),
   six2pr (((p1 &&& 0x0F) <<< 2) ||| ((p2 &&& 0xC0) >>> 6)),
   six2pr (p2 &&& 0x3F))

/-- `base64_encoded` -/
def base64Encoded : Bytes → Bytes
  | p0 :: p1 :: p2 :: rest =>
      let (a, b, c, d) := encodeGroup p0 p1 p2
      a :: b :: c :: d :: base64Encoded rest
  | [p0, p1] =>
      let (a, b, c, _) := encodeGroup p0 p1 0
      [a, b, c, fill]
  | [p0] =>
      let (a, b, _, _) := encodeGroup p0 0 0
      [a, b, fill, fill]
  | [] => []

/-- `Z-BASE64-001`, with the position, or with the length if that is wrong. -/
structure Invalid where
  position : Nat
  deriving DecidableEq

def high (x : UInt8) : Bool := x &&& 0x80 ≠ 0

/-- The bytes of four characters, before the last group. -/
def decodeGroup (a b c d : UInt8) : Bytes :=
  [a <<< 2 ||| b >>> 4, b <<< 4 ||| c >>> 2, c <<< 6 ||| d]

/-- The bytes of the last group. -/
def decodeLast (a b c d : UInt8) : Bytes :=
  (if b < 64 then [a <<< 2 ||| b >>> 4] else [])
    ++ (if c < 64 then [b <<< 4 ||| c >>> 2] else [])
    ++ (if d < 64 then [c <<< 6 ||| d] else [])

/-- The loop of `base64_decoded` from the position `n` on, and the last group. -/
def decodeFrom (n : Nat) : Bytes → Except Invalid Bytes
  | [p0, p1, p2, p3] =>
      let a := pr2six p0
      let b := pr2six p1
      let c := pr2six p2
      let d := pr2six p3
      if high a ∨ (high b ∧ b ≠ 199) ∨ (high c ∧ c ≠ 199) ∨ (high d ∧ d ≠ 199) then
        .error ⟨n⟩
      else .ok (decodeLast a b c d)
  | p0 :: p1 :: p2 :: p3 :: rest =>
      let a := pr2six p0
      let b := pr2six p1
      let c := pr2six p2
      let d := pr2six p3
      if high (a ||| b ||| c ||| d) then .error ⟨n⟩
      else (decodeFrom (n + 4) rest).map fun bytes => decodeGroup a b c d ++ bytes
  | _ => .error ⟨n⟩

/-- `base64_decoded` -/
def base64Decoded (text : Bytes) : Except Invalid Bytes :=
  if text.length = 0 then .ok []
  else if text.length % 4 ≠ 0 then .error ⟨text.length⟩
  else decodeFrom 0 text

/-! ## One group -/

/-- What holds of every byte, by looking at each of them. -/
theorem forall_byte {P : UInt8 → Prop} [DecidablePred P]
    (h : ∀ n < 256, P (UInt8.ofNat n)) (x : UInt8) : P x := by
  have hx := h x.toNat x.toNat_lt
  rwa [UInt8.ofNat_toNat] at hx

theorem pr2six_six2pr_and_high (i : UInt8) :
    i < 64 → pr2six (six2pr i) = i ∧ high i = false := by
  revert i
  exact forall_byte (by decide +kernel)

theorem pr2six_six2pr {i : UInt8} (h : i < 64) : pr2six (six2pr i) = i :=
  (pr2six_six2pr_and_high i h).1

theorem high_of_lt {i : UInt8} (h : i < 64) : high i = false :=
  (pr2six_six2pr_and_high i h).2

theorem or_lt {x y : UInt8} (hx : x < 64) (hy : y < 64) : x ||| y < 64 := by
  rw [UInt8.lt_iff_toNat_lt] at hx hy ⊢
  rw [UInt8.toNat_or]
  exact Nat.or_lt_two_pow (n := 6) hx hy

variable (p q : UInt8)

/-- The six bits of the first character, from the first byte. -/
def sextet0 : UInt8 := p >>> 2

def sextet1 : UInt8 := ((p &&& 0x03) <<< 4) ||| ((q &&& 0xF0) >>> 4)

def sextet2 : UInt8 := ((p &&& 0x0F) <<< 2) ||| ((q &&& 0xC0) >>> 6)

def sextet3 : UInt8 := p &&& 0x3F

/-- The parts of a byte that stand in the four characters have six bits each; put back to
    their places they are the byte, and what the shifts push out is gone. -/
theorem parts_of_byte :
    (sextet0 p < 64 ∧ (p &&& 0x03) <<< 4 < 64 ∧ (p &&& 0xF0) >>> 4 < 64 ∧
      (p &&& 0x0F) <<< 2 < 64 ∧ (p &&& 0xC0) >>> 6 < 64 ∧ sextet3 p < 64) ∧
    (p &&& 0xF0) >>> 4 >>> 4 = 0 ∧ (p &&& 0x03) <<< 4 <<< 4 = 0 ∧ (p &&& 0xC0) >>> 6 >>> 2 = 0 ∧
    (p &&& 0x0F) <<< 2 <<< 6 = 0 ∧
    sextet0 p <<< 2 ||| ((p &&& 0x03) <<< 4 >>> 4 ||| 0) = p ∧
    (0 : UInt8) ||| (p &&& 0xF0) >>> 4 <<< 4 ||| ((p &&& 0x0F) <<< 2 >>> 2 ||| 0) = p ∧
    (0 : UInt8) ||| (p &&& 0xC0) >>> 6 <<< 6 ||| sextet3 p = p := by
  revert p
  exact forall_byte (by decide +kernel)

theorem sextet0_lt : sextet0 p < 64 := (parts_of_byte p).1.1

theorem sextet1_lt : sextet1 p q < 64 :=
  or_lt (parts_of_byte p).1.2.1 (parts_of_byte q).1.2.2.1

theorem sextet2_lt : sextet2 p q < 64 :=
  or_lt (parts_of_byte p).1.2.2.2.1 (parts_of_byte q).1.2.2.2.2.1

theorem sextet3_lt : sextet3 p < 64 := (parts_of_byte p).1.2.2.2.2.2

/-- The first byte stands in the first two characters. -/
theorem byte0 : sextet0 p <<< 2 ||| sextet1 p q >>> 4 = p := by
  obtain ⟨-, hq, -⟩ := parts_of_byte q
  obtain ⟨-, -, -, -, -, hp, -⟩ := parts_of_byte p
  rw [sextet1, UInt8.shiftRight_or, hq]
  exact hp

theorem byte1 (r : UInt8) : sextet1 p q <<< 4 ||| sextet2 q r >>> 2 = q := by
  obtain ⟨-, -, hp, -⟩ := parts_of_byte p
  obtain ⟨-, -, -, hr, -⟩ := parts_of_byte r
  obtain ⟨-, -, -, -, -, -, hq, -⟩ := parts_of_byte q
  rw [sextet1, sextet2, UInt8.shiftLeft_or, UInt8.shiftRight_or, hp, hr]
  exact hq

theorem byte2 : sextet2 p q <<< 6 ||| sextet3 q = q := by
  obtain ⟨-, -, -, -, hp, -⟩ := parts_of_byte p
  obtain ⟨-, -, -, -, -, -, -, hq⟩ := parts_of_byte q
  rw [sextet2, UInt8.shiftLeft_or, hp]
  exact hq

variable {p q} {r : UInt8}

theorem decodeGroup_sextets :
    decodeGroup (sextet0 p) (sextet1 p q) (sextet2 q r) (sextet3 r) = [p, q, r] := by
  rw [decodeGroup, byte0, byte1, byte2]

/-! ## The text of a content -/

theorem encoded_cons (bytes : Bytes) : base64Encoded (p :: q :: r :: bytes)
    = six2pr (sextet0 p) :: six2pr (sextet1 p q) :: six2pr (sextet2 q r) :: six2pr (sextet3 r)
      :: base64Encoded bytes := rfl

theorem encoded_two : base64Encoded [p, q]
    = [six2pr (sextet0 p), six2pr (sextet1 p q), six2pr (sextet2 q 0), fill] := rfl

theorem encoded_one : base64Encoded [p]
    = [six2pr (sextet0 p), six2pr (sextet1 p 0), fill, fill] := rfl

/-- Four characters for three bytes or less. -/
theorem length_encoded (bytes : Bytes) :
    (base64Encoded bytes).length = (bytes.length + 2) / 3 * 4 := by
  induction bytes using base64Encoded.induct with
  | case1 p q r rest a b c d _ ih =>
      rw [encoded_cons]
      simp only [List.length_cons, ih]
      omega
  | case2 p q =>
      rw [encoded_two]
      simp only [List.length_cons, List.length_nil]
  | case3 p =>
      rw [encoded_one]
      simp only [List.length_cons, List.length_nil]
  | case4 => rfl

/-- A group that is not the last one. -/
theorem decodeFrom_group {n : Nat} {text : Bytes} (htext : text ≠ []) :
    decodeFrom n (six2pr (sextet0 p) :: six2pr (sextet1 p q) :: six2pr (sextet2 q r)
        :: six2pr (sextet3 r) :: text)
      = (decodeFrom (n + 4) text).map fun bytes => p :: q :: r :: bytes := by
  have hhigh : high (sextet0 p ||| sextet1 p q ||| sextet2 q r ||| sextet3 r) = false :=
    high_of_lt (or_lt (or_lt (or_lt (sextet0_lt p) (sextet1_lt p q)) (sextet2_lt q r))
      (sextet3_lt r))
  obtain ⟨c, text, rfl⟩ := List.exists_cons_of_ne_nil htext
  rw [decodeFrom]
  · simp only [pr2six_six2pr (sextet0_lt p), pr2six_six2pr (sextet1_lt p q),
      pr2six_six2pr (sextet2_lt q r), pr2six_six2pr (sextet3_lt r), hhigh, decodeGroup_sextets]
    rfl
  · intro h
    cases h

theorem decodeFrom_full {n : Nat} :
    decodeFrom n [six2pr (sextet0 p), six2pr (sextet1 p q), six2pr (sextet2 q r),
      six2pr (sextet3 r)] = .ok [p, q, r] := by
  rw [decodeFrom]
  simp only [pr2six_six2pr (sextet0_lt p), pr2six_six2pr (sextet1_lt p q),
    pr2six_six2pr (sextet2_lt q r), pr2six_six2pr (sextet3_lt r), high_of_lt (sextet0_lt p),
    high_of_lt (sextet1_lt p q), high_of_lt (sextet2_lt q r), high_of_lt (sextet3_lt r)]
  simp [decodeLast, sextet1_lt, sextet2_lt, sextet3_lt, byte0, byte1, byte2]

theorem decodeFrom_two {n : Nat} :
    decodeFrom n [six2pr (sextet0 p), six2pr (sextet1 p q), six2pr (sextet2 q 0), fill]
      = .ok [p, q] := by
  have hfill : pr2six fill = 199 := by decide
  rw [decodeFrom]
  simp only [pr2six_six2pr (sextet0_lt p), pr2six_six2pr (sextet1_lt p q),
    pr2six_six2pr (sextet2_lt q 0), hfill, high_of_lt (sextet0_lt p), high_of_lt (sextet1_lt p q),
    high_of_lt (sextet2_lt q 0)]
  simp [decodeLast, sextet1_lt, sextet2_lt, byte0, byte1]

theorem decodeFrom_one {n : Nat} :
    decodeFrom n [six2pr (sextet0 p), six2pr (sextet1 p 0), fill, fill] = .ok [p] := by
  have hfill : pr2six fill = 199 := by decide
  rw [decodeFrom]
  simp only [pr2six_six2pr (sextet0_lt p), pr2six_six2pr (sextet1_lt p 0), hfill,
    high_of_lt (sextet0_lt p), high_of_lt (sextet1_lt p 0)]
  simp [decodeLast, sextet1_lt, byte0]

theorem encoded_ne_nil {bytes : Bytes} (h : bytes ≠ []) : base64Encoded bytes ≠ [] := by
  intro hnil
  have hlen := length_encoded bytes
  have hpos := List.length_pos_of_ne_nil h
  rw [hnil, List.length_nil] at hlen
  omega

/-- The loop takes a text back, whatever its position. -/
theorem decodeFrom_encoded (bytes : Bytes) (h : bytes ≠ []) (n : Nat) :
    decodeFrom n (base64Encoded bytes) = .ok bytes := by
  induction bytes using base64Encoded.induct generalizing n with
  | case1 p q r rest a b c d _ ih =>
      rw [encoded_cons]
      cases rest with
      | nil => exact decodeFrom_full
      | cons x rest =>
          have hne : x :: rest ≠ [] := List.cons_ne_nil x rest
          rw [decodeFrom_group (encoded_ne_nil hne), ih hne]
          rfl
  | case2 => exact decodeFrom_two
  | case3 => exact decodeFrom_one
  | case4 => exact absurd rfl h

/-- Every content comes back from its text. -/
theorem base64Decoded_encoded (bytes : Bytes) :
    base64Decoded (base64Encoded bytes) = .ok bytes := by
  cases bytes with
  | nil => rfl
  | cons b bytes =>
      have hne : b :: bytes ≠ [] := List.cons_ne_nil b bytes
      have hlen := length_encoded (b :: bytes)
      have hmod : (base64Encoded (b :: bytes)).length % 4 = 0 := by omega
      rw [base64Decoded, if_neg fun h0 => encoded_ne_nil hne (List.length_eq_zero_iff.mp h0),
        if_neg fun h => h hmod]
      exact decodeFrom_encoded _ hne 0

/-! ## What stands in the text, and how much is taken from one -/

/-- A character of the table, or `=`: none that XML escapes. -/
def InAlphabet (c : UInt8) : Prop := pr2six c < 64 ∨ c = fill

theorem inAlphabet_six2pr {i : UInt8} (h : i < 64) : InAlphabet (six2pr i) := by
  rw [InAlphabet, pr2six_six2pr h]
  exact Or.inl h

theorem inAlphabet_encoded (bytes : Bytes) : ∀ c ∈ base64Encoded bytes, InAlphabet c := by
  induction bytes using base64Encoded.induct with
  | case1 p q r rest a b c d _ ih =>
      rw [encoded_cons]
      simp only [List.forall_mem_cons]
      exact ⟨inAlphabet_six2pr (sextet0_lt p), inAlphabet_six2pr (sextet1_lt p q),
        inAlphabet_six2pr (sextet2_lt q r), inAlphabet_six2pr (sextet3_lt r), ih⟩
  | case2 p q =>
      rw [encoded_two]
      simp only [List.forall_mem_cons]
      exact ⟨inAlphabet_six2pr (sextet0_lt p), inAlphabet_six2pr (sextet1_lt p q),
        inAlphabet_six2pr (sextet2_lt q 0), Or.inr rfl, List.forall_mem_nil _⟩
  | case3 p =>
      rw [encoded_one]
      simp only [List.forall_mem_cons]
      exact ⟨inAlphabet_six2pr (sextet0_lt p), inAlphabet_six2pr (sextet1_lt p 0), Or.inr rfl,
        Or.inr rfl, List.forall_mem_nil _⟩
  | case4 => exact List.forall_mem_nil _

theorem length_decodeLast (a b c d : UInt8) : (decodeLast a b c d).length ≤ 3 := by
  rw [decodeLast, List.length_append, List.length_append]
  split <;> split <;> split <;> simp

/-- The assertion behind the last group: as many bytes as the length of the text says, or up
    to three less. -/
theorem length_decodeFrom {text bytes : Bytes} {n : Nat} (h : decodeFrom n text = .ok bytes) :
    text.length * 6 / 8 ≤ bytes.length + 3 ∧ bytes.length ≤ text.length * 6 / 8 := by
  induction n, text using decodeFrom.induct generalizing bytes with
  | case1 n p0 p1 p2 p3 =>
      rename_i hbad
      rw [decodeFrom, if_pos hbad] at h
      cases h
  | case2 n p0 p1 p2 p3 =>
      rename_i hgood
      rw [decodeFrom, if_neg hgood] at h
      cases h
      have hlen := length_decodeLast (pr2six p0) (pr2six p1) (pr2six p2) (pr2six p3)
      simp only [List.length_cons, List.length_nil]
      omega
  | case3 n p0 p1 p2 p3 rest hrest =>
      rename_i hbad
      rw [decodeFrom.eq_2 _ _ _ _ _ _ hrest, if_pos hbad] at h
      cases h
  | case4 n p0 p1 p2 p3 rest hrest =>
      rename_i hgood ih
      rw [decodeFrom.eq_2 _ _ _ _ _ _ hrest, if_neg hgood] at h
      cases hr : decodeFrom (n + 4) rest with
      | error e =>
          rw [hr] at h
          cases h
      | ok more =>
          rw [hr] at h
          cases h
          obtain ⟨h1, h2⟩ := ih hr
          simp only [decodeGroup, List.length_append, List.length_cons, List.length_nil]
          omega
  | case5 text n hlast hmore =>
      rw [decodeFrom.eq_3 _ _ hlast hmore] at h
      cases h

/-- The content of every file comes back from the text that stands for it in an answer; the
    text has four characters for three bytes, and none that XML would have to escape. -/
theorem content_comesBack (bytes : Bytes) :
    base64Decoded (base64Encoded bytes) = .ok bytes
      ∧ (base64Encoded bytes).length = (bytes.length + 2) / 3 * 4
      ∧ ∀ c ∈ base64Encoded bytes, InAlphabet c :=
  ⟨base64Decoded_encoded bytes, length_encoded bytes, inAlphabet_encoded bytes⟩

example : base64Encoded [77, 97] = [84, 87, 69, 61] := by decide

end Base64
