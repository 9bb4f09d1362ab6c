import Mathlib.Algebra.Ring.Int.Defs
import Mathlib.Algebra.Ring.Nat
import Mathlib.Data.List.Basic
import SchedulerEngine.HttpHeadersProofs

/-! # The parser of HTTP requests

    `http::Parser` gathers the text of a request.  When it has found an empty line
    it parses the header from the beginning of the text, and then waits for the
    body. -/

namespace HttpParser

open Http

inductive Failure where
  | expecting (what : Text)
  | noHexDigit (digits : Text)
  | noNumber (text : Text)
  | overflow (type : String)
  | outOfFuel
  | tooMuchData
deriving DecidableEq, Repr

/-! ## Numbers -/

/-- `_body_start + _content_length` and the like: an `int`. -/
def toInt (n : Int) : Int := n.bmod (2 ^ 32)

/-- An `int` in a comparison with a `size_t`. -/
def toSizeT (n : Int) : Nat := (n % 2 ^ 64).toNat

/-- `int_cast`. -/
def intCast (n : Nat) : Except Failure Int :=
  if 2 ^ 31 ≤ n then .error (.overflow "int") else .ok n

def isDigit (c : UInt8) : Bool := 48 ≤ c && c ≤ 57

/-- `isxdigit`. -/
def isHexDigit (c : UInt8) : Bool := isDigit c || 65 ≤ c && c ≤ 70 || 97 ≤ c && c ≤ 102

/-- `hex_to_digit`. -/
def hexToDigit (c : UInt8) : UInt8 :=
  if isDigit c then c - 48 else if c ≤ 90 then c - 55 else c - 87

/-- `hex_as_int32` of two digits. -/
def hexAsInt32 (h1 h2 : UInt8) : Except Failure UInt8 :=
  if isHexDigit h1 && isHexDigit h2 then .ok (hexToDigit h1 * 16 + hexToDigit h2)
  else .error (.noHexDigit [h1, h2])

/-- The digits `as_uint64` reads: a digit is what is below the base, after `'A'` also
    the letter behind the last. -/
def readDigits (base : Nat) (digit : UInt8 → Option Nat) :
    Text → Nat → Except Failure (Nat × Text)
  | [], n => .ok (n, [])
  | c :: rest, n =>
      match digit c with
      | none => .ok (n, c :: rest)
      | some d =>
          if n * base + d < 2 ^ 64 then readDigits base digit rest (n * base + d)
          else .error (.overflow "uint64")

def decimalDigit (c : UInt8) : Option Nat := if isDigit c then some (c.toNat - 48) else none

def hexadecimalDigit (c : UInt8) : Option Nat :=
  if isDigit c then some (c.toNat - 48)
  else if 65 ≤ c && c ≤ 71 then some (c.toNat - 55)
  else if 97 ≤ c && c ≤ 103 then some (c.toNat - 87)
  else none

/-- `as_uint64`. -/
def asUint64 (text : Text) : Except Failure Nat := do
  let (n, rest) ←
    if text.take 2 = ascii "0x" then readDigits 16 hexadecimalDigit (text.drop 2) 0
    else if (text.head?.map isDigit).getD false then readDigits 10 decimalDigit text 0
    else .error (.noNumber text)
  if rest.dropWhile (· = 32) = [] then return n
  throw (.noNumber text)

/-- `as_uint`. -/
def asUint (text : Text) : Except Failure Nat := do
  let n ← asUint64 text
  if n < 2 ^ 32 then return n
  throw (.overflow "unsigned int")

/-! ## The header -/

/-- The header's fields and the body, as they are in the request. -/
structure Request where
  httpMethod : Text
  path : Text
  protocol : Text
  parameters : List (Text × Text)
  headers : Headers
  body : Text
deriving DecidableEq, Repr

def Request.empty : Request := ⟨[], [], [], [], [], []⟩

/-- `*_next_char`: the text ends with 0. -/
def nextChar (input : Text) : UInt8 := input.head?.getD 0

/-- `*_next_char > ' '` and `*_next_char >= ' '`, where a `char` has a sign. -/
def isWordChar (c : UInt8) : Bool := 32 < c && c < 128

def isTextChar (c : UInt8) : Bool := 32 ≤ c && c < 128

def isSpace (c : UInt8) : Bool := c = 32 || 9 ≤ c && c ≤ 13

def rtrim (text : Text) : Text := (text.reverse.dropWhile isSpace).reverse

def eatSpaces (input : Text) : Text := input.dropWhile (· = 32)

def eat (what input : Text) : Except Failure Text :=
  if what <+: input then .ok (eatSpaces (input.drop what.length)) else .error (.expecting what)

def eatLineEnd (input : Text) : Except Failure Text :=
  let input := eatSpaces input
  let input := if nextChar input = 13 then input.tail else input
  eat [10] input

def eatWord (input : Text) : Text × Text :=
  (input.takeWhile isWordChar, eatSpaces (input.dropWhile isWordChar))

def eatUntil (characterSet input : Text) : Text × Text :=
  let goesOn := fun c => isTextChar c && !characterSet.contains c
  (rtrim (input.takeWhile goesOn), eatSpaces (input.dropWhile goesOn))

structure PathState where
  inParameter : Bool
  word : Text
  path : Text
  parameterName : Text
  parameters : List (Text × Text)
deriving DecidableEq, Repr

/-- `_parameters[ name ] = value`. -/
def setParameter (parameters : List (Text × Text)) (name value : Text) : List (Text × Text) :=
  (name, value) :: parameters.filter fun entry => entry.1 != name

/-- The end of the path or of a parameter. -/
def PathState.close (st : PathState) : PathState :=
  if st.inParameter then
    { st with parameters := setParameter st.parameters st.parameterName st.word }
  else { st with path := st.word, inParameter := true }

/-- The loop of `eat_path`; some characters are skipped behind a `%`. -/
def eatPathLoop : Text → Nat → PathState → Except Failure (PathState × Text)
  | [], _, st => .ok (st.close, [])
  | _ :: rest, skip + 1, st => eatPathLoop rest skip st
  | c :: rest, 0, st =>
      if !st.inParameter && c = 63 then
        eatPathLoop rest 0 { st with path := st.word ++ [c], word := [], inParameter := true }
      else if c ≤ 32 then .ok (st.close, c :: rest)
      else if st.inParameter && c = 38 then
        eatPathLoop rest 0 { st.close with word := [], parameterName := [] }
      else if c = 61 && st.inParameter then
        eatPathLoop rest 0 { st with parameterName := st.word, word := [] }
      else if c = 37 && nextChar rest ≠ 0 && nextChar rest.tail ≠ 0 then do
        let byte ← hexAsInt32 (nextChar rest) (nextChar rest.tail)
        eatPathLoop rest 2 { st with word := st.word ++ [byte] }
      else eatPathLoop rest 0 { st with word := st.word ++ [c] }

/-- `eat_path`: the path with the parameters, and the rest. -/
def eatPath (input : Text) : Except Failure (Text × List (Text × Text) × Text) := do
  let (st, rest) ← eatPathLoop (eatSpaces input) 0 ⟨false, [], [], [], []⟩
  let path := if st.path.head? = some 47 then st.path else 47 :: st.path
  return (path, st.parameters, eatSpaces rest)

/-- The loop of `parse_header` over the header lines.  Every line has a colon, so
    the length of the input is fuel enough. -/
def eatHeaderLines : Nat → Text → Headers → Except Failure (Headers × Text)
  | 0, input, headers => if isWordChar (nextChar input) then .error .outOfFuel else .ok (headers, input)
  | fuel + 1, input, headers =>
      if isWordChar (nextChar input) then do
        let (name, input) := eatUntil [58] input
        let input ← eat [58] input
        let (value, input) := eatUntil [] input
        let input ← eatLineEnd input
        eatHeaderLines fuel input (headers.set name value)
      else .ok (headers, input)

/-- `parse_header`. -/
def parseHeader (text : Text) : Except Failure Request := do
  let (httpMethod, input) := eatWord text
  let (path, parameters, input) ← eatPath input
  let (protocol, input) := eatWord input
  let input ← eatLineEnd input
  let (headers, input) ← eatHeaderLines input.length input []
  let _ ← eatLineEnd input
  return ⟨httpMethod, path, protocol, parameters, headers, []⟩

/-! ## The parser -/

structure Parser where
  text : Text
  readingBody : Bool
  bodyStart : Int
  contentLength : Int
  request : Request
deriving DecidableEq, Repr

def Parser.start : Parser := ⟨[], false, 0, 0, .empty⟩

/-- `_text.find`. -/
def find (pattern : Text) : Text → Option Nat
  | [] => if pattern = [] then some 0 else none
  | c :: text => if pattern <+: c :: text then some 0 else (find pattern text).map (· + 1)

/-- The header has been read. -/
def Parser.begin (p : Parser) (headerEnd endSize : Nat) : Except Failure Parser := do
  let bodyStart := toInt ((← intCast headerEnd) + endSize)
  let request ← parseHeader p.text
  let value := request.headers.get (ascii "content-length")
  let contentLength ← if value = [] then pure 0 else (asUint value).map Nat.cast
  return { p with
    bodyStart := bodyStart
    readingBody := true
    contentLength := toInt contentLength
    request := request }

/-- `add_text`, the search for the empty line. -/
def Parser.findHeader (p : Parser) : Except Failure Parser :=
  if p.readingBody then .ok p
  else
    match find [10, 13, 10] p.text with
    | some headerEnd => p.begin headerEnd 3
    | none =>
        match find [10, 10] p.text with
        | some headerEnd => p.begin headerEnd 2
        | none => .ok p

def Parser.bodyEnd (p : Parser) : Nat := toSizeT (toInt (p.bodyStart + p.contentLength))

/-- `add_text`, the body. -/
def Parser.takeBody (p : Parser) : Except Failure Parser :=
  if p.readingBody && p.bodyEnd ≤ p.text.length then
    let rest := p.text.length - p.bodyEnd
    if 0 < rest ∧ ¬(rest = 2 ∧ crlf <:+ p.text) then .error .tooMuchData
    else
      .ok { p with request := { p.request with
        body := (p.text.drop p.bodyStart.toNat).take p.contentLength.toNat } }
  else .ok p

def Parser.addText (p : Parser) (text : Text) : Except Failure Parser := do
  (← Parser.findHeader { p with text := p.text ++ text }).takeBody

def Parser.isComplete (p : Parser) : Bool :=
  p.readingBody && (p.text.length = p.bodyEnd ||
    p.text.length = toSizeT (toInt (toInt (p.bodyStart + p.contentLength) + 2)))

/-! ## Requests -/

def lineEnd (onlyLf : Bool) : Text := if onlyLf then [10] else [13, 10]

/-- A character of a word. -/
def Visible (c : UInt8) : Prop := 33 ≤ c ∧ c ≤ 126

instance (c : UInt8) : Decidable (Visible c) := inferInstanceAs (Decidable (_ ∧ _))

/-- Every `%` is followed by two hex digits. -/
inductive Escaped : Text → Prop where
  | nil : Escaped []
  | plain {c : UInt8} {rest : Text} : c ≠ 37 → Escaped rest → Escaped (c :: rest)
  | percent {h1 h2 : UInt8} {rest : Text} : isHexDigit h1 = true → isHexDigit h2 = true →
      Escaped rest → Escaped (37 :: h1 :: h2 :: rest)

/-- A header line: its name, which has no colon, and its value. -/
structure HeaderLine where
  name : Text
  value : Text
deriving DecidableEq, Repr

structure HeaderLine.Printable (line : HeaderLine) : Prop where
  begins : ∃ c rest, line.name = c :: rest ∧ Visible c
  name : ∀ c ∈ line.name, 32 ≤ c ∧ c ≤ 126 ∧ c ≠ 58
  value : ∀ c ∈ line.value, 32 ≤ c ∧ c ≤ 126

def HeaderLine.text (onlyLf : Bool) (line : HeaderLine) : Text :=
  line.name ++ 58 :: line.value ++ lineEnd onlyLf

/-- The request line, the header lines and the empty line. -/
structure Header where
  httpMethod : Text
  target : Text
  protocol : Text
  lines : List HeaderLine
  onlyLf : Bool
  method_ok : httpMethod ≠ [] ∧ ∀ c ∈ httpMethod, Visible c
  target_ok : target ≠ [] ∧ (∀ c ∈ target, Visible c) ∧ Escaped target
  protocol_ok : protocol ≠ [] ∧ ∀ c ∈ protocol, Visible c
  lines_ok : ∀ line ∈ lines, line.Printable

def Header.requestLine (h : Header) : Text :=
  h.httpMethod ++ 32 :: h.target ++ 32 :: h.protocol ++ lineEnd h.onlyLf

def Header.text (h : Header) : Text :=
  h.requestLine ++ h.lines.flatMap (HeaderLine.text h.onlyLf) ++ lineEnd h.onlyLf

/-- What the header says. -/
def Header.fields (h : Header) : Request :=
  match parseHeader h.text with
  | .ok request => request
  | .error _ => .empty

/-- A header with a body of as many bytes as it says, and perhaps a CRLF behind it. -/
structure Message extends Header where
  body : Text
  extra : Bool
  body_fits : body.length < 2 ^ 31
  contentLength_ok :
    toHeader.fields.headers.get (ascii "content-length") = [] ∧ body = [] ∨
      toHeader.fields.headers.get (ascii "content-length") ≠ [] ∧
        asUint (toHeader.fields.headers.get (ascii "content-length")) = .ok body.length

def Message.extraText (m : Message) : Text := if m.extra then crlf else []

/-- What is sent. -/
def Message.bytes (m : Message) : Text := m.toHeader.text ++ (m.body ++ m.extraText)

/-! ## The header is parsed whatever follows -/

theorem eatSpaces_cons {c : UInt8} {rest : Text} (h : c ≠ 32) :
    eatSpaces (c :: rest) = c :: rest :=
  List.dropWhile_cons_of_neg (by simpa using h)

theorem eatSpaces_space (rest : Text) : eatSpaces (32 :: rest) = eatSpaces rest :=
  List.dropWhile_cons_of_pos (by simp)

theorem eatSpaces_append (text : Text) {rest : Text} (h : eatSpaces rest = rest) :
    eatSpaces (text ++ rest) = eatSpaces text ++ rest := by
  induction text with
  | nil => exact h
  | cons c text ih =>
      by_cases hc : c = 32
      · rw [hc, List.cons_append, eatSpaces_space, eatSpaces_space, ih]
      · rw [List.cons_append, eatSpaces_cons hc, eatSpaces_cons hc, List.cons_append]

theorem lineEnd_cases (onlyLf : Bool) :
    ∃ c rest, lineEnd onlyLf = c :: rest ∧ c < 32 := by
  cases onlyLf with
  | true => exact ⟨10, [], rfl, by decide⟩
  | false => exact ⟨13, [10], rfl, by decide⟩

theorem eatSpaces_lineEnd (onlyLf : Bool) (rest : Text) :
    eatSpaces (lineEnd onlyLf ++ rest) = lineEnd onlyLf ++ rest := by
  cases onlyLf <;> exact eatSpaces_cons (by decide)

theorem eatLineEnd_lineEnd (onlyLf : Bool) (rest : Text) :
    eatLineEnd (lineEnd onlyLf ++ rest) = .ok (eatSpaces rest) := by
  rw [eatLineEnd, eatSpaces_lineEnd]
  cases onlyLf <;> rfl

theorem takeWhile_stop {p : UInt8 → Bool} {word : Text} {c : UInt8} (rest : Text)
    (hword : ∀ c ∈ word, p c = true) (hc : p c = false) :
    (word ++ c :: rest).takeWhile p = word ∧ (word ++ c :: rest).dropWhile p = c :: rest := by
  constructor
  · rw [List.takeWhile_append_of_pos hword, List.takeWhile_cons_of_neg (by rw [hc]; exact nofun),
      List.append_nil]
  · rw [List.dropWhile_append_of_pos hword, List.dropWhile_cons_of_neg (by rw [hc]; exact nofun)]

theorem isWordChar_of_visible {c : UInt8} (h : Visible c) : isWordChar c = true := by
  obtain ⟨h1, h2⟩ := h
  rw [UInt8.le_iff_toNat_le] at h1 h2
  simp only [isWordChar, Bool.and_eq_true, decide_eq_true_eq, UInt8.lt_iff_toNat_lt]
  exact ⟨h1, Nat.lt_of_le_of_lt h2 (by decide)⟩

theorem visible_ne_space {c : UInt8} (h : Visible c) : c ≠ 32 := by
  rintro rfl
  exact absurd h.1 (by decide)

/-- A word does not begin with a space. -/
theorem eatSpaces_word {word more : Text} (hne : word ≠ []) (hword : ∀ c ∈ word, Visible c) :
    eatSpaces (word ++ more) = word ++ more := by
  cases word with
  | nil => exact absurd rfl hne
  | cons c word => exact eatSpaces_cons (visible_ne_space (hword c List.mem_cons_self))

theorem eatWord_space {word rest : Text} (hword : ∀ c ∈ word, Visible c) :
    eatWord (word ++ 32 :: rest) = (word, eatSpaces rest) := by
  obtain ⟨htake, hdrop⟩ := takeWhile_stop rest
    (fun c hc => isWordChar_of_visible (hword c hc)) (show isWordChar 32 = false from rfl)
  rw [eatWord, htake, hdrop, eatSpaces_space]

theorem eatWord_lineEnd {word : Text} (hword : ∀ c ∈ word, Visible c) (onlyLf : Bool)
    (rest : Text) :
    eatWord (word ++ (lineEnd onlyLf ++ rest)) = (word, lineEnd onlyLf ++ rest) := by
  obtain ⟨c, more, heq, hc⟩ := lineEnd_cases onlyLf
  have hnot : isWordChar c = false := by
    simp only [isWordChar, Bool.and_eq_false_iff, decide_eq_false_iff_not]
    exact .inl (UInt8.not_lt.mpr (UInt8.le_of_lt hc))
  obtain ⟨htake, hdrop⟩ := takeWhile_stop (more ++ rest)
    (fun c hc => isWordChar_of_visible (hword c hc)) hnot
  rw [eatWord, heq, List.cons_append, htake, hdrop, eatSpaces_cons]
  rintro rfl
  exact absurd hc (by decide)

theorem hexAsInt32_ok {h1 h2 : UInt8} (hh1 : isHexDigit h1 = true) (hh2 : isHexDigit h2 = true) :
    ∃ byte, hexAsInt32 h1 h2 = .ok byte := by
  rw [hexAsInt32, hh1, hh2]
  exact ⟨_, rfl⟩

theorem isHexDigit_ne_zero {c : UInt8} (h : isHexDigit c = true) : c ≠ 0 := by
  rintro rfl
  exact absurd h (by decide)

/-- The path ends at the space. -/
theorem eatPathLoop_space {target : Text} (hescaped : Escaped target)
    (hvisible : ∀ c ∈ target, Visible c) :
    ∀ st, ∃ st', ∀ rest, eatPathLoop (target ++ 32 :: rest) 0 st = .ok (st', 32 :: rest) := by
  induction hescaped with
  | nil =>
      intro st
      refine ⟨st.close, fun rest => ?_⟩
      rw [List.nil_append, eatPathLoop, if_neg (by simp), if_pos (by decide)]
  | @plain c text hc _ ih =>
      intro st
      have ih := ih fun d hd => hvisible d (List.mem_cons_of_mem c hd)
      have habove : ¬c ≤ 32 := by
        have hge := (hvisible c List.mem_cons_self).1
        rw [UInt8.le_iff_toNat_le] at hge ⊢
        exact Nat.not_le_of_gt hge
      have hstep : ∃ st', ∀ rest, eatPathLoop (c :: (text ++ 32 :: rest)) 0 st
          = eatPathLoop (text ++ 32 :: rest) 0 st' := by
        simp only [eatPathLoop, if_neg habove]
        split
        · exact ⟨_, fun _ => rfl⟩
        · split
          · exact ⟨_, fun _ => rfl⟩
          · split
            · exact ⟨_, fun _ => rfl⟩
            · refine ⟨_, fun _ => if_neg ?_⟩
              simp only [Bool.and_eq_true, decide_eq_true_eq, not_and]
              intro hpercent
              exact absurd hpercent.1 hc
      obtain ⟨st₁, hst₁⟩ := hstep
      obtain ⟨st₂, hst₂⟩ := ih st₁
      exact ⟨st₂, fun rest => (hst₁ rest).trans (hst₂ rest)⟩
  | @percent h1 h2 text hh1 hh2 _ ih =>
      intro st
      have ih := ih fun d hd => hvisible d
        (List.mem_cons_of_mem _ (List.mem_cons_of_mem _ (List.mem_cons_of_mem _ hd)))
      obtain ⟨byte, hbyte⟩ := hexAsInt32_ok hh1 hh2
      obtain ⟨st₁, hst₁⟩ := ih { st with word := st.word ++ [byte] }
      refine ⟨st₁, fun rest => ?_⟩
      have hone := isHexDigit_ne_zero hh1
      have htwo := isHexDigit_ne_zero hh2
      show eatPathLoop (37 :: h1 :: h2 :: (text ++ 32 :: rest)) 0 st = _
      rw [eatPathLoop, if_neg (by simp), if_neg (by decide), if_neg (by simp), if_neg (by simp),
        if_pos (by simp [nextChar, hone, htwo])]
      show (do
        let byte ← hexAsInt32 h1 h2
        eatPathLoop (h1 :: h2 :: (text ++ 32 :: rest)) 2 { st with word := st.word ++ [byte] }) = _
      rw [hbyte]
      exact hst₁ rest

theorem eatPath_space {target : Text} (hne : target ≠ []) (hescaped : Escaped target)
    (hvisible : ∀ c ∈ target, Visible c) :
    ∃ path parameters, ∀ rest, eatPath (target ++ 32 :: rest)
      = .ok (path, parameters, eatSpaces rest) := by
  obtain ⟨st, hst⟩ := eatPathLoop_space hescaped hvisible ⟨false, [], [], [], []⟩
  refine ⟨if st.path.head? = some 47 then st.path else 47 :: st.path, st.parameters, fun rest => ?_⟩
  rw [eatPath, eatSpaces_word hne hvisible, hst rest]
  show Except.ok (_, _, eatSpaces (32 :: rest)) = _
  rw [eatSpaces_space]

theorem isTextChar_of_le {c : UInt8} (h1 : 32 ≤ c) (h2 : c ≤ 126) : isTextChar c = true := by
  rw [UInt8.le_iff_toNat_le] at h2
  simp only [isTextChar, Bool.and_eq_true, decide_eq_true_eq, UInt8.lt_iff_toNat_lt]
  exact ⟨h1, Nat.lt_of_le_of_lt h2 (by decide)⟩

/-- One header line. -/
theorem eatHeaderLines_line {line : HeaderLine} (hline : line.Printable) (onlyLf : Bool)
    (headers : Headers) :
    ∃ headers', ∀ fuel rest, eatHeaderLines (fuel + 1) (line.text onlyLf ++ rest) headers
      = eatHeaderLines fuel (eatSpaces rest) headers' := by
  obtain ⟨first, more, hname, hfirst⟩ := hline.begins
  -- the value without its leading spaces
  have hvalue : ∀ c ∈ eatSpaces line.value, (isTextChar c && !([] : Text).contains c) = true := by
    intro c hc
    have hmem := (List.dropWhile_sublist _).subset hc
    rw [isTextChar_of_le (hline.value c hmem).1 (hline.value c hmem).2]
    rfl
  have hnameChars : ∀ c ∈ line.name, (isTextChar c && !([58] : Text).contains c) = true := by
    intro c hc
    obtain ⟨h1, h2, h3⟩ := hline.name c hc
    rw [isTextChar_of_le h1 h2]
    simp [h3]
  refine ⟨headers.set (rtrim line.name) (rtrim (eatSpaces line.value)), fun fuel rest => ?_⟩
  obtain ⟨c, ending, hend, hc⟩ := lineEnd_cases onlyLf
  have hstop : (isTextChar c && !([] : Text).contains c) = false := by
    simp only [isTextChar, Bool.and_eq_false_iff, decide_eq_false_iff_not]
    exact .inl (.inl (UInt8.not_le.mpr hc))
  have htext : line.text onlyLf ++ rest
      = line.name ++ 58 :: (line.value ++ (lineEnd onlyLf ++ rest)) := by
    simp only [HeaderLine.text, List.append_assoc, List.cons_append]
  have hword : isWordChar (nextChar (line.text onlyLf ++ rest)) = true := by
    rw [htext, hname]
    exact isWordChar_of_visible hfirst
  have hspaces : eatSpaces (line.value ++ (lineEnd onlyLf ++ rest))
      = eatSpaces line.value ++ (lineEnd onlyLf ++ rest) :=
    eatSpaces_append _ (eatSpaces_lineEnd onlyLf rest)
  have huntilName : eatUntil [58] (line.text onlyLf ++ rest)
      = (rtrim line.name, 58 :: (line.value ++ (lineEnd onlyLf ++ rest))) := by
    obtain ⟨htake, hdrop⟩ := takeWhile_stop (line.value ++ (lineEnd onlyLf ++ rest))
      hnameChars (show (isTextChar 58 && !([58] : Text).contains 58) = false by decide)
    rw [htext, eatUntil, htake, hdrop, eatSpaces_cons (by decide)]
  have heat : eat [58] (58 :: (line.value ++ (lineEnd onlyLf ++ rest)))
      = .ok (eatSpaces line.value ++ (lineEnd onlyLf ++ rest)) := by
    rw [eat, if_pos ⟨_, rfl⟩]
    exact congrArg _ hspaces
  have huntilValue : eatUntil [] (eatSpaces line.value ++ (lineEnd onlyLf ++ rest))
      = (rtrim (eatSpaces line.value), lineEnd onlyLf ++ rest) := by
    obtain ⟨htake, hdrop⟩ := takeWhile_stop (ending ++ rest) hvalue hstop
    rw [hend, List.cons_append, eatUntil, htake, hdrop, eatSpaces_cons]
    rintro rfl
    exact absurd hc (by decide)
  rw [eatHeaderLines, if_pos hword, huntilName]
  show (do
    let input ← eat [58] (58 :: (line.value ++ (lineEnd onlyLf ++ rest)))
    let (value, input) := eatUntil [] input
    let input ← eatLineEnd input
    eatHeaderLines fuel input (headers.set (rtrim line.name) value)) = _
  rw [heat]
  show (do
    let (value, input) := eatUntil [] (eatSpaces line.value ++ (lineEnd onlyLf ++ rest))
    let input ← eatLineEnd input
    eatHeaderLines fuel input (headers.set (rtrim line.name) value)) = _
  rw [huntilValue]
  show (do
    let input ← eatLineEnd (lineEnd onlyLf ++ rest)
    eatHeaderLines fuel input (headers.set (rtrim line.name) (rtrim (eatSpaces line.value)))) = _
  rw [eatLineEnd_lineEnd]
  rfl

/-- No header line begins with a space. -/
theorem eatSpaces_lines {lines : List HeaderLine} (hlines : ∀ line ∈ lines, line.Printable)
    (onlyLf : Bool) (rest : Text) :
    eatSpaces (lines.flatMap (HeaderLine.text onlyLf) ++ (lineEnd onlyLf ++ rest))
      = lines.flatMap (HeaderLine.text onlyLf) ++ (lineEnd onlyLf ++ rest) := by
  cases lines with
  | nil => exact eatSpaces_lineEnd onlyLf rest
  | cons line lines =>
      obtain ⟨c, name, hname, hc⟩ := (hlines line List.mem_cons_self).begins
      simp only [List.flatMap_cons, HeaderLine.text, hname, List.cons_append]
      exact eatSpaces_cons (visible_ne_space hc)

/-- All header lines. -/
theorem eatHeaderLines_lines {lines : List HeaderLine} (hlines : ∀ line ∈ lines, line.Printable)
    (onlyLf : Bool) :
    ∀ headers, ∃ headers', ∀ fuel rest, lines.length ≤ fuel →
      eatHeaderLines fuel (lines.flatMap (HeaderLine.text onlyLf) ++ (lineEnd onlyLf ++ rest)) headers
        = .ok (headers', lineEnd onlyLf ++ rest) := by
  induction lines with
  | nil =>
      intro headers
      refine ⟨headers, fun fuel rest _ => ?_⟩
      have hnot : ¬isWordChar (nextChar (lineEnd onlyLf ++ rest)) = true := by
        cases onlyLf with
        | true => exact show ¬isWordChar 10 = true by decide
        | false => exact show ¬isWordChar 13 = true by decide
      cases fuel with
      | zero => exact if_neg hnot
      | succ fuel => exact if_neg hnot
  | cons line lines ih =>
      intro headers
      obtain ⟨headers₁, hone⟩ :=
        eatHeaderLines_line (hlines line List.mem_cons_self) onlyLf headers
      have hlines := fun line hline => hlines line (List.mem_cons_of_mem _ hline)
      obtain ⟨headers₂, hall⟩ := ih hlines headers₁
      refine ⟨headers₂, fun fuel rest hfuel => ?_⟩
      obtain ⟨fuel, rfl⟩ : ∃ n, fuel = n + 1 := ⟨fuel - 1, by
        rw [List.length_cons] at hfuel
        omega⟩
      rw [List.flatMap_cons, List.append_assoc, hone, eatSpaces_lines hlines]
      exact hall fuel rest (Nat.le_of_succ_le_succ hfuel)

theorem length_le_flatMap (lines : List HeaderLine) (onlyLf : Bool) :
    lines.length ≤ (lines.flatMap (HeaderLine.text onlyLf)).length := by
  induction lines with
  | nil => exact Nat.le_refl 0
  | cons line lines ih =>
      have hpos : 0 < (line.text onlyLf).length := by
        simp only [HeaderLine.text, List.length_append, List.length_cons]
        omega
      rw [List.flatMap_cons, List.length_append, List.length_cons]
      omega

/-- The header is parsed to its fields, whatever follows it. -/
theorem parseHeader_append (h : Header) (rest : Text) :
    parseHeader (h.text ++ rest) = .ok h.fields := by
  obtain ⟨path, parameters, hpath⟩ := eatPath_space h.target_ok.1 h.target_ok.2.2 h.target_ok.2.1
  obtain ⟨headers, hheaders⟩ := eatHeaderLines_lines h.lines_ok h.onlyLf []
  have hall : ∀ rest, parseHeader (h.text ++ rest)
      = .ok ⟨h.httpMethod, path, h.protocol, parameters, headers, []⟩ := by
    intro rest
    have htext : h.text ++ rest = h.httpMethod ++ 32 :: (h.target ++ 32 :: (h.protocol
        ++ (lineEnd h.onlyLf ++ (h.lines.flatMap (HeaderLine.text h.onlyLf)
          ++ (lineEnd h.onlyLf ++ rest))))) := by
      simp only [Header.text, Header.requestLine, List.append_assoc, List.cons_append]
    have hfuel : h.lines.length ≤ (h.lines.flatMap (HeaderLine.text h.onlyLf)
        ++ (lineEnd h.onlyLf ++ rest)).length := by
      rw [List.length_append]
      exact Nat.le_add_right_of_le (length_le_flatMap _ _)
    rw [parseHeader, htext, eatWord_space h.method_ok.2,
      eatSpaces_word h.target_ok.1 h.target_ok.2.1]
    dsimp only
    rw [hpath, eatSpaces_word h.protocol_ok.1 h.protocol_ok.2]
    show (do
      let (protocol, input) := eatWord _
      let input ← eatLineEnd input
      let (headers, input) ← eatHeaderLines input.length input []
      let _ ← eatLineEnd input
      return (⟨h.httpMethod, path, protocol, parameters, headers, []⟩ : Request)) = _
    rw [eatWord_lineEnd h.protocol_ok.2]
    dsimp only
    rw [eatLineEnd_lineEnd, eatSpaces_lines h.lines_ok]
    show (do
      let (headers, input) ← eatHeaderLines _ _ []
      let _ ← eatLineEnd input
      return (⟨h.httpMethod, path, h.protocol, parameters, headers, []⟩ : Request)) = _
    rw [hheaders _ rest hfuel]
    show (do
      let _ ← eatLineEnd (lineEnd h.onlyLf ++ rest)
      return (⟨h.httpMethod, path, h.protocol, parameters, headers, []⟩ : Request)) = _
    rw [eatLineEnd_lineEnd]
    rfl
  have hempty := hall []
  rw [List.append_nil] at hempty
  rw [hall rest, Header.fields, hempty]

end HttpParser
