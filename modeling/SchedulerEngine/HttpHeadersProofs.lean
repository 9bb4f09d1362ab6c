import Mathlib.Data.List.Basic

/-! # Texts and headers of HTTP

    What the response and the request have in common: bytes, and a map from the
    names in small letters to the headers. -/

namespace Http

/-- A `string` of bytes. -/
abbrev Text := List UInt8

def ascii (s : String) : Text := s.toList.map fun c => UInt8.ofNat c.toNat

/-- What holds of all characters of a text can be tried. -/
theorem forall_mem_of_all {P : UInt8 → Prop} [DecidablePred P] {text : Text}
    (h : (text.all fun c => decide (P c)) = true) : ∀ c ∈ text, P c :=
  fun c hc => of_decide_eq_true (List.all_eq_true.mp h c hc)

def crlf : Text := [13, 10]

def lcase (text : Text) : Text :=
  text.map fun c => if 65 ≤ c ∧ c ≤ 90 then c + 32 else c

/-- `Headers`: the entries under their names in small letters, in the order of the map. -/
abbrev Headers := List (Text × Text × Text)

def Headers.contains (headers : Headers) (name : Text) : Bool :=
  headers.any fun entry => entry.1 == lcase name

def Headers.get (headers : Headers) (name : Text) : Text :=
  match headers.find? fun entry => entry.1 == lcase name with
  | none => []
  | some entry => entry.2.2

/-- `set_unchecked`, and `set` where the name is not empty and the value is one line. -/
def Headers.set (headers : Headers) (name value : Text) : Headers :=
  let others := headers.filter fun entry => entry.1 != lcase name
  if value = [] then others else (lcase name, name, value) :: others

def Headers.setDefault (headers : Headers) (name value : Text) : Headers :=
  if value = [] then headers
  else if headers.contains name then headers else headers.set name value

def Headers.print (headers : Headers) : Text :=
  headers.flatMap fun entry => entry.2.1 ++ ascii ": " ++ entry.2.2 ++ crlf

end Http
