import Mathlib.Algebra.Ring.Int.Defs
import Mathlib.Algebra.Ring.Nat
import SchedulerEngine.HttpHeadersProofs
import Mathlib.Data.List.Infix

/-! # The end of an XML command

    `Xml_end_finder` looks for the end of an XML document in what is received, chunk
    by chunk, without a parser: it counts the tags. -/

namespace XmlEnd

open Http

/-! ## The finder -/

/-- `Tok_entry`, for the beginning and the end of a section. -/
structure TokEntry where
  beginText : Text
  endText : Text
  index : Nat
  active : Bool
deriving DecidableEq, Repr

/-- `step_begin`; whether the section begins. -/
def TokEntry.stepBegin (c : UInt8) (tok : TokEntry) : Bool × TokEntry :=
  if tok.beginText[tok.index]? = some c then
    if tok.index + 1 = tok.beginText.length then (true, { tok with index := 0, active := true })
    else (false, { tok with index := tok.index + 1 })
  else (false, { tok with index := 0 })

/-- `step_end`. -/
def TokEntry.stepEnd (c : UInt8) (tok : TokEntry) : TokEntry :=
  if tok.endText[tok.index]? = some c then
    if tok.index + 1 = tok.endText.length then { tok with index := 0, active := false }
    else { tok with index := tok.index + 1 }
  else { tok with index := 0 }

/-- `Xml_end_finder`; the count of the open elements is an `int`. -/
structure XmlEndFinder where
  openElements : BitVec 32
  atStartTag : Bool
  inSpecialTag : Bool
  inTag : Bool
  inEndTag : Bool
  atBegin : Bool
  isXml : Bool
  xmlIsComplete : Bool
  lastChar : UInt8
  cdata : TokEntry
  comment : TokEntry
deriving DecidableEq, Repr

def cdataTok : TokEntry := ⟨ascii "<![CDATA[", ascii "]]>", 0, false⟩

def commentTok : TokEntry := ⟨ascii "<!--", ascii "-->", 0, false⟩

def XmlEndFinder.start : XmlEndFinder :=
  ⟨0, false, false, false, false, true, false, false, 0, cdataTok, commentTok⟩

/-- `isalpha`, in the C locale. -/
def isAlpha (c : UInt8) : Bool := (65 ≤ c && c ≤ 90) || (97 ≤ c && c ≤ 122)

/-- A character of a tag; whether the document is complete. -/
def XmlEndFinder.stepTag (c : UInt8) (f : XmlEndFinder) : Bool × XmlEndFinder :=
  if f.atStartTag then
    let f :=
      if c = 47 then { f with inEndTag := true }
      else if isAlpha c then f
      else { f with inSpecialTag := true }
    (false, { f with atStartTag := false })
  else if c = 62 then
    let f := { f with inTag := false }
    if f.inEndTag then
      let f := { f with inEndTag := false, openElements := f.openElements - 1 }
      if f.openElements = 0 then (true, { f with xmlIsComplete := true })
      else (false, { f with inSpecialTag := false })
    else if f.inSpecialTag then (false, { f with inSpecialTag := false })
    else if f.lastChar ≠ 47 then
      (false, { f with openElements := f.openElements + 1, inSpecialTag := false })
    else if f.openElements = 0 then (true, { f with xmlIsComplete := true })
    else (false, { f with inSpecialTag := false })
  else (false, f)

/-- A character outside of the tags. -/
def XmlEndFinder.stepText (c : UInt8) (f : XmlEndFinder) : Bool × XmlEndFinder :=
  let (inCdata, cdata) := f.cdata.stepBegin c
  let (inComment, comment) := f.comment.stepBegin c
  let f := { f with cdata := cdata, comment := comment }
  if f.isXml = false ∧ c = 10 then (true, { f with xmlIsComplete := true })
  else if inCdata || inComment then
    (false, { f with atStartTag := false, inTag := false, inSpecialTag := false })
  else if c = 60 then (false, { f with inTag := true, atStartTag := true })
  else (false, f)

def XmlEndFinder.step (c : UInt8) (f : XmlEndFinder) : Bool × XmlEndFinder :=
  if c = 0 then (false, f)
  else if f.cdata.active then (false, { f with cdata := f.cdata.stepEnd c })
  else if f.comment.active then (false, { f with comment := f.comment.stepEnd c })
  else if f.inTag then f.stepTag c
  else f.stepText c

/-- The loop of `is_complete`. -/
def XmlEndFinder.scan : Text → XmlEndFinder → XmlEndFinder
  | [], f => f
  | c :: text, f =>
      let (complete, f) := f.step c
      if complete then f else scan text { f with lastChar := c }

/-- What is seen of the first character. -/
def XmlEndFinder.atFirst (chunk : Text) (f : XmlEndFinder) : XmlEndFinder :=
  match chunk with
  | [] => f
  | c :: _ => if f.atBegin then { f with atBegin := false, isXml := c = 60 } else f

/-- `is_complete`. -/
def XmlEndFinder.isComplete (chunk : Text) (f : XmlEndFinder) : Bool × XmlEndFinder :=
  let f := (f.atFirst chunk).scan chunk
  (f.xmlIsComplete, f)

/-- `Xml_operation`, with the indentation of its connection. -/
structure XmlOperation where
  xmlEndFinder : XmlEndFinder
  requestIsComplete : Bool
  indentString : Text
  requestBytes : Text

def XmlOperation.start : XmlOperation := ⟨.start, false, [], []⟩

/-- `put_request_part`. -/
def XmlOperation.putRequestPart (op : XmlOperation) (data : Text) : XmlOperation :=
  let (complete, finder) := op.xmlEndFinder.isComplete data
  { op with
    xmlEndFinder := finder
    requestIsComplete := complete
    indentString :=
      if 2 ≤ data.length ∧ data[data.length - 2]? = some 13 then ascii "  " else op.indentString
    requestBytes := op.requestBytes ++ data }

/-! ## Documents -/

def isSpace (c : UInt8) : Prop := c = 32 ∨ c = 9 ∨ c = 10 ∨ c = 13

def isChar (c : UInt8) : Prop := 32 ≤ c ∨ c = 9 ∨ c = 10 ∨ c = 13

instance : DecidablePred isSpace := fun _ => inferInstanceAs (Decidable (_ ∨ _))

instance : DecidablePred isChar := fun _ => inferInstanceAs (Decidable (_ ∨ _))

def isNameStart (c : UInt8) : Prop := isAlpha c = true ∨ c = 95 ∨ c = 58 ∨ 128 ≤ c

def isNameChar (c : UInt8) : Prop := isNameStart c ∨ (48 ≤ c ∧ c ≤ 57) ∨ c = 45 ∨ c = 46

/-- The name of an element, of an attribute or of a processing instruction. -/
structure Name where
  first : UInt8
  others : Text
  first_ok : isNameStart first
  others_ok : ∀ c ∈ others, isNameChar c

def Name.text (name : Name) : Text := name.first :: name.others

/-- White space. -/
structure Space where
  text : Text
  ok : ∀ c ∈ text, isSpace c

structure Attribute where
  space : Space
  name : Name
  beforeEquals : Space
  afterEquals : Space
  quote : UInt8
  value : Text
  space_ne : space.text ≠ []
  quote_ok : quote = 34 ∨ quote = 39
  value_ok : ∀ c ∈ value, isChar c ∧ c ≠ 60 ∧ c ≠ quote

def Attribute.text (a : Attribute) : Text :=
  a.space.text ++ (a.name.text ++ (a.beforeEquals.text ++ (61 :: (a.afterEquals.text
    ++ (a.quote :: (a.value ++ [a.quote]))))))

/-- A piece of a document.  The XML declaration is written as a processing instruction. -/
inductive Markup where
  | text (chars : Text)
  | comment (content : Text)
  | pi (target : Name) (content : Text)
  | cdata (content : Text)
  | doctype (content : Text)
  | startTag (name : Name) (attributes : List Attribute) (space : Space)
  | emptyTag (name : Name) (attributes : List Attribute) (space : Space)
  | endTag (name : Name) (space : Space)

/-- What stands between the beginning and the end of a start tag or an empty tag. -/
def tagBody (name : Name) (attributes : List Attribute) (space : Space) : Text :=
  name.text ++ (attributes.flatMap Attribute.text ++ space.text)

def Markup.bytes : Markup → Text
  | .text chars => chars
  | .comment content => ascii "<!--" ++ (content ++ ascii "-->")
  | .pi target content => ascii "<?" ++ (target.text ++ (content ++ ascii "?>"))
  | .cdata content => ascii "<![CDATA[" ++ (content ++ ascii "]]>")
  | .doctype content => ascii "<!DOCTYPE" ++ (content ++ ascii ">")
  | .startTag name attributes space => 60 :: (tagBody name attributes space ++ [62])
  | .emptyTag name attributes space => 60 :: (tagBody name attributes space ++ [47, 62])
  | .endTag name space => 60 :: 47 :: (name.text ++ (space.text ++ [62]))

def Markup.WellFormed : Markup → Prop
  | .text chars => (∀ c ∈ chars, isChar c ∧ c ≠ 60) ∧ ¬ascii "]]>" <:+: chars
  | .comment content => (∀ c ∈ content, isChar c) ∧ ¬ascii "--" <:+: content ++ ascii "-"
  | .pi _ content =>
      (∀ c ∈ content, isChar c) ∧ ¬ascii "?>" <:+: content ∧ ∀ c ∈ content.head?, isSpace c
  | .cdata content => (∀ c ∈ content, isChar c) ∧ ¬ascii "]]>" <:+: content
  | .doctype content => (∀ c ∈ content, isChar c) ∧ ∃ c ∈ content.head?, isSpace c
  | _ => True

/-- It opens no element and closes none. -/
def Markup.IsOther : Markup → Prop
  | .startTag .. | .emptyTag .. | .endTag .. => False
  | _ => True

/-- What may stand outside of the document element. -/
def Markup.IsMisc : Markup → Prop
  | .text chars => ∀ c ∈ chars, isSpace c
  | .comment _ | .pi .. | .doctype _ => True
  | _ => False

/-- The document element from some place on, where elements with these names are open. -/
inductive Closes : List Text → List Markup → Prop where
  | whole (name : Name) (attributes : List Attribute) (space : Space) :
      Closes [] [.emptyTag name attributes space]
  | last (name : Name) (space : Space) : Closes [name.text] [.endTag name space]
  | startTag {names : List Text} {markups : List Markup} (name : Name)
      (attributes : List Attribute) (space : Space) :
      Closes (name.text :: names) markups →
      Closes names (.startTag name attributes space :: markups)
  | emptyTag {outer : Text} {names : List Text} {markups : List Markup} (name : Name)
      (attributes : List Attribute) (space : Space) :
      Closes (outer :: names) markups →
      Closes (outer :: names) (.emptyTag name attributes space :: markups)
  | endTag {outer : Text} {names : List Text} {markups : List Markup} (name : Name) (space : Space) :
      Closes (outer :: names) markups →
      Closes (name.text :: outer :: names) (.endTag name space :: markups)
  | other {outer : Text} {names : List Text} {markups : List Markup} {markup : Markup} :
      markup.IsOther → Closes (outer :: names) markups → Closes (outer :: names) (markup :: markups)

/-- A document that begins with `<`. -/
structure Document where
  prolog : List Markup
  element : List Markup
  epilog : List Markup
  wellFormed : ∀ markup ∈ prolog ++ element ++ epilog, markup.WellFormed
  misc : ∀ markup ∈ prolog ++ epilog, markup.IsMisc
  closes : Closes [] element
  begins : ((prolog ++ element).flatMap Markup.bytes).head? = some 60

/-- The bytes up to the end of the document element. -/
def Document.upToEnd (D : Document) : Text := (D.prolog ++ D.element).flatMap Markup.bytes

def Document.bytes (D : Document) : Text := D.upToEnd ++ D.epilog.flatMap Markup.bytes

/-- Whatever the chunks, the request is complete when the end of the document element
    has been received, and not before. -/
def Document.FindsEnd (D : Document) : Prop :=
  ∀ (chunks : List Text) (others : Text), (∀ chunk ∈ chunks, chunk ≠ []) →
    chunks.flatten ++ others = D.bytes →
    ((chunks.foldl XmlOperation.putRequestPart .start).requestIsComplete = true ↔
      D.upToEnd.length ≤ chunks.flatten.length)

/-! ## What is read as it is written -/

/-- Outside of a tag, behind its `<`, or farther in it. -/
inductive Place where
  | outside
  | atStart
  | inside
deriving DecidableEq, Repr

/-- Where a `<` begins a tag and the next `>` ends it, no tag begins with a letter or a
    slash, and the last one ends. -/
def neutral : Place → Text → Bool
  | .outside, [] => true
  | _, [] => false
  | .outside, c :: text => neutral (if c = 60 then .atStart else .outside) text
  | .atStart, c :: text => c != 47 && !isAlpha c && neutral .inside text
  | .inside, c :: text => neutral (if c = 62 then .outside else .inside) text

/-- What is left when of such a tag only the `<` is kept. -/
def skeleton : Place → Text → Text
  | _, [] => []
  | .outside, c :: text => c :: skeleton (if c = 60 then .atStart else .outside) text
  | .atStart, _ :: text => skeleton .inside text
  | .inside, c :: text => skeleton (if c = 62 then .outside else .inside) text

/-- The tag as far as its first `>`. -/
def upToFirst (body : Text) : Text := body.takeWhile (· ≠ 62)

/-- At that depth the markup counts for what it is, where its first `>` ends it. -/
def Markup.Read (depth : Nat) : Markup → Prop
  | .startTag name attributes space =>
      isAlpha name.first = true ∧ (upToFirst (tagBody name attributes space)).getLast? ≠ some 47 ∧
        depth + 1 < 2 ^ 31
  | .emptyTag name attributes space =>
      if depth = 0 then isAlpha name.first = true ∧ 62 ∉ tagBody name attributes space
      else isAlpha name.first = true →
        (upToFirst (tagBody name attributes space ++ [47])).getLast? = some 47
  | .endTag .. => True
  | markup => neutral .outside markup.bytes = true

/-- The depth behind the markup. -/
def Markup.depth (depth : Nat) : Markup → Nat
  | .startTag .. => depth + 1
  | .endTag .. => depth - 1
  | _ => depth

def ReadAll : Nat → List Markup → Prop
  | _, [] => True
  | depth, markup :: markups => markup.Read depth ∧ ReadAll (markup.depth depth) markups

/-- A section begins in the text. -/
def TokEntry.opens : Text → TokEntry → Bool
  | [], _ => false
  | c :: text, tok => (tok.stepBegin c).1 || opens text (tok.stepBegin c).2

/-- Every markup counts for what it is, and no text behind a tag looks like the rest of
    the beginning of a section. -/
structure Document.ReadAsWritten (D : Document) : Prop where
  markups : ReadAll 0 (D.prolog ++ D.element)
  cdata : cdataTok.opens ((D.prolog ++ D.element).flatMap fun m => skeleton .outside m.bytes) = false
  comment :
    commentTok.opens ((D.prolog ++ D.element).flatMap fun m => skeleton .outside m.bytes) = false

end XmlEnd
