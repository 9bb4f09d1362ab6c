import Mathlib.Data.List.Basic
import SchedulerEngine.HttpHeadersProofs

/-! # The tokens of HTML

    A tokenizer of HTML as a browser has it: tags with their attributes, comments and
    characters, and references in characters and in values.  Of the named and
    numbered references there are those of the five characters that have a meaning
    in HTML, with a semicolon; others stand for themselves. -/

namespace Html

open Http

structure Tag where
  close : Bool
  name : Text
  attributes : List (Text × Text)
deriving DecidableEq, Repr

inductive Token where
  | char (c : UInt8)
  | tag (tag : Tag)
  | comment
deriving DecidableEq, Repr

/-- Where the tokenizer is.  A reference that has begun is what follows its `&`. -/
inductive State where
  | data (reference : Option Text)
  | tagOpen (close : Bool)
  | tagName (tag : Tag)
  | beforeName (tag : Tag)
  | attributeName (tag : Tag) (name : Text)
  | afterName (tag : Tag) (name : Text)
  | beforeValue (tag : Tag) (name : Text)
  | value (tag : Tag) (name : Text) (quote : Option UInt8) (value : Text) (reference : Option Text)
  | afterValue (tag : Tag)
  | selfClosing (tag : Tag)
  | bogusComment
  | declaration (text : Text)

def isSpace (c : UInt8) : Bool := c = 32 || c = 9 || c = 10 || c = 12 || c = 13

def isLetter (c : UInt8) : Bool := 65 ≤ c && c ≤ 90 || 97 ≤ c && c ≤ 122

def isDigit (c : UInt8) : Bool := 48 ≤ c && c ≤ 57

def lower (c : UInt8) : UInt8 := if 65 ≤ c && c ≤ 90 then c + 32 else c

def named (reference : Text) : Option UInt8 :=
  if reference = ascii "amp" then some 38
  else if reference = ascii "lt" then some 60
  else if reference = ascii "gt" then some 62
  else if reference = ascii "quot" || reference = ascii "#x22" then some 34
  else if reference = ascii "apos" || reference = ascii "#x27" then some 39
  else none

def resolve (reference : Text) : Text :=
  match named reference with
  | some c => [c]
  | none => 38 :: reference ++ [59]

/-- Of two attributes with one name the first counts. -/
def Tag.add (tag : Tag) (name value : Text) : Tag :=
  if tag.attributes.any fun entry => entry.1 == name then tag
  else { tag with attributes := tag.attributes ++ [(name, value)] }

def stepData (c : UInt8) : List Token × State :=
  if c = 60 then ([], .tagOpen false)
  else if c = 38 then ([], .data (some []))
  else ([.char c], .data none)

def stepBeforeName (tag : Tag) (c : UInt8) : List Token × State :=
  if isSpace c then ([], .beforeName tag)
  else if c = 47 then ([], .selfClosing tag)
  else if c = 62 then ([.tag tag], .data none)
  else ([], .attributeName tag [lower c])

def stepAfterName (tag : Tag) (name : Text) (c : UInt8) : List Token × State :=
  if isSpace c then ([], .afterName tag name)
  else if c = 61 then ([], .beforeValue tag name)
  else stepBeforeName (tag.add name []) c

/-- In a value, which ends at its quote or, without one, at a space. -/
def stepValue (tag : Tag) (name : Text) (quote : Option UInt8) (value : Text) (c : UInt8) :
    List Token × State :=
  if quote = some c then ([], .afterValue (tag.add name value))
  else if quote = none && isSpace c then ([], .beforeName (tag.add name value))
  else if quote = none && c = 62 then ([.tag (tag.add name value)], .data none)
  else if c = 38 then ([], .value tag name quote value (some []))
  else ([], .value tag name quote (value ++ [c]) none)

def step : State → UInt8 → List Token × State
  | .data none, c => stepData c
  | .data (some reference), c =>
      if isLetter c || isDigit c || c = 35 then ([], .data (some (reference ++ [c])))
      else if c = 59 then ((resolve reference).map .char, .data none)
      else ((38 :: reference).map .char ++ (stepData c).1, (stepData c).2)
  | .tagOpen close, c =>
      if isLetter c then ([], .tagName ⟨close, [lower c], []⟩)
      else if close then ([], if c = 62 then .data none else .bogusComment)
      else if c = 47 then ([], .tagOpen true)
      else if c = 33 then ([], .declaration [])
      else if c = 63 then ([], .bogusComment)
      else (.char 60 :: (stepData c).1, (stepData c).2)
  | .tagName tag, c =>
      if isSpace c || c = 47 || c = 62 then stepBeforeName tag c
      else ([], .tagName { tag with name := tag.name ++ [lower c] })
  | .beforeName tag, c => stepBeforeName tag c
  | .attributeName tag name, c =>
      if isSpace c || c = 47 || c = 62 || c = 61 then stepAfterName tag name c
      else ([], .attributeName tag (name ++ [lower c]))
  | .afterName tag name, c => stepAfterName tag name c
  | .beforeValue tag name, c =>
      if isSpace c then ([], .beforeValue tag name)
      else if c = 34 || c = 39 then ([], .value tag name (some c) [] none)
      else stepValue tag name none [] c
  | .value tag name quote value none, c => stepValue tag name quote value c
  | .value tag name quote value (some reference), c =>
      if isLetter c || isDigit c || c = 35 then
        ([], .value tag name quote value (some (reference ++ [c])))
      else if c = 59 then ([], .value tag name quote (value ++ resolve reference) none)
      else stepValue tag name quote (value ++ 38 :: reference) c
  | .afterValue tag, c => stepBeforeName tag c
  | .selfClosing tag, c => if c = 62 then ([.tag tag], .data none) else stepBeforeName tag c
  | .bogusComment, c => if c = 62 then ([.comment], .data none) else ([], .bogusComment)
  | .declaration text, c =>
      -- a comment ends with two hyphens before the bracket
      if c = 62 && (!(ascii "--").isPrefixOf text || (ascii "--").isSuffixOf text) then
        ([.comment], .data none)
      else ([], .declaration (text ++ [c]))

/-- At the end of the text. -/
def State.rest : State → List Token
  | .data (some reference) => (38 :: reference).map .char
  | .tagOpen close => (if close then [60, 47] else [60]).map .char
  | _ => []

def run : State → Text → List Token
  | state, [] => state.rest
  | state, c :: text => (step state c).1 ++ run (step state c).2 text

def tokenize (text : Text) : List Token := run (.data none) text

/-- The text without the tags. -/
def plain (tokens : List Token) : Text :=
  tokens.flatMap fun
    | .char c => [c]
    | _ => []

/-! ## Values -/

/-- The text goes on in the value. -/
theorem run_value_char {tag : Tag} {name value text : Text} {quote c : UInt8} (hquote : c ≠ quote)
    (hc : c ≠ 38) :
    run (.value tag name (some quote) value none) (c :: text)
      = run (.value tag name (some quote) (value ++ [c]) none) text := by
  have hstep : step (.value tag name (some quote) value none) c
      = ([], .value tag name (some quote) (value ++ [c]) none) := by
    show stepValue tag name (some quote) value c = _
    rw [stepValue, if_neg fun heq => hquote (Option.some.inj heq).symm, if_neg (by simp),
      if_neg (by simp), if_neg hc]
  rw [run, hstep, List.nil_append]

theorem run_value_quote (tag : Tag) (name value text : Text) (quote : UInt8) :
    run (.value tag name (some quote) value none) (quote :: text)
      = run (.afterValue (tag.add name value)) text := by
  have hstep : step (.value tag name (some quote) value none) quote
      = ([], .afterValue (tag.add name value)) := if_pos rfl
  rw [run, hstep, List.nil_append]

/-! ## A tag that has begun -/

/-- The tag has these attributes already. -/
def State.Has (attributes : List (Text × Text)) : State → Prop
  | .beforeName tag | .attributeName tag _ | .afterName tag _ | .beforeValue tag _
  | .value tag _ _ _ _ | .afterValue tag | .selfClosing tag => attributes <+: tag.attributes
  | _ => False

/-- The step ends the tag, or the tag goes on; the attributes stay. -/
def Keeps (attributes : List (Text × Text)) (result : List Token × State) : Prop :=
  (result.1 = [] ∧ result.2.Has attributes) ∨
    ∃ tag, result.1 = [.tag tag] ∧ attributes <+: tag.attributes

variable {attributes : List (Text × Text)} {tag : Tag}

theorem Tag.prefix_add (h : attributes <+: tag.attributes) (name value : Text) :
    attributes <+: (tag.add name value).attributes := by
  rw [Tag.add]
  split
  · exact h
  · exact h.trans (List.prefix_append _ _)

theorem keeps_ite {p : Prop} [Decidable p] {result result' : List Token × State}
    (h : Keeps attributes result) (h' : Keeps attributes result') :
    Keeps attributes (if p then result else result') := by
  split
  · exact h
  · exact h'

theorem keeps_beforeName (h : attributes <+: tag.attributes) (c : UInt8) :
    Keeps attributes (stepBeforeName tag c) :=
  keeps_ite (.inl ⟨rfl, h⟩) (keeps_ite (.inl ⟨rfl, h⟩)
    (keeps_ite (.inr ⟨tag, rfl, h⟩) (.inl ⟨rfl, h⟩)))

theorem keeps_afterName (h : attributes <+: tag.attributes) (name : Text) (c : UInt8) :
    Keeps attributes (stepAfterName tag name c) :=
  keeps_ite (.inl ⟨rfl, h⟩) (keeps_ite (.inl ⟨rfl, h⟩) (keeps_beforeName (Tag.prefix_add h _ _) c))

theorem keeps_value (h : attributes <+: tag.attributes) (name : Text) (quote : Option UInt8)
    (value : Text) (c : UInt8) : Keeps attributes (stepValue tag name quote value c) := by
  have hadd := Tag.prefix_add h name value
  exact keeps_ite (.inl ⟨rfl, hadd⟩) (keeps_ite (.inl ⟨rfl, hadd⟩)
    (keeps_ite (.inr ⟨_, rfl, hadd⟩) (keeps_ite (.inl ⟨rfl, h⟩) (.inl ⟨rfl, h⟩))))

theorem keeps_step {state : State} (h : state.Has attributes) (c : UInt8) :
    Keeps attributes (step state c) := by
  cases state with
  | beforeName tag => exact keeps_beforeName h c
  | attributeName tag name => exact keeps_ite (keeps_afterName h name c) (.inl ⟨rfl, h⟩)
  | afterName tag name => exact keeps_afterName h name c
  | beforeValue tag name =>
      exact keeps_ite (.inl ⟨rfl, h⟩) (keeps_ite (.inl ⟨rfl, h⟩) (keeps_value h name none [] c))
  | value tag name quote value reference =>
      cases reference with
      | none => exact keeps_value h name quote value c
      | some reference =>
          exact keeps_ite (.inl ⟨rfl, h⟩) (keeps_ite (.inl ⟨rfl, h⟩)
            (keeps_value h name quote _ c))
  | afterValue tag => exact keeps_beforeName h c
  | selfClosing tag => exact keeps_ite (.inr ⟨tag, rfl, h⟩) (keeps_beforeName h c)
  | data _ => exact absurd h id
  | tagOpen _ => exact absurd h id
  | tagName _ => exact absurd h id
  | bogusComment => exact absurd h id
  | declaration _ => exact absurd h id

/-- The next token is the tag, if there is one. -/
theorem run_has {state : State} (h : state.Has attributes) (text : Text) :
    run state text = [] ∨
      ∃ tag tokens, run state text = .tag tag :: tokens ∧ attributes <+: tag.attributes := by
  induction text generalizing state with
  | nil =>
      left
      cases state with
      | data _ => exact absurd h id
      | tagOpen _ => exact absurd h id
      | _ => rfl
  | cons c text ih =>
      rw [run]
      rcases keeps_step h c with ⟨hnone, hhas⟩ | ⟨tag, htag, hpre⟩
      · rw [hnone]
        exact ih hhas
      · rw [htag]
        exact .inr ⟨tag, _, rfl, hpre⟩

end Html
