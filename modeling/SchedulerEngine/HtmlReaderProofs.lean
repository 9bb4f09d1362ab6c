import SchedulerEngine.HtmlLogProofs

/-! # The reader of the log in HTML

    `Html_chunk_reader` takes the text from another reader, cuts it into lines and
    delivers a prefix, blocks of encoded lines, and a suffix.  The reader of a log
    answers with an empty piece at the change to a new file, as it does at the end. -/

namespace HtmlReader

open Http Html HtmlLog

variable {ρ : Type}

/-! ## The readers -/

/-- A `Chunk_reader` with its state. -/
structure TextReader (ρ : Type) where
  htmlInsertion : ρ → Text × ρ
  nextChunkIsReady : ρ → Bool × ρ
  getNextChunkSize : ρ → Nat × ρ
  readFromChunk : ρ → Nat → Text × ρ

inductive ReadingState where
  | readingPrefix
  | readingText
  | readingSuffix
  | readingFinished
deriving DecidableEq, Repr

/-- `Html_chunk_reader`; of `_next_characters` it has what is behind `_next_offset`. -/
structure HtmlChunkReader (ρ : Type) where
  state : ReadingState
  chunk : Text
  chunkReader : ρ
  availableNetChunkSize : Nat
  encoder : Encoder
  line : Text
  htmlInsertion : Text
  nextCharacters : Text

/-- What stays the same. -/
structure Page where
  htmlPrefix : Text
  htmlSuffix : Text
  recommendedBlockSize : Nat
  prefix_ne : htmlPrefix ≠ []
  suffix_ne : htmlSuffix ≠ []
  size_pos : 0 < recommendedBlockSize

def maxLineLength : Nat := 10000

def HtmlChunkReader.start (chunkReader : ρ) : HtmlChunkReader ρ :=
  ⟨.readingPrefix, [], chunkReader, 0, .start, [], [], []⟩

/-! ## A line -/

/-- What is left of the characters goes to the line, but not more than the line can
    have, and nothing behind its end; whether the end has been found. -/
def HtmlChunkReader.takeCharacters (r : HtmlChunkReader ρ) : Bool × HtmlChunkReader ρ :=
  let lineEnd := r.nextCharacters.findIdx? (· = 10)
  let length := min ((lineEnd.map (· + 1)).getD r.nextCharacters.length)
    (maxLineLength - r.line.length)
  (lineEnd.isSome, { r with
    line := r.line ++ r.nextCharacters.take length
    nextCharacters := r.nextCharacters.drop length })

inductive Answer where
  | insertion
  | notReady
  | nothing
  | piece
deriving DecidableEq, Repr

/-- The next chunk, when the last one has been read. -/
def HtmlChunkReader.openChunk (R : TextReader ρ) (r : HtmlChunkReader ρ) :
    Bool × HtmlChunkReader ρ :=
  if r.availableNetChunkSize = 0 then
    let (ready, reader) := R.nextChunkIsReady r.chunkReader
    if ready then
      let (size, reader) := R.getNextChunkSize reader
      (true, { r with chunkReader := reader, availableNetChunkSize := size })
    else (false, { r with chunkReader := reader })
  else (true, r)

/-- `try_fill_line`, where no characters are left. -/
def HtmlChunkReader.readCharacters (R : TextReader ρ) (r : HtmlChunkReader ρ) :
    Answer × HtmlChunkReader ρ :=
  let (insertion, reader) := R.htmlInsertion r.chunkReader
  let r := { r with chunkReader := reader, htmlInsertion := insertion }
  if insertion ≠ [] then (.insertion, r)
  else
    let (ready, r) := r.openChunk R
    if ready then
      let (text, reader) := R.readFromChunk r.chunkReader r.availableNetChunkSize
      let r := { r with chunkReader := reader, nextCharacters := text }
      if text = [] then (.nothing, r)
      else (.piece, { r with availableNetChunkSize := r.availableNetChunkSize - text.length })
    else (.notReady, r)

/-- `try_fill_line`.  The line grows every time, so its greatest length is fuel enough. -/
def HtmlChunkReader.tryFillLine (R : TextReader ρ) :
    Nat → HtmlChunkReader ρ → Bool × HtmlChunkReader ρ
  | 0, r => (true, r)
  | fuel + 1, r =>
      if r.line.length < maxLineLength then
        let (answer, r) := if r.nextCharacters = [] then r.readCharacters R else (.piece, r)
        match answer with
        | .insertion => (true, r)
        | .notReady => (false, r)
        | .nothing => (true, r)
        | .piece =>
            let (lineEndFound, r) := r.takeCharacters
            if lineEndFound then (true, r) else tryFillLine R fuel r
      else (true, r)

/-! ## A block -/

inductive Filled (ρ : Type) where
  | more (r : HtmlChunkReader ρ)
  | done (ok : Bool) (r : HtmlChunkReader ρ)

/-- The line goes to the block. -/
def HtmlChunkReader.encodeLine (r : HtmlChunkReader ρ) : HtmlChunkReader ρ :=
  { r with
    chunk := r.chunk ++ (lineItems r.line r.encoder).1.flatMap Item.html
    encoder := (lineItems r.line r.encoder).2
    line := [] }

/-- The loop of `try_fill_chunk`, once. -/
def HtmlChunkReader.fillOnce (R : TextReader ρ) (page : Page) (r : HtmlChunkReader ρ) : Filled ρ :=
  if r.chunk.length < page.recommendedBlockSize then
    let (ok, r) := r.tryFillLine R maxLineLength
    if ok then
      if r.htmlInsertion ≠ [] then
        .more { r with chunk := r.chunk ++ r.htmlInsertion, htmlInsertion := [] }
      else if r.line ≠ [] then .more r.encodeLine
      else .done true r
    else .done (0 < r.chunk.length) r
  else .done true r

/-- `try_fill_chunk`. -/
def HtmlChunkReader.tryFillChunk (R : TextReader ρ) (page : Page) :
    Nat → HtmlChunkReader ρ → Option (Bool × HtmlChunkReader ρ)
  | 0, _ => none
  | fuel + 1, r =>
      match r.fillOnce R page with
      | .more r => tryFillChunk R page fuel r
      | .done ok r => some (ok, r)

/-! ## The chunks -/

/-- `next_chunk_is_ready`. -/
def HtmlChunkReader.nextChunkIsReady (R : TextReader ρ) (page : Page) (fuel : Nat)
    (r : HtmlChunkReader ρ) : Option (Bool × HtmlChunkReader ρ) :=
  match r.state with
  | .readingPrefix => some (true, { r with chunk := page.htmlPrefix })
  | .readingText =>
      match { r with chunk := [] }.tryFillChunk R page fuel with
      | none => none
      | some (false, r) => some (false, r)
      | some (true, r) =>
          if 0 < r.chunk.length then some (true, r)
          else some (true, { r with state := .readingSuffix, chunk := page.htmlSuffix })
  | .readingSuffix => some (true, { r with chunk := page.htmlSuffix })
  | .readingFinished => some (true, { r with chunk := [] })

/-- `read_from_chunk`. -/
def HtmlChunkReader.readFromChunk (r : HtmlChunkReader ρ) : Text × HtmlChunkReader ρ :=
  (r.chunk,
    match r.state with
    | .readingPrefix => { r with state := .readingText }
    | .readingSuffix => { r with state := .readingFinished }
    | _ => r)

/-- What the reader delivers, until a chunk of size 0. -/
inductive Delivers (R : TextReader ρ) (page : Page) : HtmlChunkReader ρ → Text → Prop where
  | notReady {r r' : HtmlChunkReader ρ} {output : Text} (fuel : Nat) :
      r.nextChunkIsReady R page fuel = some (false, r') → Delivers R page r' output →
      Delivers R page r output
  | chunk {r r' : HtmlChunkReader ρ} {output : Text} (fuel : Nat) :
      r.nextChunkIsReady R page fuel = some (true, r') → r'.chunk ≠ [] →
      Delivers R page r'.readFromChunk.2 output →
      Delivers R page r (r'.readFromChunk.1 ++ output)
  | last {r r' : HtmlChunkReader ρ} (fuel : Nat) :
      r.nextChunkIsReady R page fuel = some (true, r') → r'.chunk = [] → Delivers R page r []

/-! ## What arrives -/

/-- A chunk of the text, or the change to a new file. -/
inductive Event where
  | text (text : Text)
  | newFile (insertion : Text)
deriving DecidableEq, Repr

section Arrives

variable (R : TextReader ρ)

/-- The reader asked for a chunk, when it has no insertion. -/
def TextReader.asked (reader : ρ) : Bool × ρ := R.nextChunkIsReady (R.htmlInsertion reader).2

def TextReader.sized (reader : ρ) : Nat × ρ := R.getNextChunkSize (R.asked reader).2

/-- It has no insertion, and a chunk is ready. -/
structure TextReader.Ready (reader : ρ) (size : Nat) : Prop where
  insertion : (R.htmlInsertion reader).1 = []
  ready : (R.asked reader).1 = true
  size : (R.sized reader).1 = size

/-- From now on it is at its end. -/
def TextReader.Ended (reader : ρ) : Prop :=
  ∃ P : ρ → Prop, P reader ∧ ∀ reader, P reader → R.Ready reader 0 ∧
    (R.readFromChunk (R.sized reader).2 0).1 = [] ∧ P (R.readFromChunk (R.sized reader).2 0).2

/-- What the reader answers, until its end: how much is left of the chunk it is in,
    and what comes then.  Having answered with an empty piece it has the insertion
    for a new file.  The number counts its answers and characters. -/
inductive Arrives : Nat → ρ → Bool → Text → List Event → Prop where
  | wait {n : Nat} {reader : ρ} {events : List Event} :
      (R.htmlInsertion reader).1 = [] → (R.asked reader).1 = false →
      Arrives n (R.asked reader).2 false [] events → Arrives (n + 1) reader false [] events
  | chunk {n : Nat} {reader reader' : ρ} {piece left : Text} {events : List Event} :
      R.Ready reader (piece ++ left).length →
      R.readFromChunk (R.sized reader).2 (piece ++ left).length = (piece, reader') → piece ≠ [] →
      Arrives n reader' false left events →
      Arrives (n + piece.length) reader false [] (.text (piece ++ left) :: events)
  | piece {n : Nat} {reader reader' : ρ} {piece left : Text} {events : List Event} :
      (R.htmlInsertion reader).1 = [] →
      R.readFromChunk (R.htmlInsertion reader).2 (piece ++ left).length = (piece, reader') →
      piece ≠ [] → Arrives n reader' false left events →
      Arrives (n + piece.length) reader false (piece ++ left) events
  | newFile {n : Nat} {reader reader' : ρ} {insertion : Text} {events : List Event} :
      R.Ready reader 0 → R.readFromChunk (R.sized reader).2 0 = ([], reader') →
      Arrives n reader' true [] (.newFile insertion :: events) →
      Arrives (n + 1) reader false [] (.newFile insertion :: events)
  | insertion {n : Nat} {reader reader' : ρ} {insertion : Text} {events : List Event} :
      R.htmlInsertion reader = (insertion, reader') → insertion ≠ [] →
      Arrives n reader' false [] events →
      Arrives (n + 1) reader true [] (.newFile insertion :: events)
  | last {reader : ρ} : R.Ended reader → Arrives 0 reader false [] []

end Arrives

/-! ## What is meant -/

/-- The lines of a text, of which the first has begun. -/
def cutLines : Text → Text → List Text
  | line, [] => if line = [] then [] else [line]
  | line, c :: text =>
      if c = 10 ∨ maxLineLength ≤ line.length + 1 then (line ++ [c]) :: cutLines [] text
      else cutLines (line ++ [c]) text

def encodeLines : List Text → Encoder → Text × Encoder
  | [], st => ([], st)
  | line :: lines, st =>
      let (text, last) := encodeLines lines (lineItems line st).2
      ((lineItems line st).1.flatMap Item.html ++ text, last)

/-- The body from the line that has begun and the text behind it on: every insertion
    stands between the lines before and the lines after it. -/
def bodyOf : Encoder → Text → Text → List Event → Text × Encoder
  | st, line, text, [] => encodeLines (cutLines line text) st
  | st, line, text, .text more :: events => bodyOf st line (text ++ more) events
  | st, line, text, .newFile insertion :: events =>
      let (before, middle) := encodeLines (cutLines line text) st
      let (after, last) := bodyOf middle [] [] events
      (before ++ insertion ++ after, last)

/-- The ends of the spans that are open. -/
def closing (st : Encoder) : Text := (List.replicate st.inSpan (ascii "</span>")).flatten

/-- The whole page. -/
def Page.expected (page : Page) (events : List Event) : Text :=
  let (text, last) := bodyOf .start [] [] events
  page.htmlPrefix ++ (text ++ closing last ++ page.htmlSuffix)

/-! ## What may go wrong -/

/-- It comes to a new file, and no line has begun. -/
structure HtmlChunkReader.AtNewFile (R : TextReader ρ) (r : HtmlChunkReader ρ) : Prop where
  line : r.line = []
  nextCharacters : r.nextCharacters = []
  available : r.availableNetChunkSize = 0
  ready : R.Ready r.chunkReader 0
  piece : (R.readFromChunk (R.sized r.chunkReader).2 0).1 = []
  insertion : (R.htmlInsertion (R.readFromChunk (R.sized r.chunkReader).2 0).2).1 ≠ []

/-- A block comes to a new file before anything has been put into it. -/
inductive Interrupted (R : TextReader ρ) (page : Page) : HtmlChunkReader ρ → Prop where
  | here {r : HtmlChunkReader ρ} : r.chunk = [] → r.AtNewFile R → Interrupted R page r
  | more {r r' : HtmlChunkReader ρ} :
      r.fillOnce R page = .more r' → Interrupted R page r' → Interrupted R page r
  | block {r r' : HtmlChunkReader ρ} {ok : Bool} :
      r.fillOnce R page = .done ok r' → (ok = false ∨ r'.chunk ≠ []) →
      Interrupted R page { r' with chunk := [] } → Interrupted R page r

/-- Of the last line, if it has not ended, what has been encoded first. -/
def openLine : Option Text → List Text → Option Text
  | begun, [] => begun
  | begun, line :: lines =>
      openLine (if line.getLast? = some 10 then none else some (begun.getD line)) lines

def lastLine : Option Text → Text → Text → List Event → Option Text
  | begun, line, text, [] => openLine begun (cutLines line text)
  | begun, line, text, .text more :: events => lastLine begun line (text ++ more) events
  | begun, line, text, .newFile _ :: events =>
      lastLine (openLine begun (cutLines line text)) [] [] events

end HtmlReader
