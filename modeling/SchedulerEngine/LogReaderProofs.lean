import SchedulerEngine.HtmlReaderRunProofs

/-! # The reader of a log

    `Log_chunk_reader` delivers what a log had gathered before it was started, and
    then its file, as far as it has been written, until the log is finished.  It sees
    the log as it is at each of its calls. -/

namespace LogReader

open Http HtmlReader

/-- What the reader sees of a `Prefix_log`, and the contents of the files. -/
structure LogState where
  started : Bool
  string : Text
  filename : Text
  instanceNumber : Nat
  finished : Bool
  contents : Text → Text

inductive State where
  | initial
  | readingString
  | readingFile
  | finished
deriving DecidableEq, Repr

/-- `Log_chunk_reader`: the string with its offset, and the file with its position. -/
structure LogChunkReader where
  state : State
  string : Option (Text × Nat)
  fileSeek : Nat
  file : Option (Text × Nat)
  logInstanceNumber : Nat
  htmlInsertion : Text

def LogChunkReader.start : LogChunkReader := ⟨.initial, none, 0, none, 0, []⟩

def horizontalRule : Text := ascii "<hr size='1'/>"

/-- The file is opened where the string has ended. -/
def LogChunkReader.openFile (log : LogState) (r : LogChunkReader) : (Text × Nat) × LogChunkReader :=
  match r.file with
  | some file => (file, r)
  | none =>
      ((log.filename, r.fileSeek), { r with
        file := some (log.filename, r.fileSeek)
        logInstanceNumber := log.instanceNumber
        fileSeek := 0 })

/-- `s_reading_file`. -/
def LogChunkReader.readFile (log : LogState) (r : LogChunkReader) : Bool × LogChunkReader :=
  if log.started then
    let ((path, position), r) := r.openFile log
    if position < (log.contents path).length then (true, r)
    else if log.finished then (true, { r with file := none, state := .finished })
    else if log.filename ≠ path ∨ log.instanceNumber ≠ r.logInstanceNumber then
      (true, { r with file := none, fileSeek := 0, htmlInsertion := horizontalRule })
    else (false, r)
  else (false, r)

/-- `s_reading_string`. -/
def LogChunkReader.readString (log : LogState) (r : LogChunkReader) : Bool × LogChunkReader :=
  if r.string = none ∧ log.started then { r with state := .readingFile }.readFile log
  else
    let string := r.string.getD (log.string, 0)
    if 0 < string.1.length then (true, { r with string := some string })
    else { r with string := none, state := .readingFile }.readFile log

/-- `next_chunk_is_ready`. -/
def LogChunkReader.nextChunkIsReady (log : LogState) (r : LogChunkReader) : Bool × LogChunkReader :=
  match r.state with
  | .initial => { r with state := .readingString }.readString log
  | .readingString => r.readString log
  | .readingFile => r.readFile log
  | .finished => (true, r)

/-- `get_next_chunk_size`. -/
def LogChunkReader.getNextChunkSize (log : LogState) (blockSize : Nat) (r : LogChunkReader) : Nat :=
  match r.string, r.file with
  | some (text, _), _ => text.length
  | none, some (path, position) => min ((log.contents path).length - position) blockSize
  | none, none => 0

/-- `read_from_chunk`. -/
def LogChunkReader.readFromChunk (log : LogState) (r : LogChunkReader) (size : Nat) :
    Text × LogChunkReader :=
  match r.string, r.file with
  | some (text, offset), _ =>
      let result := (text.drop offset).take size
      (result, { r with
        string := some (if offset + result.length = text.length then ([], 0)
          else (text, offset + result.length))
        fileSeek := r.fileSeek + result.length })
  | none, some (path, position) =>
      let result := ((log.contents path).drop position).take size
      (result, { r with file := some (path, position + result.length) })
  | none, none => ([], r)

/-- The reader, the log as it has seen it at last, and how often it has been asked. -/
structure Polled where
  reader : LogChunkReader
  log : LogState
  polls : Nat

/-- A log with its history, and its reader. -/
def logReader (history : Nat → LogState) (blockSize : Nat) : TextReader Polled where
  htmlInsertion s := (s.reader.htmlInsertion, { s with reader := { s.reader with htmlInsertion := [] } })
  nextChunkIsReady s :=
    let log := history s.polls
    let (ready, reader) := s.reader.nextChunkIsReady log
    (ready, ⟨reader, log, s.polls + 1⟩)
  getNextChunkSize s := (s.reader.getNextChunkSize s.log blockSize, s)
  readFromChunk s size :=
    let (text, reader) := s.reader.readFromChunk s.log size
    (text, { s with reader := reader })

def Polled.start (history : Nat → LogState) : Polled := ⟨.start, history 0, 0⟩

/-! ## What one call finds -/

/-- Between two chunks; a string that has been read is empty. -/
structure Resting (r : LogChunkReader) : Prop where
  string : r.string = none ∨ r.string = some ([], 0)
  file : r.file = none ∨ r.state = .readingFile
  stringRead : r.state = .readingFile ∨ r.state = .finished → r.string = none
  insertion : r.htmlInsertion = []

/-- How much of its file the reader has not read. -/
def LogChunkReader.unread (log : LogState) (r : LogChunkReader) : Nat :=
  match r.file with
  | some (path, position) => (log.contents path).length - position
  | none => (log.contents log.filename).length - r.fileSeek

/-- It is over. -/
structure Over (r : LogChunkReader) : Prop where
  state : r.state = .finished
  string : r.string = none
  file : r.file = none
  insertion : r.htmlInsertion = []

inductive Asked (log : LogState) (unread : Nat) : Bool × LogChunkReader → Prop where
  | notReady {r : LogChunkReader} :
      Resting r → ¬(log.started = true ∧ log.finished = true) → Asked log unread (false, r)
  | string {r : LogChunkReader} {text : Text} :
      r.string = some (text, 0) → text ≠ [] → r.state = .readingString → r.file = none →
      r.htmlInsertion = [] → log.started = false → Asked log unread (true, r)
  | file {r : LogChunkReader} {path : Text} {position : Nat} :
      r.string = none → r.file = some (path, position) → r.state = .readingFile →
      r.htmlInsertion = [] → position < (log.contents path).length →
      (log.contents path).length - position = unread → Asked log unread (true, r)
  | newFile {r : LogChunkReader} :
      r.string = none → r.file = none → r.state = .readingFile →
      r.htmlInsertion = horizontalRule → log.finished = false → Asked log unread (true, r)
  | atEnd {r : LogChunkReader} : Over r → Asked log unread (true, r)

variable {log : LogState} {r : LogChunkReader}

theorem openFile_spec (hstate : r.state = .readingFile) (hstring : r.string = none)
    (hinsertion : r.htmlInsertion = []) :
    let opened := r.openFile log
    opened.2.file = some opened.1 ∧ opened.2.state = .readingFile ∧ opened.2.string = none ∧
      opened.2.htmlInsertion = [] ∧
      (log.contents opened.1.1).length - opened.1.2 = r.unread log := by
  rw [LogChunkReader.openFile, LogChunkReader.unread]
  cases hfile : r.file with
  | none => exact ⟨rfl, hstate, hstring, hinsertion, rfl⟩
  | some file => exact ⟨hfile, hstate, hstring, hinsertion, rfl⟩

theorem asked_readFile (hstate : r.state = .readingFile) (hstring : r.string = none)
    (hinsertion : r.htmlInsertion = []) : Asked log (r.unread log) (r.readFile log) := by
  have hresting (r : LogChunkReader) (hstate : r.state = .readingFile) (hstring : r.string = none)
      (hinsertion : r.htmlInsertion = []) : Resting r :=
    ⟨.inl hstring, .inr hstate, fun _ => hstring, hinsertion⟩
  rw [LogChunkReader.readFile]
  by_cases hstarted : log.started = true
  · rw [if_pos hstarted]
    obtain ⟨hfile, hstate', hstring', hinsertion', hunread⟩ := @openFile_spec log r hstate hstring hinsertion
    generalize r.openFile log = opened at hfile hstate' hstring' hinsertion' hunread
    obtain ⟨⟨path, position⟩, r'⟩ := opened
    dsimp only at hfile hstate' hstring' hinsertion' hunread ⊢
    by_cases hmore : position < (log.contents path).length
    · rw [if_pos hmore]
      exact .file hstring' hfile hstate' hinsertion' hmore hunread
    · rw [if_neg hmore]
      by_cases hfinished : log.finished = true
      · rw [if_pos hfinished]
        exact .atEnd ⟨rfl, hstring', rfl, hinsertion'⟩
      · rw [if_neg hfinished]
        split
        · exact .newFile hstring' rfl hstate' rfl (Bool.eq_false_iff.mpr hfinished)
        · exact .notReady (hresting r' hstate' hstring' hinsertion') fun h => hfinished h.2
  · rw [if_neg hstarted]
    exact .notReady (hresting r hstate hstring hinsertion) fun h => hstarted h.1

theorem asked_readString (hstate : r.state = .readingString)
    (hstring : r.string = none ∨ r.string = some ([], 0)) (hfile : r.file = none)
    (hinsertion : r.htmlInsertion = []) : Asked log (r.unread log) (r.readString log) := by
  have hunread (state : State) (string : Option (Text × Nat)) :
      LogChunkReader.unread log { r with state := state, string := string } = r.unread log := rfl
  rw [LogChunkReader.readString]
  by_cases hnone : r.string = none ∧ log.started = true
  · rw [if_pos hnone, ← hunread .readingFile r.string]
    exact asked_readFile rfl hnone.1 hinsertion
  · rw [if_neg hnone]
    by_cases hempty : 0 < (r.string.getD (log.string, 0)).1.length
    · dsimp only
      rw [if_pos hempty]
      rcases hstring with hstring | hstring
      · rw [hstring, Option.getD_none] at hempty
        rw [hstring, Option.getD_none]
        exact .string rfl (List.length_pos_iff.mp hempty) hstate hfile hinsertion
          (Bool.eq_false_iff.mpr fun h => hnone ⟨hstring, h⟩)
      · rw [hstring] at hempty
        exact absurd hempty (Nat.lt_irrefl 0)
    · dsimp only
      rw [if_neg hempty, ← hunread .readingFile none]
      exact asked_readFile rfl rfl hinsertion

theorem asked_next (h : Resting r) : Asked log (r.unread log) (r.nextChunkIsReady log) := by
  rw [LogChunkReader.nextChunkIsReady]
  cases hstate : r.state with
  | initial =>
      have hfile : r.file = none := h.file.resolve_right (by rw [hstate]; exact nofun)
      exact @asked_readString log { r with state := .readingString } rfl h.string hfile h.insertion
  | readingString =>
      have hfile : r.file = none := h.file.resolve_right (by rw [hstate]; exact nofun)
      exact asked_readString hstate h.string hfile h.insertion
  | readingFile => exact asked_readFile hstate (h.stringRead (.inl hstate)) h.insertion
  | finished =>
      have hfile : r.file = none := h.file.resolve_right (by rw [hstate]; exact nofun)
      exact .atEnd ⟨hstate, h.stringRead (.inr hstate), hfile, h.insertion⟩

/-! ## What arrives of a log -/

section History

variable {history : Nat → LogState} {blockSize polls : Nat}

/-- Something arrives, and then the end. -/
def Arriving (history : Nat → LogState) (blockSize : Nat) (s : Polled) : Prop :=
  ∃ n events, Arrives (logReader history blockSize) n s false [] events

theorem withoutInsertion (h : r.htmlInsertion = []) : { r with htmlInsertion := [] } = r := by
  rw [← h]

/-- The reader is asked, when it has no insertion. -/
theorem asked_eq (h : r.htmlInsertion = []) :
    (logReader history blockSize).asked ⟨r, log, polls⟩
      = ((r.nextChunkIsReady (history polls)).1,
          ⟨(r.nextChunkIsReady (history polls)).2, history polls, polls + 1⟩) := by
  rw [TextReader.asked, logReader]
  dsimp only
  rw [withoutInsertion h]

theorem ready_eq {r' : LogChunkReader} {size : Nat} (h : r.htmlInsertion = [])
    (hready : r.nextChunkIsReady (history polls) = (true, r'))
    (hsize : r'.getNextChunkSize (history polls) blockSize = size) :
    (logReader history blockSize).Ready ⟨r, log, polls⟩ size ∧
      ((logReader history blockSize).sized ⟨r, log, polls⟩).2 = ⟨r', history polls, polls + 1⟩ := by
  have hasked := @asked_eq log r history blockSize polls h
  rw [hready] at hasked
  have hsized : (logReader history blockSize).sized ⟨r, log, polls⟩
      = (r'.getNextChunkSize (history polls) blockSize, ⟨r', history polls, polls + 1⟩) := by
    rw [TextReader.sized, hasked]
    rfl
  exact ⟨⟨h, by rw [hasked], by rw [hsized, hsize]⟩, by rw [hsized]⟩

theorem ended_of_over {r' : LogChunkReader} (h : r.htmlInsertion = [])
    (hready : r.nextChunkIsReady (history polls) = (true, r')) (hover : Over r') :
    (logReader history blockSize).Ended ⟨r, log, polls⟩ := by
  refine ⟨fun s => s.reader.htmlInsertion = [] ∧ ∃ r',
    s.reader.nextChunkIsReady (history s.polls) = (true, r') ∧ Over r', ⟨h, r', hready, hover⟩, ?_⟩
  rintro ⟨r₁, log₁, polls₁⟩ ⟨h₁, r₂, hready₁, hover₁⟩
  have hsize : r₂.getNextChunkSize (history polls₁) blockSize = 0 := by
    rw [LogChunkReader.getNextChunkSize, hover₁.string, hover₁.file]
  obtain ⟨hready₂, hsized⟩ := @ready_eq log₁ r₁ history blockSize polls₁ r₂ 0 h₁ hready₁ hsize
  have hread : (logReader history blockSize).readFromChunk
      ((logReader history blockSize).sized ⟨r₁, log₁, polls₁⟩).2 0
        = ([], ⟨r₂, history polls₁, polls₁ + 1⟩) := by
    rw [hsized, logReader]
    dsimp only
    rw [LogChunkReader.readFromChunk, hover₁.string, hover₁.file]
  have hnext : r₂.nextChunkIsReady (history (polls₁ + 1)) = (true, r₂) := by
    rw [LogChunkReader.nextChunkIsReady, hover₁.state]
  rw [hread]
  exact ⟨hready₂, rfl, hover₁.insertion, r₂, hnext, hover₁⟩

/-- A chunk arrives in one piece. -/
theorem arriving_chunk {r' r'' : LogChunkReader} {piece : Text} (h : r.htmlInsertion = [])
    (hready : r.nextChunkIsReady (history polls) = (true, r')) (hne : piece ≠ [])
    (hsize : r'.getNextChunkSize (history polls) blockSize = piece.length)
    (hread : r'.readFromChunk (history polls) piece.length = (piece, r''))
    (hnext : Arriving history blockSize ⟨r'', history polls, polls + 1⟩) :
    Arriving history blockSize ⟨r, log, polls⟩ := by
  obtain ⟨n, events, harrives⟩ := hnext
  obtain ⟨hready', hsized⟩ := @ready_eq log r history blockSize polls r' _ h hready hsize
  have hpiece : (logReader history blockSize).readFromChunk
      ((logReader history blockSize).sized ⟨r, log, polls⟩).2 (piece ++ []).length
        = (piece, ⟨r'', history polls, polls + 1⟩) := by
    rw [hsized, List.append_nil, logReader]
    dsimp only
    rw [hread]
  rw [← List.append_nil piece] at hready'
  exact ⟨_, _, .chunk hready' hpiece hne harrives⟩

/-- After one call the reader rests again, or it is over. -/
theorem arriving_of_next (hpos : 0 < blockSize) (h : Resting r)
    (hnext : ∀ r', Resting r' →
      ((history polls).started = true → (history polls).finished = true →
        r'.unread (history polls) < r.unread (history polls)) →
      Arriving history blockSize ⟨r', history polls, polls + 1⟩) :
    Arriving history blockSize ⟨r, log, polls⟩ := by
  have hasked := @asked_next (history polls) r h
  cases hresult : r.nextChunkIsReady (history polls) with
  | mk ready r' =>
      rw [hresult] at hasked
      cases hasked with
      | notReady hresting hnot =>
          obtain ⟨n, events, harrives⟩ := hnext r' hresting fun hs hf => absurd ⟨hs, hf⟩ hnot
          have heq := @asked_eq log r history blockSize polls h.insertion
          rw [hresult] at heq
          exact ⟨n + 1, events, .wait h.insertion (by rw [heq]) (by rw [heq]; exact harrives)⟩
      | @string _ text hstring hne hstate hfile hinsertion hstarted =>
          have hread : r'.readFromChunk (history polls) text.length
              = (text, { r' with string := some ([], 0), fileSeek := r'.fileSeek + text.length }) := by
            rw [LogChunkReader.readFromChunk, hstring]
            dsimp only
            rw [List.drop_zero, List.take_length, Nat.zero_add, if_pos rfl]
          refine arriving_chunk h.insertion hresult hne ?_ hread (hnext _ ?_ fun hs => ?_)
          · rw [LogChunkReader.getNextChunkSize, hstring]
          · refine ⟨.inr rfl, .inl hfile, fun hor => ?_, hinsertion⟩
            rcases hor with hor | hor <;> exact absurd (hstate.symm.trans hor) nofun
          · rw [hstarted] at hs
            cases hs
      | @file _ path position hstring hfile hstate hinsertion hmore hunread =>
          have hsize : r'.getNextChunkSize (history polls) blockSize
              = min (((history polls).contents path).length - position) blockSize := by
            rw [LogChunkReader.getNextChunkSize, hstring, hfile]
          have hlength : ((((history polls).contents path).drop position).take
              (min (((history polls).contents path).length - position) blockSize)).length
                = min (((history polls).contents path).length - position) blockSize := by
            rw [List.length_take, List.length_drop]
            omega
          have hsome : 0 < min (((history polls).contents path).length - position) blockSize := by
            omega
          have hread : r'.readFromChunk (history polls)
              (min (((history polls).contents path).length - position) blockSize)
                = ((((history polls).contents path).drop position).take
                    (min (((history polls).contents path).length - position) blockSize),
                  { r' with file := some (path, position
                    + min (((history polls).contents path).length - position) blockSize) }) := by
            rw [LogChunkReader.readFromChunk, hstring, hfile]
            dsimp only
            rw [hlength]
          refine arriving_chunk h.insertion hresult ?_ (hsize.trans hlength.symm)
            (by rw [hlength]; exact hread) (hnext _ ?_ fun _ _ => ?_)
          · exact List.length_pos_iff.mp (by rw [hlength]; exact hsome)
          · exact ⟨.inl hstring, .inr hstate, fun _ => hstring, hinsertion⟩
          · rw [← hunread]
            show ((history polls).contents path).length - (position + _) < _
            omega
      | newFile hstring hfile hstate hinsertion hfinished =>
          have hresting : Resting { r' with htmlInsertion := [] } :=
            ⟨.inl hstring, .inl hfile, fun _ => hstring, rfl⟩
          obtain ⟨n, events, harrives⟩ := hnext _ hresting fun _ hf => by
            rw [hfinished] at hf
            cases hf
          have hsize : r'.getNextChunkSize (history polls) blockSize = 0 := by
            rw [LogChunkReader.getNextChunkSize, hstring, hfile]
          obtain ⟨hready, hsized⟩ := @ready_eq log r history blockSize polls r' 0 h.insertion hresult hsize
          have hread : (logReader history blockSize).readFromChunk
              ((logReader history blockSize).sized ⟨r, log, polls⟩).2 0
                = ([], ⟨r', history polls, polls + 1⟩) := by
            rw [hsized, logReader]
            dsimp only
            rw [LogChunkReader.readFromChunk, hstring, hfile]
          have hins : (logReader history blockSize).htmlInsertion ⟨r', history polls, polls + 1⟩
              = (horizontalRule, ⟨{ r' with htmlInsertion := [] }, history polls, polls + 1⟩) := by
            rw [logReader]
            dsimp only
            rw [hinsertion]
          exact ⟨_, _, .newFile hready hread (.insertion hins (by decide) harrives)⟩
      | atEnd hover => exact ⟨0, [], .last (ended_of_over h.insertion hresult hover)⟩

/-- Whatever has happened to a log, when it is finished its reader has delivered what
    it has seen of it, and is at its end. -/
theorem arriving_log {last : Nat} (hpos : 0 < blockSize)
    (hlast : ∀ i, last ≤ i → history i = history last) (hstarted : (history last).started = true)
    (hfinished : (history last).finished = true) (h : Resting r) :
    Arriving history blockSize ⟨r, log, polls⟩ := by
  have hend : ∀ k (r : LogChunkReader) (polls : Nat) (log : LogState), last ≤ polls → Resting r →
      r.unread (history last) = k → Arriving history blockSize ⟨r, log, polls⟩ := by
    intro k
    induction k using Nat.strongRecOn with
    | ind k ih =>
        intro r polls log hle h hk
        have hnow := hlast polls hle
        refine arriving_of_next hpos h fun r' hr' hless => ?_
        rw [hnow] at hless
        exact ih _ (hk ▸ hless hstarted hfinished) r' _ _ (Nat.le_succ_of_le hle) hr' rfl
  have hbefore : ∀ k (r : LogChunkReader) (polls : Nat) (log : LogState), last - polls = k →
      Resting r → Arriving history blockSize ⟨r, log, polls⟩ := by
    intro k
    induction k with
    | zero =>
        intro r polls log hk h
        exact hend _ r polls log (Nat.le_of_sub_eq_zero hk) h rfl
    | succ k ih =>
        intro r polls log hk h
        exact arriving_of_next hpos h fun r' hr' _ => ih r' (polls + 1) _ (by omega) hr'
  exact hbefore _ r polls log rfl h

end History

/-! ## Two logs -/

def files (path : Text) : Text := if path = ascii "1" then ascii "a\n" else ascii "b\n"

/-- A log of one line that is finished. -/
def written (_ : Nat) : LogState := ⟨true, [], ascii "1", 0, true, files⟩

def plainPage : Page := ⟨ascii "<html>", ascii "</html>", 1024, by decide, by decide, by decide⟩

/-- The reader of the finished log, when it has been asked. -/
theorem ended_written : (logReader written 1024).Ended
    ⟨⟨.readingFile, none, 0, some (ascii "1", 2), 0, []⟩, written 0, 1⟩ :=
  ended_of_over rfl rfl ⟨rfl, rfl, rfl, rfl⟩

theorem delivers_written : Delivers (logReader written 1024) plainPage (.start (.start written))
    (plainPage.expected [.text (ascii "a\n")]) := by
  have harrives : Arrives (logReader written 1024) 2 (.start written) false [] [.text (ascii "a\n")] :=
    @Arrives.chunk _ _ 0 _ _ (ascii "a\n") [] [] ⟨rfl, rfl, rfl⟩ rfl (by decide) (.last ended_written)
  refine (complete_iff_noticed harrives).mpr ⟨?_, ?_⟩
  · intro h
    cases h with
    | here _ hat => exact absurd hat.ready.size (by decide)
    | block hdone _ _ => cases hdone
    | more hmore h =>
      cases hmore
      cases h with
      | here hchunk _ => exact absurd hchunk (by decide)
      | more hmore _ => cases hmore
      | block hdone _ h =>
        cases hdone
        cases h with
        | here _ hat => exact hat.insertion rfl
        | more hmore _ => cases hmore
        | block hdone hor _ =>
          cases hdone
          rcases hor with hok | hchunk
          · cases hok
          · exact hchunk rfl
  · exact nofun

/-- A file of one line, which has been read when the next file is begun. -/
def switched : Nat → LogState
  | 0 | 1 => ⟨true, [], ascii "1", 0, false, files⟩
  | 2 => ⟨true, [], ascii "2", 0, false, files⟩
  | _ => ⟨true, [], ascii "2", 0, true, files⟩

/-- A block that comes to the next file takes the change for the end of the log. -/
theorem not_delivers_expected : ¬∀ {ρ : Type} (R : TextReader ρ) (page : Page) (n : Nat) (reader : ρ)
    (events : List Event), Arrives R n reader false [] events →
      Delivers R page (.start reader) (page.expected events) := by
  intro h
  obtain ⟨n, events, harrives⟩ : Arriving switched 1024 (.start switched) := by
    refine @arriving_log (switched 0) .start switched 1024 0 3 (by decide) (fun i hle => ?_) rfl rfl
      ⟨.inl rfl, .inl rfl, fun _ => rfl, rfl⟩
    obtain ⟨k, rfl⟩ := Nat.exists_eq_add_of_le' hle
    rfl
  have hcomplete := (complete_iff harrives).mp (h (logReader switched 1024) plainPage n _ events harrives)
  refine hcomplete.1 (.more rfl (.block rfl (.inr ?_) (.here rfl ⟨rfl, rfl, rfl, ⟨rfl, rfl, rfl⟩, rfl, ?_⟩)))
  · decide
  · decide

end LogReader
