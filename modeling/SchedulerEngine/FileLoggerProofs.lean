import Mathlib.Data.List.Forall2
import SchedulerEngine.LineSplitProofs

/-! # `File_logger`

    The stdout and stderr files of a task are read while they grow: each read gives
    the lines of a window of `max_line_length` bytes to the log, and `flush` reads
    the rest. -/

namespace FileLogger

open LineSplit

abbrev Bytes := List UInt8

/-- `\n` -/
def lf : UInt8 := 10

/-- `\r` -/
def cr : UInt8 := 13

def maxLineLength : Nat := 10000

/-! ## `File_line_reader` -/

/-- `string::rfind` -/
def rfind (c : UInt8) : Bytes → Option Nat
  | [] => none
  | b :: l =>
      match rfind c l with
      | some i => some (i + 1)
      | none => if b = c then some 0 else none

/-- The lines with their ends. -/
def linesWithEnds : Bytes → List Bytes
  | [] => []
  | b :: l =>
      if b = lf then [b] :: linesWithEnds l
      else
        match linesWithEnds l with
        | [] => [[b]]
        | line :: lines => (b :: line) :: lines

structure FileLineReader where
  name : Bytes
  readLength : Nat
  error : Bool

namespace FileLineReader

def namePrefix (name : Bytes) : Bytes := 91 :: name ++ [93, 32]

def prefixWithName (name lines : Bytes) : Bytes :=
  if name = [] then lines
  else (linesWithEnds lines).flatMap fun line => namePrefix name ++ line

/-- What is read at a position: the lines without the last line end, and how far the
    read goes. -/
def windowLines (window : Bytes) : Bytes × Nat :=
  let (lines, nl, end_) :=
    match rfind lf window with
    | none =>
        -- more than `max_line_length` is cut
        let lines := if window.length < maxLineLength then [] else window
        (lines, lines.length, lines.length)
    | some nl => (window, nl, nl + 1)
  let beforeEnd := if 0 < nl ∧ lines[nl - 1]? = some cr then nl - 1 else nl
  (lines.take beforeEnd, end_)

/-- `read_lines`; the file cannot be opened, or has a content. -/
def readLines (r : FileLineReader) (file : Except Bytes Bytes) : Bytes × FileLineReader :=
  if r.error = true then (prefixWithName r.name [], r)
  else
    match file with
    | .error message => (prefixWithName r.name message, { r with error := true })
    | .ok content =>
        if r.readLength < content.length then
          let (lines, end_) := windowLines ((content.drop r.readLength).take maxLineLength)
          (prefixWithName r.name lines, { r with readLength := r.readLength + end_ })
        else (prefixWithName r.name [], r)

end FileLineReader

open FileLineReader

/-- A file, its reader, and what the reader gave to the log. -/
structure Source where
  reader : FileLineReader
  file : Except Bytes Bytes
  logged : List Bytes

namespace Source

def logLines (s : Source) : Bool × Source :=
  let (lines, reader) := s.reader.readLines s.file
  if lines = [] then (false, { s with reader := reader })
  else (true, { s with reader := reader, logged := s.logged ++ [lines] })

def logRemainder (s : Source) : Source :=
  let (lines, reader) := s.reader.readLines s.file
  if lines ≠ [] then { s with reader := reader, logged := s.logged ++ [lines] }
  else { s with reader := reader }

/-- `while (log_lines());` -/
def logAll : Nat → Source → Option Source
  | 0, _ => none
  | fuel + 1, s =>
      match s.logLines with
      | (true, s) => logAll fuel s
      | (false, s) => some s

/-- Another process writes the file. -/
def write (bytes : Bytes) (s : Source) : Source := { s with file := s.file.map fun c => c ++ bytes }

end Source

/-! ## `File_logger` -/

/-- The files of a task. -/
abbrev Logger := List Source

def flushLines (l : Logger) : Logger := l.map fun s => s.logLines.2

def logAllFiles (fuel : Nat) : Logger → Option Logger
  | [] => some []
  | s :: l => do
      let s ← s.logAll fuel
      let l ← logAllFiles fuel l
      some (s :: l)

def flush (fuel : Nat) (l : Logger) : Option Logger :=
  (logAllFiles fuel l).map fun l => l.map Source.logRemainder

inductive Step where
  /-- bytes at the end of a file -/
  | write (file : Nat) (bytes : Bytes)
  | flushLines

def Step.apply (l : Logger) : Step → Logger
  | .write file bytes => l.modify file (Source.write bytes)
  | .flushLines => FileLogger.flushLines l

def run (l : Logger) (steps : List Step) : Logger := steps.foldl Step.apply l

/-! ## Lines -/

def stripCr (l : Bytes) : Bytes := if l.getLast? = some cr then l.dropLast else l

/-- The lines of a text; a line ends with `\n` or `\r\n`, the last one with the
    text. -/
def textLines (t : Bytes) : List Bytes :=
  (t.splitOn lf).dropLast.map stripCr ++ (t.splitOn lf).getLast?.toList

/-- The lines that are not empty. -/
def nonEmpty (l : List Bytes) : List Bytes := l.filter (· ≠ [])

/-- A line that is not longer than `max_line_length` is not cut. -/
def Pieces (line : Bytes) (pieces : List Bytes) : Prop :=
  pieces.flatten = line ∧ (line.length ≤ maxLineLength → pieces = [line])

/-- Each line in its pieces, in order. -/
def Cut (lines pieces : List Bytes) : Prop :=
  ∃ groups : List (List Bytes), groups.flatten = pieces ∧ List.Forall₂ Pieces lines groups

/-- The text in front of which the name stands on each line. -/
def withoutPrefix (n : Nat) : Nat → Bytes → Bytes
  | _, [] => []
  | 0, b :: l => b :: withoutPrefix n (if b = lf then n else 0) l
  | k + 1, _ :: l => withoutPrefix n k l

def withoutName (name text : Bytes) : Bytes :=
  if name = [] then text else withoutPrefix (namePrefix name).length (namePrefix name).length text

/-- All that was written is in the log, and is read. -/
def Complete (content : Bytes) (s : Source) : Prop :=
  s.file = .ok content ∧ s.reader.readLength = content.length ∧
    Cut (nonEmpty (textLines content))
      (nonEmpty ((s.logged.map (withoutName s.reader.name)).flatMap textLines))

variable {l u v w q text content : Bytes} {s s' : Source} {n : Nat}

theorem maxLineLength_pos : 0 < maxLineLength := Nat.succ_pos _

theorem lf_ne_cr : lf ≠ cr := by decide

/-! ## Names -/

theorem flatten_linesWithEnds (l : Bytes) : (linesWithEnds l).flatten = l := by
  induction l with
  | nil => rfl
  | cons b l ih =>
      rw [linesWithEnds]
      split
      · rw [List.flatten_cons, ih]
        rfl
      · cases hl : linesWithEnds l with
        | nil =>
            rw [hl] at ih
            rw [← ih]
            rfl
        | cons line lines =>
            rw [hl] at ih
            rw [← ih]
            rfl

theorem withoutPrefix_append (n : Nat) (p l : Bytes) :
    withoutPrefix n p.length (p ++ l) = withoutPrefix n 0 l := by
  induction p with
  | nil => rfl
  | cons b p ih => exact ih

/-- The prefixes that stand in front of the lines are taken away. -/
theorem withoutPrefix_lines (p l : Bytes) :
    withoutPrefix p.length p.length ((linesWithEnds l).flatMap fun line => p ++ line) = l ∧
    ∀ line lines, linesWithEnds l = line :: lines →
      withoutPrefix p.length 0 (line ++ lines.flatMap fun line => p ++ line) = l := by
  have hfirst : ∀ l : Bytes,
      (∀ line lines, linesWithEnds l = line :: lines →
        withoutPrefix p.length 0 (line ++ lines.flatMap fun line => p ++ line) = l) →
      withoutPrefix p.length p.length ((linesWithEnds l).flatMap fun line => p ++ line) = l := by
    intro l h
    cases hl : linesWithEnds l with
    | nil =>
        rw [← flatten_linesWithEnds l, hl]
        cases p <;> rfl
    | cons line lines =>
        rw [List.flatMap_cons, List.append_assoc, withoutPrefix_append]
        exact h line lines hl
  have hall : ∀ line lines, linesWithEnds l = line :: lines →
      withoutPrefix p.length 0 (line ++ lines.flatMap fun line => p ++ line) = l := by
    induction l with
    | nil => exact fun line lines h => by cases h
    | cons b l ih =>
        intro line lines h
        rw [linesWithEnds] at h
        by_cases hb : b = lf
        · rw [if_pos hb] at h
          obtain ⟨rfl, rfl⟩ := List.cons.inj h
          show b :: withoutPrefix p.length (if b = lf then p.length else 0) _ = _
          rw [if_pos hb]
          exact congrArg (b :: ·) (hfirst l ih)
        · rw [if_neg hb] at h
          cases hl : linesWithEnds l with
          | nil =>
              rw [hl] at h
              obtain ⟨rfl, rfl⟩ := List.cons.inj h
              have hnil : l = [] := by
                rw [← flatten_linesWithEnds l, hl]
                rfl
              rw [hnil]
              rfl
          | cons first rest =>
              rw [hl] at h
              obtain ⟨rfl, rfl⟩ := List.cons.inj h
              show b :: withoutPrefix p.length (if b = lf then p.length else 0) _ = _
              rw [if_neg hb]
              exact congrArg (b :: ·) (ih first rest hl)
  exact ⟨hfirst l hall, hall⟩

theorem withoutName_prefixWithName (name lines : Bytes) :
    withoutName name (prefixWithName name lines) = lines := by
  rw [withoutName, prefixWithName]
  by_cases h : name = []
  · rw [if_pos h, if_pos h]
  · rw [if_neg h, if_neg h]
    exact (withoutPrefix_lines _ lines).1

theorem prefixWithName_eq_nil (name lines : Bytes) : prefixWithName name lines = [] ↔ lines = [] := by
  constructor
  · intro h
    rw [← withoutName_prefixWithName name lines, h, withoutName]
    split
    · rfl
    · rfl
  · intro h
    rw [h, prefixWithName]
    split
    · rfl
    · rfl

/-! ## Line ends -/

theorem stripCr_nil : stripCr [] = [] := rfl

theorem stripCr_concat (l : Bytes) : stripCr (l ++ [cr]) = l := by
  rw [stripCr, if_pos List.getLast?_concat, List.dropLast_concat]

theorem stripCr_of_ne (h : l.getLast? ≠ some cr) : stripCr l = l := if_neg h

theorem stripCr_append (hv : v ≠ []) (u : Bytes) : stripCr (u ++ v) = u ++ stripCr v := by
  rw [stripCr, stripCr, List.getLast?_append_of_ne_nil u hv]
  split
  · exact List.dropLast_append_of_ne_nil hv
  · rfl

theorem stripCr_append_lf (u v : Bytes) : stripCr (u ++ lf :: v) = u ++ lf :: stripCr v := by
  rw [stripCr_append (List.cons_ne_nil lf v) u]
  by_cases hv : v = []
  · rw [hv]
    rfl
  · have : stripCr ([lf] ++ v) = [lf] ++ stripCr v := stripCr_append hv [lf]
    exact congrArg (u ++ ·) this

theorem stripCr_sublist (l : Bytes) : (stripCr l).Sublist l := by
  rw [stripCr]
  split
  · exact List.dropLast_sublist l
  · exact List.Sublist.refl l

theorem notMem_stripCr (h : lf ∉ l) : lf ∉ stripCr l := fun hmem => h ((stripCr_sublist l).subset hmem)

theorem textLines_of_notMem (h : lf ∉ l) : textLines l = [l] := by
  rw [textLines, List.splitOn_eq_singleton h]
  rfl

theorem textLines_append (u : Bytes) (hv : lf ∉ v) :
    textLines (u ++ lf :: v) = (u.splitOn lf).map stripCr ++ [v] := by
  rw [textLines, List.splitOn_append_cons_self, List.splitOn_eq_singleton hv,
    List.dropLast_concat, List.getLast?_concat]
  rfl

/-- The line ends inside a text are taken away when it is read as lines, the last
    one before. -/
theorem textLines_stripCr (u : Bytes) : textLines (stripCr u) = (u.splitOn lf).map stripCr := by
  rcases exists_last lf u with h | ⟨u, v, rfl, hv⟩
  · rw [textLines_of_notMem (notMem_stripCr h), List.splitOn_eq_singleton h]
    rfl
  · rw [stripCr_append_lf, textLines_append u (notMem_stripCr hv), List.splitOn_append_cons_self,
      List.splitOn_eq_singleton hv, List.map_append]
    rfl

theorem nonEmpty_append (l m : List Bytes) : nonEmpty (l ++ m) = nonEmpty l ++ nonEmpty m :=
  List.filter_append l m

theorem flatten_nonEmpty (l : List Bytes) : (nonEmpty l).flatten = l.flatten := by
  induction l with
  | nil => rfl
  | cons a l ih =>
      by_cases ha : a = []
      · rw [ha]
        exact ih
      · have hcons : nonEmpty (a :: l) = a :: nonEmpty l :=
          List.filter_cons_of_pos (decide_eq_true ha)
        rw [hcons, List.flatten_cons, List.flatten_cons, ih]

/-! ## What the windows make of a line -/

/-- A line in pieces of `max_line_length`, without the `\r` at their ends. -/
def linePieces (line : Bytes) : List Bytes := nonEmpty ((chunks maxLineLength line).map stripCr)

/-- The lines of a text in their pieces. -/
def allPieces (l : Bytes) : List Bytes := (l.splitOn lf).flatMap linePieces

theorem linePieces_nil : linePieces [] = [] := by
  rw [linePieces, chunks_nil]
  rfl

theorem linePieces_append (hq : maxLineLength ∣ q.length) (l : Bytes) :
    linePieces (q ++ l) = linePieces q ++ linePieces l := by
  rw [linePieces, chunks_append_of_dvd maxLineLength_pos hq, List.map_append, nonEmpty_append]
  rfl

theorem linePieces_short (h : l.length ≤ maxLineLength) : linePieces l = nonEmpty [stripCr l] := by
  by_cases hl : l = []
  · rw [hl, linePieces_nil]
    rfl
  · rw [linePieces, chunks_of_length_le maxLineLength_pos hl h]
    rfl

/-- The text of a window has the pieces of its lines. -/
theorem nonEmpty_textLines (h : u.length ≤ maxLineLength) :
    nonEmpty (textLines (stripCr u)) = allPieces u := by
  have hshort : ∀ line ∈ u.splitOn lf, line.length ≤ maxLineLength :=
    fun line hline => Nat.le_trans (length_le_of_mem_splitOn hline) h
  rw [textLines_stripCr, allPieces]
  generalize u.splitOn lf = lines at hshort ⊢
  induction lines with
  | nil => rfl
  | cons line lines ih =>
      rw [List.map_cons, List.flatMap_cons, linePieces_short (hshort line List.mem_cons_self),
        ← ih fun line h => hshort line (List.mem_cons_of_mem _ h), ← nonEmpty_append]
      rfl

/-- Where a line can go on in a full window, the pieces go on. -/
theorem allPieces_append (h : Open lf q l) (hq : maxLineLength ∣ q.length) (u : Bytes) :
    allPieces (l ++ u) = allPieces l ++ allPieces u := by
  obtain ⟨hq', lines, hlines⟩ := h
  obtain ⟨first, rest, hu, hqu⟩ := splitOn_append hq' u
  have hl := hlines []
  rw [List.append_nil, List.append_nil, List.splitOn_eq_singleton hq'] at hl
  rw [allPieces, allPieces, allPieces, hlines, hl, hqu, hu, List.flatMap_append,
    List.flatMap_append, List.flatMap_singleton, List.flatMap_cons, List.flatMap_cons,
    linePieces_append hq, List.append_assoc, List.append_assoc]

theorem allPieces_cut (u : Bytes) : allPieces (u ++ [lf]) = allPieces u := by
  rw [allPieces, List.splitOn_append_cons_self, List.flatMap_append, List.splitOn_nil,
    List.flatMap_singleton, linePieces_nil, List.append_nil]
  rfl

/-! ## One read -/

theorem rfind_of_notMem {c : UInt8} (h : c ∉ l) : rfind c l = none := by
  induction l with
  | nil => rfl
  | cons b l ih =>
      rw [List.mem_cons, not_or] at h
      rw [rfind, ih h.2]
      exact if_neg fun hb => h.1 hb.symm

theorem rfind_append {c : UInt8} (u : Bytes) (h : c ∉ v) :
    rfind c (u ++ c :: v) = some u.length := by
  induction u with
  | nil =>
      rw [List.nil_append, rfind, rfind_of_notMem h]
      exact if_pos rfl
  | cons b u ih =>
      rw [List.cons_append, rfind, ih]
      rfl

/-- The `\r` in front of a position is left out. -/
theorem take_beforeEnd (u v : Bytes) :
    (u ++ v).take (if 0 < u.length ∧ (u ++ v)[u.length - 1]? = some cr then u.length - 1
      else u.length) = stripCr u := by
  have hlast : 0 < u.length → (u ++ v)[u.length - 1]? = u.getLast? := by
    intro h
    rw [List.getElem?_append_left (by omega), List.getLast?_eq_getElem?]
  by_cases h : 0 < u.length ∧ (u ++ v)[u.length - 1]? = some cr
  · rw [if_pos h, stripCr, if_pos (hlast h.1 ▸ h.2), List.dropLast_eq_take,
      List.take_append_of_le_length (Nat.sub_le _ _)]
  · rw [if_neg h, List.take_left, stripCr, if_neg]
    intro hu
    have hpos : 0 < u.length := List.length_pos_iff.mpr fun hnil => by
      rw [hnil] at hu
      cases hu
    exact h ⟨hpos, (hlast hpos).trans hu⟩

theorem windowLines_append (u : Bytes) (hv : lf ∉ v) :
    windowLines (u ++ lf :: v) = (stripCr u, u.length + 1) := by
  rw [windowLines, rfind_append u hv]
  simp only [take_beforeEnd u (lf :: v)]

theorem windowLines_full (hw : lf ∉ w) (h : w.length = maxLineLength) :
    windowLines w = (stripCr w, w.length) := by
  have htake := take_beforeEnd w []
  have hlt : ¬w.length < maxLineLength := Nat.not_lt.mpr (Nat.le_of_eq h.symm)
  rw [List.append_nil] at htake
  rw [windowLines, rfind_of_notMem hw]
  simp only [if_neg hlt, htake]

theorem windowLines_wait (hw : lf ∉ w) (h : w.length < maxLineLength) :
    windowLines w = ([], 0) := by
  rw [windowLines, rfind_of_notMem hw]
  simp only [if_pos h, List.length_nil, List.take_nil]

/-- A window ends behind its last `\n`, or is full, or has to wait. -/
theorem window_cases (w : Bytes) (h : w.length ≤ maxLineLength) :
    (∃ u v, w = u ++ lf :: v ∧ lf ∉ v) ∨ (lf ∉ w ∧ w.length = maxLineLength) ∨
      (lf ∉ w ∧ w.length < maxLineLength) := by
  rcases exists_last lf w with hw | hw
  · rcases Nat.eq_or_lt_of_le h with h | h
    · exact Or.inr (Or.inl ⟨hw, h⟩)
    · exact Or.inr (Or.inr ⟨hw, h⟩)
  · exact Or.inl hw

/-- The bytes that one read sees. -/
def windowAt (content : Bytes) (r : Nat) : Bytes := (content.drop r).take maxLineLength

theorem length_windowAt (content : Bytes) (r : Nat) :
    (windowAt content r).length = min maxLineLength (content.length - r) := by
  rw [windowAt, List.length_take, List.length_drop]

theorem length_windowAt_le (content : Bytes) (r : Nat) :
    (windowAt content r).length ≤ maxLineLength := by
  rw [length_windowAt]
  exact Nat.min_le_left _ _

/-- What is read up to a place in a window. -/
theorem take_windowAt {r : Nat} (hw : windowAt content r = u ++ v) :
    content.take (r + u.length) = content.take r ++ u := by
  have hle : u.length ≤ maxLineLength := by
    have := length_windowAt_le content r
    rw [hw, List.length_append] at this
    omega
  have hu : (content.drop r).take u.length = u := by
    have h : (windowAt content r).take u.length = u := by rw [hw, List.take_left]
    rwa [windowAt, List.take_take, Nat.min_eq_left hle] at h
  rw [List.take_add, hu]

/-- The lines that one read gives to the log, and how far it goes. -/
def lines (content : Bytes) (r : Nat) : Bytes := (windowLines (windowAt content r)).1

def advance (content : Bytes) (r : Nat) : Nat := (windowLines (windowAt content r)).2

theorem windowAt_eq_nil {r : Nat} : windowAt content r = [] ↔ content.length ≤ r := by
  have hpos := maxLineLength_pos
  rw [← List.length_eq_zero_iff, length_windowAt]
  omega

theorem readLines_eq (r : FileLineReader) (herror : r.error = false) (content : Bytes) :
    r.readLines (.ok content) = (prefixWithName r.name (lines content r.readLength),
      { r with readLength := r.readLength + advance content r.readLength }) := by
  rw [readLines, if_neg (by rw [herror]; exact Bool.false_ne_true)]
  show (if r.readLength < content.length then _ else _) = _
  by_cases hlt : r.readLength < content.length
  · rw [if_pos hlt]
    rfl
  · have hnil : windowAt content r.readLength = [] := windowAt_eq_nil.mpr (Nat.not_lt.mp hlt)
    rw [if_neg hlt, lines, advance, hnil]
    rfl

theorem read_append {r : Nat} (hw : windowAt content r = u ++ lf :: v) (hv : lf ∉ v) :
    lines content r = stripCr u ∧ advance content r = u.length + 1 := by
  rw [lines, advance, hw, windowLines_append u hv]
  exact ⟨rfl, rfl⟩

theorem read_full {r : Nat} (hw : lf ∉ windowAt content r)
    (h : (windowAt content r).length = maxLineLength) :
    lines content r = stripCr (windowAt content r) ∧
      advance content r = (windowAt content r).length := by
  rw [lines, advance, windowLines_full hw h]
  exact ⟨rfl, rfl⟩

theorem read_wait {r : Nat} (hw : lf ∉ windowAt content r)
    (h : (windowAt content r).length < maxLineLength) :
    lines content r = [] ∧ advance content r = 0 := by
  rw [lines, advance, windowLines_wait hw h]
  exact ⟨rfl, rfl⟩

/-- The lines without the names, as they are told one after the other. -/
def told (s : Source) : List Bytes :=
  nonEmpty ((s.logged.map (withoutName s.reader.name)).flatMap textLines)

/-- A reader that can open its file. -/
structure Opened (content : Bytes) (s : Source) : Prop where
  file : s.file = .ok content
  error : s.reader.error = false

theorem logRemainder_eq (s : Source) : s.logRemainder = s.logLines.2 := by
  rw [Source.logRemainder, Source.logLines]
  by_cases h : (s.reader.readLines s.file).1 = []
  · simp only [h, ne_eq, not_true, if_false, if_true]
  · simp only [h, ne_eq, not_false_iff, if_false, if_true]

/-- One read: its lines are told, and it goes on behind them. -/
theorem logLines_spec (h : Opened content s) :
    s.logLines.1 = decide (lines content s.reader.readLength ≠ []) ∧
    Opened content s.logLines.2 ∧
    s.logLines.2.reader.name = s.reader.name ∧
    s.logLines.2.reader.readLength
      = s.reader.readLength + advance content s.reader.readLength ∧
    told s.logLines.2 = told s ++ nonEmpty (textLines (lines content s.reader.readLength)) := by
  have hread : s.reader.readLines s.file
      = (prefixWithName s.reader.name (lines content s.reader.readLength),
        { s.reader with readLength := s.reader.readLength + advance content s.reader.readLength })
      := by
    rw [h.file, readLines_eq _ h.error]
  by_cases hnil : lines content s.reader.readLength = []
  · have hlog : s.logLines = (false, { s with reader := { s.reader with
        readLength := s.reader.readLength + advance content s.reader.readLength } }) := by
      rw [Source.logLines, hread]
      exact if_pos ((prefixWithName_eq_nil _ _).mpr hnil)
    rw [hlog]
    refine ⟨(decide_eq_false fun h => h hnil).symm, ⟨h.file, h.error⟩, rfl, rfl, ?_⟩
    rw [hnil]
    exact (List.append_nil _).symm
  · have hlog : s.logLines = (true, { s with
        reader := { s.reader with
          readLength := s.reader.readLength + advance content s.reader.readLength }
        logged := s.logged
          ++ [prefixWithName s.reader.name (lines content s.reader.readLength)] }) := by
      rw [Source.logLines, hread]
      exact if_neg fun h => hnil ((prefixWithName_eq_nil _ _).mp h)
    rw [hlog]
    refine ⟨(decide_eq_true hnil).symm, ⟨h.file, h.error⟩, rfl, rfl, ?_⟩
    rw [told, told, List.map_append, List.flatMap_append, nonEmpty_append, List.map_singleton,
      List.flatMap_singleton, withoutName_prefixWithName]

/-! ## Every read -/

/-- What is read is told, in the pieces of its lines, and the next window begins at
    a line or behind full windows of one. -/
structure Inv (content : Bytes) (s : Source) : Prop where
  opened : Opened content s
  le : s.reader.readLength ≤ content.length
  aligned : ∃ q, Open lf q (content.take s.reader.readLength) ∧ maxLineLength ∣ q.length
  told_eq : told s = allPieces (content.take s.reader.readLength)

theorem le_of_windowAt {r : Nat} (hw : windowAt content r = u ++ v) (hr : r ≤ content.length) :
    r + u.length ≤ content.length := by
  have hlength := length_windowAt content r
  rw [hw, List.length_append] at hlength
  omega

theorem nonEmpty_textLines_nil : nonEmpty (textLines []) = [] := rfl

/-- A read keeps it. -/
theorem Inv.logLines (h : Inv content s) : Inv content s.logLines.2 := by
  obtain ⟨-, hopened, -, hlength, htold⟩ := logLines_spec h.opened
  obtain ⟨q, hopen, hq⟩ := h.aligned
  rw [h.told_eq] at htold
  rcases window_cases _ (length_windowAt_le content s.reader.readLength) with
    ⟨u, v, hw, hv⟩ | ⟨hw, hfull⟩ | ⟨hw, hwait⟩
  · -- up to the last line end
    obtain ⟨hlines, hend⟩ := read_append hw hv
    have hadvance : advance content s.reader.readLength = (u ++ [lf]).length := by
      rw [hend, List.length_append]
      rfl
    have hw' : windowAt content s.reader.readLength = (u ++ [lf]) ++ v := by
      rw [hw, List.append_assoc]
      rfl
    have hu : u.length ≤ maxLineLength := by
      have := length_windowAt_le content s.reader.readLength
      rw [hw, List.length_append] at this
      omega
    rw [hadvance] at hlength
    rw [hlines, nonEmpty_textLines hu, ← allPieces_append hopen hq, ← allPieces_cut,
      List.append_assoc] at htold
    have htake := take_windowAt hw'
    rw [← hlength] at htake
    refine ⟨hopened, hlength ▸ le_of_windowAt hw' h.le, ⟨[], ?_, Nat.dvd_zero _⟩, ?_⟩
    · rw [htake, ← List.append_assoc]
      exact open_cut lf _
    · rw [htake, htold]
  · -- a full window of one line
    obtain ⟨hlines, hadvance⟩ := read_full hw hfull
    have hw' := (List.append_nil (windowAt content s.reader.readLength)).symm
    rw [hadvance] at hlength
    rw [hlines, nonEmpty_textLines (Nat.le_of_eq hfull), ← allPieces_append hopen hq] at htold
    have htake := take_windowAt hw'
    rw [← hlength] at htake
    refine ⟨hopened, hlength ▸ le_of_windowAt hw' h.le, ⟨_, htake ▸ hopen.append hw, ?_⟩, ?_⟩
    · rw [List.length_append, hfull]
      exact Nat.dvd_add hq (Nat.dvd_refl _)
    · rw [htake, htold]
  · -- the read has to wait
    obtain ⟨hlines, hadvance⟩ := read_wait hw hwait
    rw [hadvance, Nat.add_zero] at hlength
    rw [hlines, nonEmpty_textLines_nil, List.append_nil] at htold
    exact ⟨hopened, hlength ▸ h.le, hlength ▸ h.aligned, hlength ▸ htold⟩

/-- So does the growth of the file. -/
theorem Inv.write (h : Inv content s) (bytes : Bytes) :
    Inv (content ++ bytes) (s.write bytes) := by
  have htake : (content ++ bytes).take s.reader.readLength = content.take s.reader.readLength :=
    List.take_append_of_le_length h.le
  refine ⟨⟨?_, h.opened.error⟩, ?_, ?_, ?_⟩
  · show s.file.map _ = _
    rw [h.opened.file]
    rfl
  · rw [List.length_append]
    exact Nat.le_trans h.le (Nat.le_add_right _ _)
  · show ∃ q, Open lf q ((content ++ bytes).take s.reader.readLength) ∧ _
    rw [htake]
    exact h.aligned
  · show told s = allPieces ((content ++ bytes).take s.reader.readLength)
    rw [htake]
    exact h.told_eq

/-- A file that was not read before. -/
structure New (s : Source) : Prop where
  file : ∃ content, s.file = .ok content
  error : s.reader.error = false
  readLength : s.reader.readLength = 0
  logged : s.logged = []

theorem New.inv (h : New s) : ∃ content, Inv content s := by
  obtain ⟨content, hfile⟩ := h.file
  refine ⟨content, ⟨hfile, h.error⟩, ?_, ⟨[], ?_, Nat.dvd_zero _⟩, ?_⟩
  · rw [h.readLength]
    exact Nat.zero_le _
  · rw [h.readLength]
    exact open_nil lf
  · rw [h.readLength, told, h.logged, List.take_zero, allPieces, List.splitOn_nil,
      List.flatMap_singleton, linePieces_nil]
    rfl

/-- Every read of a file in any run keeps it. -/
theorem inv_run (l : Logger) (steps : List Step) (h : ∀ s ∈ l, ∃ content, Inv content s) :
    ∀ s ∈ run l steps, ∃ content, Inv content s := by
  induction steps generalizing l with
  | nil => exact h
  | cons step steps ih =>
      refine ih (step.apply l) ?_
      cases step with
      | write file bytes =>
          intro s hs
          obtain ⟨i, hi⟩ := List.mem_iff_getElem?.mp hs
          have hi' : (l.modify file (Source.write bytes))[i]? = some s := hi
          rw [List.getElem?_modify] at hi'
          obtain ⟨t, ht, rfl⟩ := Option.map_eq_some_iff.mp hi'
          obtain ⟨content, hinv⟩ := h t (List.mem_of_getElem? ht)
          split
          · exact ⟨_, hinv.write bytes⟩
          · exact ⟨_, hinv⟩
      | flushLines =>
          intro s hs
          obtain ⟨t, ht, rfl⟩ := List.mem_map.mp hs
          obtain ⟨content, hinv⟩ := h t ht
          exact ⟨content, hinv.logLines⟩

/-! ## How far `flush` comes -/

/-- A window ends behind its last `\n`, or where it is full without one. -/
def WindowEnd (content : Bytes) (r e : Nat) : Prop :=
  (∃ u v, windowAt content r = u ++ lf :: v ∧ lf ∉ v ∧ e = r + (u.length + 1)) ∨
  (lf ∉ windowAt content r ∧ (windowAt content r).length = maxLineLength ∧ e = r + maxLineLength)

/-- The window has only one line end, and the line in front of it is empty. -/
def Lone (content : Bytes) (r e : Nat) : Prop :=
  ∃ v, lf ∉ v ∧ (windowAt content r = lf :: v ∧ e = r + 1 ∨
    windowAt content r = cr :: lf :: v ∧ e = r + 2)

/-- The windows from a position on, up to the first one with a lone empty line. -/
inductive Reached (content : Bytes) : Nat → Nat → Prop where
  | here (r : Nat) : Reached content r r
  | next {r e t : Nat} (h : WindowEnd content r e) (hlone : ¬∃ e, Lone content r e)
      (ht : Reached content e t) : Reached content r t

theorem stripCr_eq_nil : stripCr l = [] ↔ l = [] ∨ l = [cr] := by
  constructor
  · intro h
    by_cases hlast : l.getLast? = some cr
    · obtain ⟨u, rfl⟩ := List.getLast?_eq_some_iff.mp hlast
      rw [stripCr_concat] at h
      exact Or.inr (by rw [h]; rfl)
    · exact Or.inl (stripCr_of_ne hlast ▸ h)
  · rintro (rfl | rfl)
    · rfl
    · rfl

theorem windowEnd_iff {r e : Nat} :
    WindowEnd content r e ↔ 0 < advance content r ∧ e = r + advance content r := by
  constructor
  · rintro (⟨u, v, hw, hv, rfl⟩ | ⟨hw, hfull, rfl⟩)
    · rw [(read_append hw hv).2]
      exact ⟨Nat.succ_pos _, rfl⟩
    · rw [(read_full hw hfull).2, hfull]
      exact ⟨maxLineLength_pos, rfl⟩
  · rintro ⟨hpos, rfl⟩
    rcases window_cases _ (length_windowAt_le content r) with
      ⟨u, v, hw, hv⟩ | ⟨hw, hfull⟩ | ⟨hw, hwait⟩
    · exact Or.inl ⟨u, v, hw, hv, by rw [(read_append hw hv).2]⟩
    · exact Or.inr ⟨hw, hfull, by rw [(read_full hw hfull).2, hfull]⟩
    · rw [(read_wait hw hwait).2] at hpos
      exact absurd hpos (Nat.lt_irrefl 0)

theorem lone_iff {r e : Nat} :
    Lone content r e ↔
      lines content r = [] ∧ 0 < advance content r ∧ e = r + advance content r := by
  constructor
  · rintro ⟨v, hv, ⟨hw, rfl⟩ | ⟨hw, rfl⟩⟩
    · obtain ⟨hlines, hadvance⟩ := read_append (u := []) hw hv
      rw [hadvance]
      exact ⟨hlines, Nat.succ_pos _, rfl⟩
    · obtain ⟨hlines, hadvance⟩ := read_append (u := [cr]) hw hv
      rw [hadvance]
      exact ⟨hlines, Nat.succ_pos _, rfl⟩
  · rintro ⟨hlines, hpos, rfl⟩
    rcases window_cases _ (length_windowAt_le content r) with
      ⟨u, v, hw, hv⟩ | ⟨hw, hfull⟩ | ⟨hw, hwait⟩
    · obtain ⟨hlines', hadvance⟩ := read_append hw hv
      rw [hlines', stripCr_eq_nil] at hlines
      rw [hadvance]
      rcases hlines with rfl | rfl
      · exact ⟨v, hv, Or.inl ⟨hw, rfl⟩⟩
      · exact ⟨v, hv, Or.inr ⟨hw, rfl⟩⟩
    · obtain ⟨hlines', -⟩ := read_full hw hfull
      rw [hlines', stripCr_eq_nil] at hlines
      rcases hlines with h | h
      · rw [h] at hfull
        cases hfull
      · rw [h] at hfull
        cases hfull
    · rw [(read_wait hw hwait).2] at hpos
      exact absurd hpos (Nat.lt_irrefl 0)

/-- The last line is not cut inside a window. -/
def LastWhole (content : Bytes) : Prop :=
  ∀ line ∈ (content.splitOn lf).getLast?, maxLineLength ∣ line.length

/-- After a window with a lone empty line there is at most one more. -/
def LoneLast (content : Bytes) (r : Nat) : Prop :=
  ∀ t e, Reached content r t → Lone content t e →
    e = content.length ∨ WindowEnd content e content.length

/-- The end is reached only if full windows end there. -/
theorem Inv.lastWhole (h : Inv content s) (hend : s.reader.readLength = content.length) :
    LastWhole content := by
  obtain ⟨q, ⟨hq, lines, hlines⟩, hdvd⟩ := h.aligned
  have hsplit := hlines []
  rw [List.append_nil, List.append_nil, hend, List.take_length, List.splitOn_eq_singleton hq]
    at hsplit
  intro line hline
  rw [hsplit, List.getLast?_concat] at hline
  exact Option.some.inj hline ▸ hdvd

/-- A reader that has to wait is at the end if full windows end there. -/
theorem Inv.end_of_wait (h : Inv content s)
    (hadvance : advance content s.reader.readLength = 0) (hwhole : LastWhole content) :
    s.reader.readLength = content.length := by
  obtain ⟨q, ⟨hq, lines, hlines⟩, hdvd⟩ := h.aligned
  have hle := h.le
  have hpos := maxLineLength_pos
  have hlength := length_windowAt content s.reader.readLength
  rcases window_cases _ (length_windowAt_le content s.reader.readLength) with
    ⟨u, v, hw, hv⟩ | ⟨hw, hfull⟩ | ⟨hw, hwait⟩
  · rw [(read_append hw hv).2] at hadvance
    cases hadvance
  · rw [(read_full hw hfull).2] at hadvance
    omega
  · -- the window is the rest of the last line
    have hrest : windowAt content s.reader.readLength = content.drop s.reader.readLength := by
      refine List.take_of_length_le ?_
      rw [List.length_drop]
      omega
    have hsplit := hlines (content.drop s.reader.readLength)
    rw [List.take_append_drop, ← hrest,
      List.splitOn_eq_singleton (fun hmem => (List.mem_append.mp hmem).elim hq hw)] at hsplit
    have hdvd' := hwhole (q ++ windowAt content s.reader.readLength)
      (by rw [hsplit, List.getLast?_concat]; rfl)
    rw [List.length_append] at hdvd'
    have := Nat.eq_zero_of_dvd_of_lt ((Nat.dvd_add_right hdvd).mp hdvd') hwait
    omega

theorem advance_end {r : Nat} (h : content.length ≤ r) : advance content r = 0 := by
  rw [advance, windowAt_eq_nil.mpr h]
  rfl

theorem advance_pos {r : Nat} (h : lines content r ≠ []) : 0 < advance content r := by
  rcases window_cases _ (length_windowAt_le content r) with
    ⟨u, v, hw, hv⟩ | ⟨hw, hfull⟩ | ⟨hw, hwait⟩
  · rw [(read_append hw hv).2]
    exact Nat.succ_pos _
  · rw [(read_full hw hfull).2, hfull]
    exact maxLineLength_pos
  · exact absurd (read_wait hw hwait).1 h

/-- The windows behind one that has lines decide. -/
theorem loneLast_next {r e : Nat} (h : lines content r ≠ []) (he : e = r + advance content r) :
    LoneLast content e ↔ LoneLast content r := by
  have hend : WindowEnd content r e := windowEnd_iff.mpr ⟨advance_pos h, he⟩
  have hno : ¬∃ e, Lone content r e := fun ⟨e, hlone⟩ => h (lone_iff.mp hlone).1
  constructor
  · intro hlast t e' hreach hlone
    cases hreach with
    | here => exact absurd ⟨e', hlone⟩ hno
    | next hend' _ hreach =>
        rw [(windowEnd_iff.mp hend').2, ← he] at hreach
        exact hlast t e' hreach hlone
  · exact fun hlast t e' hreach hlone => hlast t e' (.next hend hno hreach) hlone

/-- The last read in the loop gave nothing, and the remainder is read. -/
theorem end_iff (h : Inv content s) (hnil : lines content s.reader.readLength = []) :
    s.logLines.2.logLines.2.reader.readLength = content.length ↔
      LastWhole content ∧ LoneLast content s.reader.readLength := by
  obtain ⟨-, hopened, -, hlength, -⟩ := logLines_spec h.opened
  obtain ⟨-, -, -, hlength', -⟩ := logLines_spec hopened
  have hwhole : s.logLines.2.logLines.2.reader.readLength = content.length → LastWhole content :=
    h.logLines.logLines.lastWhole
  rw [hlength', hlength] at hwhole ⊢
  by_cases hadvance : advance content s.reader.readLength = 0
  · -- the reader waits, now and then
    rw [hadvance, Nat.add_zero, hadvance, Nat.add_zero] at hwhole ⊢
    refine ⟨fun hend => ⟨hwhole hend, fun t e hreach hlone => ?_⟩,
      fun hlast => h.end_of_wait hadvance hlast.1⟩
    cases hreach with
    | here => exact absurd hadvance (Nat.ne_of_gt (lone_iff.mp hlone).2.1)
    | next hend _ _ => exact absurd hadvance (Nat.ne_of_gt (windowEnd_iff.mp hend).1)
  · -- a lone empty line ended the loop
    have hlone : Lone content s.reader.readLength
        (s.reader.readLength + advance content s.reader.readLength) :=
      lone_iff.mpr ⟨hnil, Nat.pos_of_ne_zero hadvance, rfl⟩
    constructor
    · refine fun hend => ⟨hwhole hend, fun t e hreach hlone' => ?_⟩
      cases hreach with
      | here =>
          rw [(lone_iff.mp hlone').2.2]
          by_cases hzero : advance content
              (s.reader.readLength + advance content s.reader.readLength) = 0
          · rw [hzero, Nat.add_zero] at hend
            exact Or.inl hend
          · exact Or.inr (windowEnd_iff.mpr ⟨Nat.pos_of_ne_zero hzero, hend.symm⟩)
      | next _ hno _ => exact absurd ⟨_, hlone⟩ hno
    · rintro ⟨-, hlast⟩
      rcases hlast _ _ (.here _) hlone with hend | hend
      · rw [advance_end (Nat.le_of_eq hend.symm), Nat.add_zero]
        exact hend
      · exact (windowEnd_iff.mp hend).2.symm

/-- `flush` ends, and comes to the end of the file if and only if the last line is
    not cut and a lone empty line is followed by at most one window. -/
theorem logAll_spec (fuel : Nat) (h : Inv content s)
    (hfuel : content.length - s.reader.readLength < fuel) :
    ∃ s', s.logAll fuel = some s' ∧ Inv content s' ∧ s'.reader.name = s.reader.name ∧
      (s'.logLines.2.reader.readLength = content.length ↔
        LastWhole content ∧ LoneLast content s.reader.readLength) := by
  induction fuel generalizing s with
  | zero => exact absurd hfuel (Nat.not_lt_zero _)
  | succ fuel ih =>
      obtain ⟨hlogged, hopened, hname, hlength, -⟩ := logLines_spec h.opened
      have hinv := h.logLines
      have hpair : s.logLines = (s.logLines.1, s.logLines.2) := rfl
      rw [Source.logAll, hpair]
      by_cases hnil : lines content s.reader.readLength = []
      · rw [hlogged, decide_eq_false fun h => h hnil]
        exact ⟨s.logLines.2, rfl, hinv, hname, end_iff h hnil⟩
      · rw [hlogged, decide_eq_true hnil]
        have hpos := advance_pos hnil
        have hle := hinv.le
        obtain ⟨s', hs', hinv', hname', hend⟩ := ih hinv (by omega)
        exact ⟨s', hs', hinv', hname'.trans hname,
          hend.trans (and_congr_right fun _ => loneLast_next hnil hlength)⟩

/-! ## What the pieces keep -/

/-- No full window of the line ends with a `\r`, except the one in front of its
    end. -/
def NoCr (l : Bytes) : Prop :=
  ∀ k, l[chunkEnd maxLineLength k]? = some cr → chunkEnd maxLineLength k + 1 = l.length

theorem noCr_short (h : l.length ≤ maxLineLength) : NoCr l := by
  intro k hk
  have hlt := (List.getElem?_eq_some_iff.mp hk).1
  have hend := le_chunkEnd maxLineLength k
  omega

theorem noCr_long {c d : Bytes} (hc : c.length = maxLineLength) (hd : d ≠ []) :
    NoCr (c ++ d) ↔ c.getLast? ≠ some cr ∧ NoCr d := by
  have hpos := maxLineLength_pos
  have hd' := List.length_pos_iff.mpr hd
  have hzero := chunkEnd_zero hpos
  constructor
  · intro h
    refine ⟨fun hcr => ?_, fun k hk => ?_⟩
    · have := h 0 ((getElem?_chunkEnd_zero hc hpos d).trans hcr)
      rw [List.length_append] at this
      omega
    · have := h (k + 1) ((getElem?_chunkEnd_succ hc hpos d k).trans hk)
      rw [List.length_append, chunkEnd_succ hpos] at this
      omega
  · rintro ⟨hcr, hrest⟩ k hk
    cases k with
    | zero => exact absurd ((getElem?_chunkEnd_zero hc hpos d).symm.trans hk) hcr
    | succ k =>
        have := hrest k ((getElem?_chunkEnd_succ hc hpos d k).symm.trans hk)
        rw [List.length_append, chunkEnd_succ hpos]
        omega

theorem linePieces_long {c d : Bytes} (hc : c.length = maxLineLength) :
    linePieces (c ++ d) = nonEmpty [stripCr c] ++ linePieces d := by
  rw [linePieces_append ⟨1, hc.trans (Nat.mul_one _).symm⟩, linePieces_short (Nat.le_of_eq hc)]

theorem flatten_nonEmpty_singleton (l : Bytes) : (nonEmpty [l]).flatten = l := by
  rw [flatten_nonEmpty, List.flatten_singleton]

/-- Bytes get lost in the pieces exactly at such a `\r`. -/
theorem linePieces_length (l : Bytes) :
    (linePieces l).flatten.length ≤ (stripCr l).length ∧
    ((linePieces l).flatten.length = (stripCr l).length → NoCr l) := by
  induction l using chunk_induction maxLineLength_pos with
  | short l h =>
      rw [linePieces_short h, flatten_nonEmpty_singleton]
      exact ⟨Nat.le_refl _, fun _ => noCr_short h⟩
  | long c d hc hd ih =>
      obtain ⟨hle, heq⟩ := ih
      have hcle := (stripCr_sublist c).length_le
      rw [linePieces_long hc, List.flatten_append, flatten_nonEmpty_singleton,
        stripCr_append hd, List.length_append, List.length_append]
      refine ⟨by omega, fun h => (noCr_long hc hd).mpr ⟨fun hcr => ?_, heq (by omega)⟩⟩
      obtain ⟨u, rfl⟩ := List.getLast?_eq_some_iff.mp hcr
      rw [stripCr_concat, List.length_append, List.length_singleton] at h
      omega

/-- Else the pieces are the line. -/
theorem linePieces_flatten (l : Bytes) (h : NoCr l) :
    (linePieces l).flatten = stripCr l ∧
    ((stripCr l).length ≤ maxLineLength → linePieces l = nonEmpty [stripCr l]) := by
  induction l using chunk_induction maxLineLength_pos with
  | short l hl =>
      rw [linePieces_short hl, flatten_nonEmpty_singleton]
      exact ⟨rfl, fun _ => rfl⟩
  | long c d hc hd ih =>
      obtain ⟨hcr, hrest⟩ := (noCr_long hc hd).mp h
      obtain ⟨hflatten, hshort⟩ := ih hrest
      rw [linePieces_long hc, List.flatten_append, flatten_nonEmpty_singleton,
        stripCr_append hd, stripCr_of_ne hcr, hflatten]
      refine ⟨rfl, fun hle => ?_⟩
      -- behind the first window there is only the line end
      have hnil : stripCr d = [] := by
        rw [List.length_append] at hle
        exact List.length_eq_zero_iff.mp (by omega)
      rw [hshort (by rw [hnil]; exact Nat.zero_le _), hnil, List.append_nil]
      exact List.append_nil _

theorem ne_nil_of_mem_linePieces {piece : Bytes} (h : piece ∈ linePieces l) : piece ≠ [] :=
  of_decide_eq_true (List.mem_filter.mp h).2

/-- A line without such a `\r` is told in its pieces. -/
theorem cut_line (h : NoCr l) : Cut (nonEmpty [stripCr l]) (linePieces l) := by
  obtain ⟨hflatten, hshort⟩ := linePieces_flatten l h
  by_cases hnil : stripCr l = []
  · rw [hshort (by rw [hnil]; exact Nat.zero_le _), hnil]
    exact ⟨[], rfl, .nil⟩
  · have hone : nonEmpty [stripCr l] = [stripCr l] :=
      List.filter_cons_of_pos (decide_eq_true hnil)
    rw [hone] at hshort ⊢
    exact ⟨[linePieces l], List.flatten_singleton, .cons ⟨hflatten, hshort⟩ .nil⟩

theorem Cut.append {a b p q : List Bytes} (h : Cut a p) (h' : Cut b q) :
    Cut (a ++ b) (p ++ q) := by
  obtain ⟨groups, rfl, hgroups⟩ := h
  obtain ⟨groups', rfl, hgroups'⟩ := h'
  exact ⟨groups ++ groups', List.flatten_append, List.rel_append hgroups hgroups'⟩

/-- The pieces have the bytes of the lines. -/
theorem Cut.flatten {a p : List Bytes} (h : Cut a p) : p.flatten = a.flatten := by
  obtain ⟨groups, rfl, hgroups⟩ := h
  induction hgroups with
  | nil => rfl
  | cons hline _ ih =>
      rw [List.flatten_cons, List.flatten_append, ih, hline.1, List.flatten_cons]

theorem flatMap_linePieces (lines : List Bytes) :
    (lines.flatMap linePieces).flatten.length ≤ (lines.map stripCr).flatten.length ∧
    ((lines.flatMap linePieces).flatten.length = (lines.map stripCr).flatten.length →
      ∀ l ∈ lines, NoCr l) := by
  induction lines with
  | nil => exact ⟨Nat.le_refl _, fun _ l hl => by cases hl⟩
  | cons line lines ih =>
      obtain ⟨hle, heq⟩ := ih
      obtain ⟨hle', heq'⟩ := linePieces_length line
      rw [List.flatMap_cons, List.flatten_append, List.map_cons, List.flatten_cons,
        List.length_append, List.length_append]
      refine ⟨by omega, fun h l hl => ?_⟩
      rcases List.mem_cons.mp hl with rfl | hl
      · exact heq' (by omega)
      · exact heq (by omega) l hl

theorem cut_lines (lines : List Bytes) (h : ∀ l ∈ lines, NoCr l) :
    Cut (nonEmpty (lines.map stripCr)) (lines.flatMap linePieces) := by
  induction lines with
  | nil => exact ⟨[], rfl, .nil⟩
  | cons line lines ih =>
      have hsplit : nonEmpty ((line :: lines).map stripCr)
          = nonEmpty [stripCr line] ++ nonEmpty (lines.map stripCr) :=
        nonEmpty_append [stripCr line] (lines.map stripCr)
      rw [hsplit, List.flatMap_cons]
      exact (cut_line (h line List.mem_cons_self)).append
        (ih fun l hl => h l (List.mem_cons_of_mem _ hl))

/-- A last line of full windows has no `\r` at their ends. -/
def LastNoCr (l : Bytes) : Prop := ∀ k, l[chunkEnd maxLineLength k]? ≠ some cr

theorem lastNoCr_iff (h : maxLineLength ∣ l.length) :
    LastNoCr l ↔ NoCr l ∧ l.getLast? ≠ some cr := by
  constructor
  · refine fun hno => ⟨fun k hk => absurd hk (hno k), fun hlast => ?_⟩
    have hne : l ≠ [] := by
      rintro rfl
      cases hlast
    obtain ⟨k, hk⟩ := chunkEnd_of_dvd maxLineLength_pos h hne
    rw [List.getLast?_eq_getElem?, ← hk, Nat.add_sub_cancel] at hlast
    exact hno k hlast
  · rintro ⟨hno, hlast⟩ k hk
    refine hlast ?_
    rw [List.getLast?_eq_getElem?, ← hno k hk, Nat.add_sub_cancel]
    exact hk

/-- All lines are told in their pieces if and only if no `\r` gets lost. -/
theorem cut_iff (hwhole : LastWhole content) :
    Cut (nonEmpty (textLines content)) (allPieces content) ↔
      (∀ line ∈ (content.splitOn lf).dropLast, NoCr line) ∧
      ∀ line ∈ (content.splitOn lf).getLast?, LastNoCr line := by
  obtain ⟨lines, last, hsplit⟩ : ∃ lines last, content.splitOn lf = lines ++ [last] :=
    ⟨_, _, (List.dropLast_append_getLast (List.splitOn_ne_nil lf content)).symm⟩
  have hdvd : maxLineLength ∣ last.length :=
    hwhole last (by rw [hsplit, List.getLast?_concat]; rfl)
  rw [textLines, allPieces, hsplit, List.dropLast_concat, List.getLast?_concat,
    List.flatMap_append, List.flatMap_singleton, nonEmpty_append]
  show Cut (_ ++ nonEmpty [last]) _ ↔ _ ∧ ∀ line ∈ some last, LastNoCr line
  obtain ⟨hle, heq⟩ := flatMap_linePieces lines
  obtain ⟨hle', heq'⟩ := linePieces_length last
  have hstrip := (stripCr_sublist last).length_le
  constructor
  · intro hcut
    have hbytes := congrArg List.length hcut.flatten
    rw [List.flatten_append, List.flatten_append, flatten_nonEmpty, flatten_nonEmpty_singleton,
      List.length_append, List.length_append] at hbytes
    refine ⟨heq (by omega), fun line hline => ?_⟩
    obtain rfl := Option.some.inj hline
    refine (lastNoCr_iff hdvd).mpr ⟨heq' (by omega), fun hcr => ?_⟩
    obtain ⟨u, rfl⟩ := List.getLast?_eq_some_iff.mp hcr
    rw [stripCr_concat] at hle' hstrip
    rw [List.length_append, List.length_singleton] at hbytes
    omega
  · rintro ⟨hlines, hlast⟩
    obtain ⟨hno, hcr⟩ := (lastNoCr_iff hdvd).mp (hlast last rfl)
    have hcut := cut_line hno
    rw [stripCr_of_ne hcr] at hcut
    exact (cut_lines lines hlines).append hcut

/-! ## Every run -/

/-- What keeps a file whole: no `\r` at the end of a full window except in front of
    a `\n`, full windows in an unfinished last line, and at most one window behind
    a window with a lone empty line. -/
structure Keeps (content : Bytes) (r : Nat) : Prop where
  lines : ∀ line ∈ (content.splitOn lf).dropLast, NoCr line
  last : ∀ line ∈ (content.splitOn lf).getLast?, LastNoCr line
  whole : LastWhole content
  lone : LoneLast content r

/-- One file is complete after `flush` if and only if it is kept whole. -/
theorem file_flush (h : Inv content s) (fuel : Nat)
    (hfuel : content.length - s.reader.readLength < fuel) :
    ∃ s', s.logAll fuel = some s' ∧
      (Complete content s'.logRemainder ↔ Keeps content s.reader.readLength) := by
  obtain ⟨s', hs', hinv, -, hend⟩ := logAll_spec fuel h hfuel
  refine ⟨s', hs', ?_⟩
  rw [logRemainder_eq]
  have htold := hinv.logLines.told_eq
  constructor
  · rintro ⟨-, hread, hcut⟩
    obtain ⟨hwhole, hlone⟩ := hend.mp hread
    rw [hread, List.take_length] at htold
    obtain ⟨hlines, hlast⟩ := (cut_iff hwhole).mp (htold ▸ hcut)
    exact ⟨hlines, hlast, hwhole, hlone⟩
  · rintro ⟨hlines, hlast, hwhole, hlone⟩
    have hread := hend.mpr ⟨hwhole, hlone⟩
    rw [hread, List.take_length] at htold
    refine ⟨hinv.logLines.opened.file, hread, ?_⟩
    have hcut := (cut_iff hwhole).mpr ⟨hlines, hlast⟩
    rw [← htold] at hcut
    exact hcut

theorem forall₂_getElem? {R : Source → Source → Prop} {l l' : Logger} (h : List.Forall₂ R l l')
    {i : Nat} (hs : l[i]? = some s) (hs' : l'[i]? = some s') : R s s' := by
  induction h generalizing i with
  | nil => cases hs
  | cons hR _ ih =>
      cases i with
      | zero =>
          rw [← Option.some.inj hs, ← Option.some.inj hs']
          exact hR
      | succ i => exact ih hs hs'

/-- A file before and after the loops of `flush`. -/
def Flushed (s s' : Source) : Prop :=
  ∃ content, s.file = .ok content ∧
    (Complete content s'.logRemainder ↔ Keeps content s.reader.readLength)

theorem flush_files (l : Logger) (h : ∀ s ∈ l, ∃ content, Inv content s) :
    ∃ bound, ∀ fuel, bound ≤ fuel →
      ∃ l', logAllFiles fuel l = some l' ∧ List.Forall₂ Flushed l l' := by
  induction l with
  | nil => exact ⟨0, fun fuel _ => ⟨[], rfl, .nil⟩⟩
  | cons s l ih =>
      obtain ⟨bound, hbound⟩ := ih fun s hs => h s (List.mem_cons_of_mem _ hs)
      obtain ⟨content, hinv⟩ := h s List.mem_cons_self
      refine ⟨max bound (content.length + 1), fun fuel hfuel => ?_⟩
      obtain ⟨l', hl', hall⟩ := hbound fuel (by omega)
      obtain ⟨s', hs', hiff⟩ := file_flush hinv fuel (by omega)
      refine ⟨s' :: l', ?_, .cons ⟨content, hinv.opened.file, hiff⟩ hall⟩
      rw [logAllFiles, hs', hl']
      rfl

/-- In every run, `flush` ends, and a file is then in the log, and read, if and only
    if it is kept whole. -/
theorem flush_complete_iff (l : Logger) (steps : List Step) (hnew : ∀ s ∈ l, New s) :
    ∃ fuel l', flush fuel (run l steps) = some l' ∧ l'.length = (run l steps).length ∧
      ∀ (i : Nat) (s s' : Source), (run l steps)[i]? = some s → l'[i]? = some s' →
        ∃ content, s.file = .ok content ∧
          (Complete content s' ↔ Keeps content s.reader.readLength) := by
  obtain ⟨bound, hbound⟩ := flush_files (run l steps)
    (inv_run l steps fun s hs => (hnew s hs).inv)
  obtain ⟨l', hl', hall⟩ := hbound bound (Nat.le_refl _)
  refine ⟨bound, l'.map Source.logRemainder, ?_, ?_, fun i s s' hs hs' => ?_⟩
  · rw [flush, hl']
    rfl
  · rw [List.length_map, hall.length_eq]
  · rw [List.getElem?_map] at hs'
    obtain ⟨t, ht, rfl⟩ := Option.map_eq_some_iff.mp hs'
    exact forall₂_getElem? hall hs ht

/-- `abc\n` is written to stdout and read. -/
theorem flush_complete_iff_abc :
    ∃ fuel l', flush fuel (run [⟨⟨[], 0, false⟩, .ok [], []⟩] [.write 0 [97, 98, 99, 10]]) = some l' ∧
      l'.length = (run [⟨⟨[], 0, false⟩, .ok [], []⟩] [.write 0 [97, 98, 99, 10]]).length ∧
      ∀ (i : Nat) (s s' : Source),
        (run [⟨⟨[], 0, false⟩, .ok [], []⟩] [.write 0 [97, 98, 99, 10]])[i]? = some s →
        l'[i]? = some s' →
        ∃ content, s.file = .ok content ∧
          (Complete content s' ↔ Keeps content s.reader.readLength) := by
  refine flush_complete_iff _ _ fun s hs => ?_
  rw [List.mem_singleton.mp hs]
  exact ⟨⟨[], rfl⟩, rfl, rfl, rfl⟩

/-- The last line `abc` without a line end is not logged. -/
theorem unfinished_lost :
    ¬∀ (l : Logger) (steps : List Step), (∀ s ∈ l, New s) →
      ∃ fuel l', flush fuel (run l steps) = some l' ∧
        ∀ s' ∈ l', ∃ content, Complete content s' := by
  intro h
  obtain ⟨fuel, l', hflush, hall⟩ := h [⟨⟨[], 0, false⟩, .ok [97, 98, 99], []⟩] [] fun s hs => by
    rw [List.mem_singleton.mp hs]
    exact ⟨⟨[97, 98, 99], rfl⟩, rfl, rfl, rfl⟩
  cases fuel with
  | zero => cases hflush
  | succ fuel =>
      obtain rfl : [⟨⟨[], 0, false⟩, .ok [97, 98, 99], []⟩] = l' := Option.some.inj hflush
      obtain ⟨content, hfile, hread, -⟩ := hall _ List.mem_cons_self
      obtain rfl : [97, 98, 99] = content := Except.ok.inj hfile
      cases hread

end FileLogger
