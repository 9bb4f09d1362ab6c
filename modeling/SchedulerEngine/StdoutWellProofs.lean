import Mathlib.Algebra.Ring.Nat
import Mathlib.Logic.Function.Basic
import SchedulerEngine.JavaLinesProofs

/-! # `StdoutStderrWell`

    The task server polls the stdout and stderr files of a task while they grow, and
    gives the lines that arrived to the log, batch by batch. -/

namespace StdoutWell

open JavaLines

inductive StdoutStderrType where
  | stdout
  | stderr
deriving DecidableEq

open StdoutStderrType

/-- The files that `createStdFiles` makes. -/
structure StdFiles (Path : Type) where
  path : StdoutStderrType → Path
  distinct : path stderr ≠ path stdout

/-- The length in UTF-16, and the line end. -/
def lineWeight (line : Text) : Nat := (line.map fun c => if c.toNat < 65536 then 1 else 2).sum + 1

def weight (batch : List Text) : Nat := (batch.map lineWeight).sum

/-! ## `LineBatchCollector` -/

/-- The loop `continue`. -/
def nextBatch (threshold size : Nat) (r : Reader) : List Text × Reader :=
  match _h : r.readLine with
  | (none, r') => ([], r')
  | (some line, r') =>
      if size + lineWeight line < threshold then
        let (batch, r'') := nextBatch threshold (size + lineWeight line) r'
        (line :: batch, r'')
      else ([line], r')
termination_by r.rest.length
decreasing_by exact readLine_lt _h

/-- How many lines make the first batch. -/
def batchSize (threshold : Nat) : Nat → List Text → Nat
  | _, [] => 0
  | size, line :: lines =>
      if size + lineWeight line < threshold then
        batchSize threshold (size + lineWeight line) lines + 1
      else 1

variable {threshold size : Nat} {r r' : Reader} {line : Text}

theorem lines_atEnd (r : Reader) : r.atEnd.lines = [] := rfl

theorem atEnd_atEnd (r : Reader) : r.atEnd.atEnd = r.atEnd := rfl

theorem nextBatch_none (h : r.readLine = (none, r')) : nextBatch threshold size r = ([], r') := by
  rw [nextBatch]
  split
  · rename_i heq
    rw [h] at heq
    cases heq
    rfl
  · rename_i heq
    rw [h] at heq
    cases heq

theorem nextBatch_some (h : r.readLine = (some line, r')) :
    nextBatch threshold size r =
      if size + lineWeight line < threshold then
        (line :: (nextBatch threshold (size + lineWeight line) r').1,
          (nextBatch threshold (size + lineWeight line) r').2)
      else ([line], r') := by
  rw [nextBatch]
  split
  · rename_i heq
    rw [h] at heq
    cases heq
  · rename_i heq
    rw [h] at heq
    cases heq
    rfl

/-- A batch: the first lines, as many as make the threshold, or all that arrived. -/
structure IsBatch (threshold size : Nat) (r : Reader) (batch : List Text) (r' : Reader) : Prop where
  lines : r.lines = batch ++ r'.lines
  atEnd : r'.atEnd = r.atEnd
  full : batch = [] ∨ size + weight batch < threshold → r' = r.atEnd
  lt : batch ≠ [] → r'.rest.length < r.rest.length
  length : batch.length = batchSize threshold size r.lines

theorem nextBatch_spec (threshold size : Nat) (r : Reader) :
    IsBatch threshold size r (nextBatch threshold size r).1 (nextBatch threshold size r).2 := by
  induction hlength : r.rest.length using Nat.strongRecOn generalizing r size with
  | ind n ih =>
      rcases readLine_spec r with ⟨hnil, hread⟩ | ⟨line, r', hread, hlines, hend, hlt⟩
      · rw [nextBatch_none hread]
        refine ⟨hnil, rfl, fun _ => rfl, fun h => absurd rfl h, ?_⟩
        rw [hnil]
        rfl
      · rw [nextBatch_some hread]
        by_cases hsize : size + lineWeight line < threshold
        · have hbatch := ih r'.rest.length (hlength ▸ hlt) (size + lineWeight line) r' rfl
          rw [if_pos hsize]
          refine ⟨?_, hbatch.atEnd.trans hend, ?_, fun _ => ?_, ?_⟩
          · rw [hlines, hbatch.lines]
            rfl
          · rintro (h | h)
            · exact absurd h (List.cons_ne_nil _ _)
            · rw [weight, List.map_cons, List.sum_cons, ← Nat.add_assoc] at h
              exact (hbatch.full (Or.inr h)).trans hend
          · by_cases hnil : (nextBatch threshold (size + lineWeight line) r').1 = []
            · rw [hbatch.full (Or.inl hnil)]
              exact Nat.lt_of_le_of_lt (Nat.zero_le _) hlt
            · exact Nat.lt_trans (hbatch.lt hnil) hlt
          · rw [hlines, batchSize, if_pos hsize, List.length_cons, hbatch.length]
        · rw [if_neg hsize]
          refine ⟨hlines, hend, ?_, fun _ => hlt, ?_⟩
          · rintro (h | h)
            · exact absurd h (List.cons_ne_nil _ _)
            · exact absurd h hsize
          · rw [hlines, batchSize, if_neg hsize]
            rfl

/-- The iterator of `nextBatchIterator`, to its end. -/
def batches (threshold : Nat) (r : Reader) : List (List Text) × Reader :=
  match _h : nextBatch threshold 0 r with
  | ([], r') => ([], r')
  | (line :: lines, r') =>
      let (rest, r'') := batches threshold r'
      ((line :: lines) :: rest, r'')
termination_by r.rest.length
decreasing_by
  have hbatch := nextBatch_spec threshold 0 r
  rw [_h] at hbatch
  exact hbatch.lt (List.cons_ne_nil _ _)

/-- Every batch has lines, and every one but the last has the threshold. -/
structure WellBatched (threshold : Nat) (bs : List (List Text)) : Prop where
  nonempty : ∀ batch ∈ bs, batch ≠ []
  full : ∀ batch ∈ bs.dropLast, threshold ≤ weight batch

/-- One iterator: all lines that arrived, in batches. -/
structure IsPoll (threshold : Nat) (r : Reader) (bs : List (List Text)) (r' : Reader) : Prop where
  flatten : bs.flatten = r.lines
  atEnd : r' = r.atEnd
  wellBatched : WellBatched threshold bs
  first : bs.head?.map List.length
    = if r.lines = [] then none else some (batchSize threshold 0 r.lines)

theorem batches_spec (threshold : Nat) (r : Reader) :
    IsPoll threshold r (batches threshold r).1 (batches threshold r).2 := by
  induction hlength : r.rest.length using Nat.strongRecOn generalizing r with
  | ind n ih =>
      have hbatch := nextBatch_spec threshold 0 r
      rw [batches]
      split
      · rename_i r' heq
        rw [heq] at hbatch
        have hend : r' = r.atEnd := hbatch.full (Or.inl rfl)
        have hnil : r.lines = [] := by
          rw [hbatch.lines, hend]
          rfl
        refine ⟨hnil.symm, hend, ⟨fun b hb => ?_, fun b hb => ?_⟩, (if_pos hnil).symm⟩
        · cases hb
        · cases hb
      · rename_i line lines r' heq
        rw [heq] at hbatch
        have hlt := hbatch.lt (List.cons_ne_nil _ _)
        obtain ⟨hflatten, hend, ⟨hnonempty, hfull⟩, -⟩ := ih r'.rest.length (hlength ▸ hlt) r' rfl
        have hne : r.lines ≠ [] := by
          rw [hbatch.lines]
          exact List.cons_ne_nil _ _
        refine ⟨?_, hend.trans hbatch.atEnd, ⟨fun b hb => ?_, fun b hb => ?_⟩, ?_⟩
        · show (line :: lines) ++ (batches threshold r').1.flatten = _
          rw [hflatten, hbatch.lines]
        · rcases List.mem_cons.mp hb with rfl | hb
          · exact List.cons_ne_nil _ _
          · exact hnonempty b hb
        · have hb : b ∈ ((line :: lines) :: (batches threshold r').1).dropLast := hb
          by_cases hrest : (batches threshold r').1 = []
          · rw [hrest] at hb
            cases hb
          · rw [List.dropLast_cons_of_ne_nil hrest] at hb
            rcases List.mem_cons.mp hb with rfl | hb
            · by_contra hweight
              -- all lines are in the batch
              have hatEnd : r' = r.atEnd := by
                refine hbatch.full (Or.inr ?_)
                show 0 + weight (line :: lines) < threshold
                omega
              rw [hatEnd, lines_atEnd] at hflatten
              obtain ⟨b, hb⟩ := List.exists_mem_of_ne_nil _ hrest
              exact hnonempty b (hatEnd ▸ hb) (List.flatten_eq_nil_iff.mp hflatten b (hatEnd ▸ hb))
            · exact hfull b hb
        · rw [if_neg hne, ← hbatch.length]
          rfl

/-! ## `StdoutStderrWell` -/

structure FirstStdoutLineCollector where
  stdoutLineNr : Nat
  firstStdoutLine : Text

/-- Windows stdout may start with an empty first line. -/
def maxLineNr (isWindows : Bool) : Nat := if isWindows = true then 2 else 1

def FirstStdoutLineCollector.apply (isWindows : Bool) (c : FirstStdoutLineCollector)
    (isStdout : Prop) [Decidable isStdout] (line : Text) : FirstStdoutLineCollector :=
  if c.firstStdoutLine = [] then
    if isStdout then
      if c.stdoutLineNr + 1 ≤ maxLineNr isWindows then ⟨c.stdoutLineNr + 1, line⟩
      else { c with stdoutLineNr := c.stdoutLineNr + 1 }
    else c
  else c

/-- How far a file is read. -/
structure FileLineCollector where
  position : Nat
  skipLf : Bool

/-- The well, the files that it reads, and what it gave to the output. -/
structure Well (Path : Type) where
  stdFiles : StdFiles Path
  isWindows : Bool
  batchThreshold : Nat
  files : Path → Text
  collector : StdoutStderrType → FileLineCollector
  outputs : List (StdoutStderrType × List Text)
  first : FirstStdoutLineCollector

variable {Path : Type} [DecidableEq Path]

def Well.new (stdFiles : StdFiles Path) (isWindows : Bool) (batchThreshold : Nat)
    (files : Path → Text) : Well Path :=
  ⟨stdFiles, isWindows, batchThreshold, files, fun _ => ⟨0, false⟩, [], ⟨0, []⟩⟩

namespace Well

/-- The file of a type. -/
def content (w : Well Path) (typ : StdoutStderrType) : Text := w.files (w.stdFiles.path typ)

def reader (w : Well Path) (typ : StdoutStderrType) : Reader :=
  ⟨(w.collector typ).skipLf, (w.content typ).drop (w.collector typ).position⟩

def batchArrived (typ : StdoutStderrType) (w : Well Path) (batch : List Text) : Well Path :=
  { w with
    outputs := w.outputs ++ [(typ, batch)]
    first := w.first.apply w.isWindows (w.stdFiles.path typ = w.stdFiles.path stdout)
      (batch.headD []) }

/-- One file of the loop of `apply`. -/
def collect (typ : StdoutStderrType) (w : Well Path) : Well Path :=
  let (bs, r) := batches w.batchThreshold (w.reader typ)
  let w' := { w with
    collector := Function.update w.collector typ
      ⟨(w.content typ).length - r.rest.length, r.skipLf⟩ }
  bs.foldl (batchArrived typ) w'

def apply (w : Well Path) : Well Path := collect stderr (collect stdout w)

/-- What one poll gives for a file. -/
def poll (w : Well Path) (typ : StdoutStderrType) : List (List Text) :=
  (batches w.batchThreshold (w.reader typ)).1

/-- The batches that were given for a file. -/
def batchesOf (w : Well Path) (typ : StdoutStderrType) : List (List Text) :=
  (w.outputs.filter fun o => o.1 = typ).map fun o => o.2

end Well

inductive Step (Path : Type) where
  /-- text at the end of a file -/
  | append (file : Path) (text : Text)
  | apply

def Step.run (w : Well Path) : Step Path → Well Path
  | .append file text => { w with files := Function.update w.files file (w.files file ++ text) }
  | .apply => w.apply

def run (w : Well Path) (steps : List (Step Path)) : Well Path := steps.foldl Step.run w

variable {w : Well Path} {typ : StdoutStderrType}

/-! ## One poll -/

/-- The first line that is told, from the first lines of the batches. -/
def firstOf (isWindows : Bool) (bs : List (List Text)) (c : FirstStdoutLineCollector) :
    FirstStdoutLineCollector :=
  bs.foldl (fun c batch => c.apply isWindows True (batch.headD [])) c

theorem foldl_batchArrived (typ : StdoutStderrType) (bs : List (List Text)) (w : Well Path) :
    bs.foldl (Well.batchArrived typ) w =
      { w with
        outputs := w.outputs ++ bs.map fun batch => (typ, batch)
        first := bs.foldl (fun c batch => c.apply w.isWindows
          (w.stdFiles.path typ = w.stdFiles.path stdout) (batch.headD [])) w.first } := by
  induction bs generalizing w with
  | nil =>
      rw [List.map_nil, List.append_nil]
      rfl
  | cons b bs ih =>
      rw [List.foldl_cons, ih]
      show Well.mk _ _ _ _ _ ((w.outputs ++ [(typ, b)]) ++ _) _ = _
      rw [List.append_assoc]
      rfl

theorem foldl_stderr (bs : List (List Text)) (isWindows : Bool) (isStdout : Prop)
    [Decidable isStdout] (h : ¬isStdout) (c : FirstStdoutLineCollector) :
    bs.foldl (fun c batch => c.apply isWindows isStdout (batch.headD [])) c = c := by
  induction bs generalizing c with
  | nil => rfl
  | cons b bs ih =>
      rw [List.foldl_cons, ih, FirstStdoutLineCollector.apply, if_neg h]
      exact ite_self c

theorem foldl_stdout (bs : List (List Text)) (isWindows : Bool) (isStdout : Prop)
    [Decidable isStdout] (h : isStdout) (c : FirstStdoutLineCollector) :
    bs.foldl (fun c batch => c.apply isWindows isStdout (batch.headD [])) c
      = firstOf isWindows bs c := by
  induction bs generalizing c with
  | nil => rfl
  | cons b bs ih =>
      rw [List.foldl_cons, ih, firstOf, firstOf, List.foldl_cons,
        FirstStdoutLineCollector.apply, FirstStdoutLineCollector.apply, if_pos h, if_pos trivial]

/-- All that arrived is read, and given in batches. -/
theorem collect_eq (typ : StdoutStderrType) (w : Well Path) :
    w.collect typ =
      { w with
        collector := Function.update w.collector typ
          ⟨(w.content typ).length, (w.reader typ).endSkip⟩
        outputs := w.outputs ++ (w.poll typ).map fun batch => (typ, batch)
        first := if typ = stdout then firstOf w.isWindows (w.poll typ) w.first else w.first } := by
  have hend := (batches_spec w.batchThreshold (w.reader typ)).atEnd
  show (w.poll typ).foldl (Well.batchArrived typ) { w with
    collector := Function.update w.collector typ
      ⟨(w.content typ).length - (batches w.batchThreshold (w.reader typ)).2.rest.length,
        (batches w.batchThreshold (w.reader typ)).2.skipLf⟩ } = _
  rw [foldl_batchArrived, hend]
  cases typ with
  | stdout => rw [if_pos rfl, foldl_stdout _ _ _ rfl]; rfl
  | stderr => rw [if_neg (by decide), foldl_stderr _ _ _ w.stdFiles.distinct]; rfl

/-- What does not change. -/
structure Same (w w' : Well Path) : Prop where
  stdFiles : w'.stdFiles = w.stdFiles
  isWindows : w'.isWindows = w.isWindows
  batchThreshold : w'.batchThreshold = w.batchThreshold

omit [DecidableEq Path] in
theorem Same.trans {w w' w'' : Well Path} (h : Same w w') (h' : Same w' w'') : Same w w'' :=
  ⟨h'.stdFiles.trans h.stdFiles, h'.isWindows.trans h.isWindows,
    h'.batchThreshold.trans h.batchThreshold⟩

theorem batchesOf_outputs (typ : StdoutStderrType) (l : List (StdoutStderrType × List Text))
    (typ' : StdoutStderrType) (bs : List (List Text)) :
    ((l ++ bs.map fun batch => (typ', batch)).filter fun o => o.1 = typ).map (fun o => o.2)
      = (l.filter fun o => o.1 = typ).map (fun o => o.2) ++ if typ' = typ then bs else [] := by
  rw [List.filter_append, List.map_append]
  congr 1
  induction bs with
  | nil => exact (ite_self _).symm
  | cons b bs ih =>
      rw [List.map_cons, List.filter_cons]
      by_cases h : typ' = typ
      · rw [if_pos h] at ih ⊢
        rw [if_pos (decide_eq_true h), List.map_cons, ih]
      · rw [if_neg h] at ih ⊢
        rw [if_neg fun hc => h (of_decide_eq_true hc), ih]

theorem collect_collector (typ : StdoutStderrType) (w : Well Path) :
    (w.collect typ).collector = Function.update w.collector typ
      ⟨(w.content typ).length, (w.reader typ).endSkip⟩ := by
  rw [collect_eq]

theorem collect_outputs (typ : StdoutStderrType) (w : Well Path) :
    (w.collect typ).outputs = w.outputs ++ (w.poll typ).map fun batch => (typ, batch) := by
  rw [collect_eq]

theorem collect_first (typ : StdoutStderrType) (w : Well Path) :
    (w.collect typ).first
      = if typ = stdout then firstOf w.isWindows (w.poll typ) w.first else w.first := by
  rw [collect_eq]

theorem collect_content (typ typ' : StdoutStderrType) (w : Well Path) :
    (w.collect typ).content typ' = w.content typ' := by
  rw [collect_eq]
  rfl

theorem collect_same (typ : StdoutStderrType) (w : Well Path) : Same w (w.collect typ) := by
  rw [collect_eq]
  exact ⟨rfl, rfl, rfl⟩

theorem collect_reader (w : Well Path) : (w.collect stdout).reader stderr = w.reader stderr := by
  have hne : stderr ≠ stdout := by decide
  rw [Well.reader, Well.reader, collect_content, collect_collector, Function.update_of_ne hne]

theorem apply_content (w : Well Path) (typ : StdoutStderrType) :
    w.apply.content typ = w.content typ := by
  rw [Well.apply, collect_content, collect_content]

theorem apply_files (w : Well Path) : w.apply.files = w.files := by
  rw [Well.apply, collect_eq, collect_eq]

theorem apply_same (w : Well Path) : Same w w.apply :=
  (collect_same stdout w).trans (collect_same stderr _)

theorem apply_collector (w : Well Path) (typ : StdoutStderrType) :
    w.apply.collector typ = ⟨(w.content typ).length, (w.reader typ).endSkip⟩ := by
  rw [Well.apply, collect_collector, collect_content, collect_reader, collect_collector]
  cases typ with
  | stdout =>
      have hne : stdout ≠ stderr := by decide
      rw [Function.update_of_ne hne, Function.update_self]
  | stderr => rw [Function.update_self]

theorem apply_batchesOf (w : Well Path) (typ : StdoutStderrType) :
    w.apply.batchesOf typ = w.batchesOf typ ++ w.poll typ := by
  have hpoll : (w.collect stdout).poll stderr = w.poll stderr := by
    rw [Well.poll, Well.poll, collect_reader, (collect_same stdout w).batchThreshold]
  rw [Well.batchesOf, Well.apply, collect_outputs, hpoll, collect_outputs, batchesOf_outputs,
    batchesOf_outputs]
  cases typ with
  | stdout => exact List.append_nil _
  | stderr => exact congrArg (· ++ w.poll stderr) (List.append_nil _)

theorem apply_first (w : Well Path) :
    w.apply.first = firstOf w.isWindows (w.poll stdout) w.first := by
  have hne : ¬stderr = stdout := by decide
  rw [Well.apply, collect_first, if_neg hne, collect_first, if_pos rfl]

/-! ## Every poll -/

/-- The lines of a file that are given, and how many lines there are too many. -/
structure Inv (w : Well Path) (typ : StdoutStderrType) (n : Nat) : Prop where
  le : (w.collector typ).position ≤ (w.content typ).length
  skip : (w.collector typ).skipLf
    = endSkip false ((w.content typ).take (w.collector typ).position)
  count : (w.batchesOf typ).flatten.length
    = (lines false ((w.content typ).take (w.collector typ).position)).length + n
  same : n = 0 → (w.batchesOf typ).flatten
    = lines false ((w.content typ).take (w.collector typ).position)

/-- Nothing new arrived, or the last line that was read is ended. -/
def CleanPoll (w : Well Path) (typ : StdoutStderrType) : Prop :=
  (w.collector typ).position = (w.content typ).length ∨
    Closed ((w.content typ).take (w.collector typ).position)

omit [DecidableEq Path] in
theorem inv_new (stdFiles : StdFiles Path) (isWindows : Bool) (batchThreshold : Nat)
    (files : Path → Text) (typ : StdoutStderrType) :
    Inv (Well.new stdFiles isWindows batchThreshold files) typ 0 :=
  ⟨Nat.zero_le _, rfl, rfl, fun _ => rfl⟩

/-- Text at the end of a file is not read yet. -/
theorem Inv.append {n : Nat} (h : Inv w typ n) (file : Path) (text : Text) :
    Inv (Step.run w (.append file text)) typ n := by
  obtain ⟨more, hmore⟩ : ∃ more, (Step.run w (.append file text)).content typ
      = w.content typ ++ more := by
    show ∃ more, Function.update w.files file (w.files file ++ text) (w.stdFiles.path typ) = _
    by_cases hfile : w.stdFiles.path typ = file
    · rw [hfile, Function.update_self]
      exact ⟨text, by rw [Well.content, hfile]⟩
    · rw [Function.update_of_ne hfile]
      exact ⟨[], (List.append_nil _).symm⟩
  have htake : ((Step.run w (.append file text)).content typ).take (w.collector typ).position
      = (w.content typ).take (w.collector typ).position := by
    rw [hmore, List.take_append_of_le_length h.le]
  refine ⟨?_, h.skip.trans (congrArg _ htake.symm), h.count.trans ?_, fun hn => (h.same hn).trans ?_⟩
  · show (w.collector typ).position ≤ _
    rw [hmore, List.length_append]
    exact Nat.le_trans h.le (Nat.le_add_right _ _)
  · rw [← htake]
    rfl
  · rw [← htake]
    rfl

/-- A poll behind a line that is not ended makes one line too many. -/
theorem Inv.apply {n : Nat} (h : Inv w typ n) :
    ∃ m, Inv w.apply typ m ∧ (m = 0 ↔ n = 0 ∧ CleanPoll w typ) := by
  have hflatten : (w.poll typ).flatten = lines (w.collector typ).skipLf
      ((w.content typ).drop (w.collector typ).position) :=
    (batches_spec w.batchThreshold (w.reader typ)).flatten
  have hbatches : (w.apply.batchesOf typ).flatten
      = (w.batchesOf typ).flatten ++ (w.poll typ).flatten := by
    rw [apply_batchesOf, List.flatten_append]
  have hall : (w.apply.content typ).take (w.apply.collector typ).position = w.content typ := by
    rw [apply_content, apply_collector, List.take_length]
  have hsplit := (List.take_append_drop (w.collector typ).position (w.content typ)).symm
  rw [h.skip] at hflatten
  -- the poll is invariant with so many lines too many
  have hinv : ∀ m, (w.apply.batchesOf typ).flatten.length
        = (lines false (w.content typ)).length + m →
      (m = 0 → (w.apply.batchesOf typ).flatten = lines false (w.content typ)) →
      Inv w.apply typ m := by
    intro m hcount hsame
    refine ⟨?_, ?_, by rw [hall]; exact hcount, by rw [hall]; exact hsame⟩
    · rw [apply_collector, apply_content]
    · rw [hall, apply_collector]
      show endSkip (w.collector typ).skipLf ((w.content typ).drop (w.collector typ).position) = _
      rw [h.skip, ← endSkip_append, List.take_append_drop]
  by_cases hclean : CleanPoll w typ
  · have hlines : lines false (w.content typ)
        = lines false ((w.content typ).take (w.collector typ).position)
          ++ (w.poll typ).flatten := by
      rw [hflatten]
      rcases hclean with hend | hclosed
      · rw [hend, List.take_length, List.drop_length]
        exact (List.append_nil _).symm
      · rw [← lines_append false hclosed, List.take_append_drop]
    refine ⟨n, hinv n ?_ fun hn => ?_, (and_iff_left hclean).symm⟩
    · rw [hbatches, hlines, List.length_append, List.length_append, h.count]
      omega
    · rw [hbatches, hlines, h.same hn]
  · obtain ⟨hend, hclosed⟩ := not_or.mp hclean
    have hrest : (w.content typ).drop (w.collector typ).position ≠ [] := by
      have hle := h.le
      rw [← List.length_pos_iff, List.length_drop]
      omega
    have hlength := length_lines_append false hclosed hrest
    rw [← hsplit, ← hflatten] at hlength
    refine ⟨n + 1, hinv (n + 1) ?_ fun hn => absurd hn (Nat.succ_ne_zero n),
      iff_of_false (Nat.succ_ne_zero n) fun hboth => hclean hboth.2⟩
    rw [hbatches, List.length_append, h.count]
    omega

/-- Every poll finds the line before ended, or nothing new. -/
def Clean (typ : StdoutStderrType) : Well Path → List (Step Path) → Prop
  | _, [] => True
  | w, .append file text :: steps => Clean typ (Step.run w (.append file text)) steps
  | w, .apply :: steps => CleanPoll w typ ∧ Clean typ w.apply steps

theorem Inv.run {n : Nat} (h : Inv w typ n) (steps : List (Step Path)) :
    ∃ m, Inv (run w steps) typ m ∧ (m = 0 ↔ n = 0 ∧ Clean typ w steps) := by
  induction steps generalizing w n with
  | nil => exact ⟨n, h, (and_iff_left trivial).symm⟩
  | cons step steps ih =>
      cases step with
      | append file text => exact ih (h.append file text)
      | apply =>
          obtain ⟨m, hm, hclean⟩ := h.apply
          obtain ⟨k, hk, hiff⟩ := ih hm
          refine ⟨k, hk, hiff.trans ?_⟩
          rw [hclean, and_assoc]
          rfl

/-! ## The first line of stdout -/

theorem firstOf_of_ne (bs : List (List Text)) (isWindows : Bool) (c : FirstStdoutLineCollector)
    (h : c.firstStdoutLine ≠ []) : firstOf isWindows bs c = c := by
  induction bs with
  | nil => rfl
  | cons b bs ih =>
      rw [firstOf, List.foldl_cons, FirstStdoutLineCollector.apply, if_neg h]
      exact ih

def firstNonEmpty (l : List Text) : Text := (l.find? (· ≠ [])).getD []

theorem firstNonEmpty_nil_cons (l : List Text) : firstNonEmpty ([] :: l) = firstNonEmpty l := rfl

theorem firstNonEmpty_cons (h : line ≠ []) (l : List Text) : firstNonEmpty (line :: l) = line := by
  have hfind : (line :: l).find? (· ≠ []) = some line := by simp [h]
  rw [firstNonEmpty, hfind]
  rfl

theorem firstNonEmpty_singleton (line : Text) : firstNonEmpty [line] = line := by
  by_cases h : line = []
  · rw [h]
    rfl
  · exact firstNonEmpty_cons h []

/-- The first line that is not empty, of the first lines of so many batches. -/
theorem firstOf_eq (bs : List (List Text)) (isWindows : Bool) (nr : Nat) :
    (firstOf isWindows bs ⟨nr, []⟩).firstStdoutLine
      = firstNonEmpty ((bs.map fun b => b.headD []).take (maxLineNr isWindows - nr)) := by
  induction bs generalizing nr with
  | nil =>
      rw [List.map_nil, List.take_nil]
      rfl
  | cons b bs ih =>
      rw [firstOf, List.foldl_cons, FirstStdoutLineCollector.apply, if_pos rfl, if_pos trivial]
      by_cases hnr : nr + 1 ≤ maxLineNr isWindows
      · have hmore : maxLineNr isWindows - nr = maxLineNr isWindows - (nr + 1) + 1 := by omega
        rw [if_pos hnr, List.map_cons, hmore, List.take_succ_cons]
        by_cases hb : b.headD [] = []
        · rw [hb, firstNonEmpty_nil_cons]
          exact ih (nr + 1)
        · rw [firstNonEmpty_cons hb]
          exact congrArg _ (firstOf_of_ne bs isWindows ⟨nr + 1, b.headD []⟩ hb)
      · have hzero : maxLineNr isWindows - nr = 0 := by omega
        have hzero' : maxLineNr isWindows - (nr + 1) = 0 := by omega
        have hrest := ih (nr + 1)
        rw [hzero', List.take_zero] at hrest
        rw [if_neg hnr, hzero, List.take_zero]
        exact hrest

/-- The second batch begins behind the lines of the first one. -/
def secondBegin (lines : List Text) (n : Option Nat) : Text :=
  (n.bind fun n => lines[n]?).getD []

/-- On Windows, an empty first line is replaced by the first line of the second
    batch. -/
theorem firstOf_flatten (bs : List (List Text)) (h : ∀ b ∈ bs, b ≠ []) (isWindows : Bool) :
    (firstOf isWindows bs ⟨0, []⟩).firstStdoutLine
      = if isWindows = true ∧ bs.flatten.head? = some [] then
          secondBegin bs.flatten (bs.head?.map List.length)
        else bs.flatten.head?.getD [] := by
  rw [firstOf_eq]
  cases bs with
  | nil =>
      rw [if_neg fun hc => by cases hc.2]
      cases isWindows with
      | true => rfl
      | false => rfl
  | cons b bs =>
      obtain ⟨line, rest, rfl⟩ := List.exists_cons_of_ne_nil (h b List.mem_cons_self)
      cases isWindows with
      | false =>
          rw [if_neg fun hc => Bool.false_ne_true hc.1]
          exact firstNonEmpty_singleton line
      | true =>
          by_cases hline : line = []
          · subst hline
            rw [if_pos ⟨rfl, rfl⟩]
            show firstNonEmpty ([] :: (bs.map fun b => b.headD []).take 1) = _
            rw [firstNonEmpty_nil_cons]
            have hbegin : secondBegin (([] :: rest) :: bs).flatten
                ((([] :: rest) :: bs).head?.map List.length) = bs.flatten.head?.getD [] := by
              show ((([] :: rest) ++ bs.flatten)[([] :: rest).length]?).getD [] = _
              rw [List.getElem?_append_right (Nat.le_refl _), Nat.sub_self,
                List.head?_eq_getElem?]
            rw [hbegin]
            cases bs with
            | nil => rfl
            | cons b bs =>
                obtain ⟨line, rest', rfl⟩ := List.exists_cons_of_ne_nil
                  (h b (List.mem_cons_of_mem _ List.mem_cons_self))
                exact firstNonEmpty_singleton line
          · have hhead : ¬(true = true ∧ ((line :: rest) :: bs).flatten.head? = some []) :=
              fun hc => hline (Option.some.inj hc.2)
            rw [if_neg hhead]
            show firstNonEmpty (line :: (bs.map fun b => b.headD []).take 1) = line
            exact firstNonEmpty_cons hline _

/-- What is told is told from the batches. -/
structure FirstInv (w : Well Path) : Prop where
  first : w.first = firstOf w.isWindows (w.batchesOf stdout) ⟨0, []⟩
  nonempty : ∀ b ∈ w.batchesOf stdout, b ≠ []

theorem FirstInv.apply (h : FirstInv w) : FirstInv w.apply := by
  refine ⟨?_, fun b hb => ?_⟩
  · rw [apply_first, apply_batchesOf, (apply_same w).isWindows, h.first, firstOf, firstOf, firstOf,
      List.foldl_append]
  · rw [apply_batchesOf] at hb
    rcases List.mem_append.mp hb with hb | hb
    · exact h.nonempty b hb
    · exact (batches_spec w.batchThreshold (w.reader stdout)).wellBatched.nonempty b hb

theorem run_same (w : Well Path) (steps : List (Step Path)) : Same w (run w steps) := by
  induction steps generalizing w with
  | nil => exact ⟨rfl, rfl, rfl⟩
  | cons step steps ih =>
      refine Same.trans ?_ (ih (step.run w))
      cases step with
      | append file text => exact ⟨rfl, rfl, rfl⟩
      | apply => exact apply_same w

theorem FirstInv.run (h : FirstInv w) (steps : List (Step Path)) : FirstInv (run w steps) := by
  induction steps generalizing w with
  | nil => exact h
  | cons step steps ih =>
      cases step with
      | append file text => exact ih ⟨h.first, h.nonempty⟩
      | apply => exact ih h.apply

/-- What the first poll sees that sees something of stdout. -/
def firstSeen : Well Path → List (Step Path) → Text
  | _, [] => []
  | w, .append file text :: steps => firstSeen (Step.run w (.append file text)) steps
  | w, .apply :: steps =>
      if w.content stdout = [] then firstSeen w.apply steps else w.content stdout

theorem run_batchesOf (w : Well Path) (steps : List (Step Path)) (typ : StdoutStderrType) :
    ∃ more, (run w steps).batchesOf typ = w.batchesOf typ ++ more := by
  induction steps generalizing w with
  | nil => exact ⟨[], (List.append_nil _).symm⟩
  | cons step steps ih =>
      obtain ⟨more, hmore⟩ := ih (step.run w)
      cases step with
      | append file text => exact ⟨more, hmore⟩
      | apply =>
          refine ⟨w.poll typ ++ more, ?_⟩
          rw [← List.append_assoc, ← apply_batchesOf]
          exact hmore

/-- Nothing of stdout was seen. -/
structure Untouched (w : Well Path) : Prop where
  position : (w.collector stdout).position = 0
  skipLf : (w.collector stdout).skipLf = false
  noBatch : w.batchesOf stdout = []

omit [DecidableEq Path] in
theorem Untouched.reader (h : Untouched w) : w.reader stdout = ⟨false, w.content stdout⟩ := by
  rw [Well.reader, h.position, h.skipLf, List.drop_zero]

/-- The first batch comes from what was seen first. -/
theorem Untouched.head (h : Untouched w) (steps : List (Step Path)) :
    ((run w steps).batchesOf stdout).head?.map List.length
      = if firstSeen w steps = [] then none
        else some (batchSize w.batchThreshold 0 (lines false (firstSeen w steps))) := by
  induction steps generalizing w with
  | nil =>
      rw [firstSeen, if_pos rfl]
      show (w.batchesOf stdout).head?.map List.length = none
      rw [h.noBatch]
      rfl
  | cons step steps ih =>
      cases step with
      | append file text => exact ih ⟨h.position, h.skipLf, h.noBatch⟩
      | apply =>
          have hpoll := batches_spec w.batchThreshold (w.reader stdout)
          rw [firstSeen]
          by_cases hnil : w.content stdout = []
          · have hreader : w.reader stdout = ⟨false, []⟩ := by rw [h.reader, hnil]
            have hnone : w.poll stdout = [] := by
              by_contra hne
              obtain ⟨b, hb⟩ := List.exists_mem_of_ne_nil _ hne
              have hflatten := hpoll.flatten
              rw [hreader] at hflatten
              exact hpoll.wellBatched.nonempty b hb
                (List.flatten_eq_nil_iff.mp hflatten b (hreader ▸ hb))
            rw [if_pos hnil]
            have huntouched : Untouched w.apply := by
              refine ⟨?_, ?_, ?_⟩
              · rw [apply_collector, hnil]
                rfl
              · rw [apply_collector, hreader]
                rfl
              · rw [apply_batchesOf, h.noBatch, hnone]
                rfl
            rw [← (apply_same w).batchThreshold]
            exact ih huntouched
          · rw [if_neg hnil, if_neg hnil]
            obtain ⟨more, hmore⟩ := run_batchesOf w.apply steps stdout
            have hrun : (run w (.apply :: steps)).batchesOf stdout = w.poll stdout ++ more := by
              refine hmore.trans ?_
              rw [apply_batchesOf, h.noBatch]
              rfl
            have hlines : ¬(w.reader stdout).lines = [] := by
              rw [h.reader]
              exact lines_ne_nil hnil
            have hfirst := hpoll.first
            rw [if_neg hlines, h.reader] at hfirst
            rw [hrun, List.head?_append]
            show ((batches w.batchThreshold (w.reader stdout)).1.head?.or more.head?).map _ = _
            rw [h.reader]
            cases hhead : (batches w.batchThreshold ⟨false, w.content stdout⟩).1.head? with
            | none =>
                rw [hhead] at hfirst
                cases hfirst
            | some b =>
                rw [hhead] at hfirst
                exact hfirst

/-! ## Every run -/

/-- The first line of stdout if the files are read once. -/
def firstOnce (w : Well Path) : Text :=
  (Well.new w.stdFiles w.isWindows w.batchThreshold w.files).apply.first.firstStdoutLine

/-- The output is logged line by line: after the last poll, the lines of the files are
    given, in order, in batches, and the first line of stdout is told as if all had
    been read once. -/
structure Logged (w : Well Path) (steps : List (Step Path)) : Prop where
  lines : ∀ typ, ((run w steps).apply.batchesOf typ).flatten
    = lines false ((run w steps).apply.content typ)
  batches : ∀ before after typ, steps ++ [.apply] = before ++ .apply :: after →
    WellBatched w.batchThreshold ((run w before).poll typ)
  first : (run w steps).apply.first.firstStdoutLine = firstOnce (run w steps).apply

/-- On Windows, where the first line is empty: the line behind the first batch is the
    same, whether all is read once or in polls. -/
def FirstKept (w : Well Path) (steps : List (Step Path)) : Prop :=
  w.isWindows = true →
  (lines false ((run w steps).content stdout)).head? = some [] →
  secondBegin (lines false ((run w steps).content stdout))
      (some (batchSize w.batchThreshold 0 (lines false (firstSeen w (steps ++ [.apply])))))
    = secondBegin (lines false ((run w steps).content stdout))
      (some (batchSize w.batchThreshold 0 (lines false ((run w steps).content stdout))))

theorem run_concat (w : Well Path) (steps : List (Step Path)) :
    run w (steps ++ [.apply]) = (run w steps).apply := by
  rw [run, List.foldl_append]
  rfl

/-- The lines are given if and only if every poll was clean. -/
theorem lines_iff {n : Nat} (h : Inv w typ n) (steps : List (Step Path)) :
    ((run w steps).apply.batchesOf typ).flatten = lines false ((run w steps).apply.content typ) ↔
      n = 0 ∧ Clean typ w (steps ++ [.apply]) := by
  obtain ⟨m, hm, hiff⟩ := h.run (steps ++ [.apply])
  rw [run_concat] at hm
  have hcount := hm.count
  have hsame := hm.same
  rw [apply_collector, apply_content, List.take_length] at hcount hsame
  rw [← hiff, apply_content]
  constructor
  · intro heq
    rw [heq] at hcount
    omega
  · exact hsame

/-- With all lines given, the first line is kept if and only if the line behind the
    first batch is. -/
theorem first_iff (hfirst : FirstInv w) (huntouched : Untouched w) (steps : List (Step Path))
    (hlines : ((run w steps).apply.batchesOf stdout).flatten
      = lines false ((run w steps).content stdout)) :
    (run w steps).apply.first.firstStdoutLine = firstOnce (run w steps).apply ↔
      FirstKept w steps := by
  have hsame := (run_same w steps).trans (apply_same (run w steps))
  have hrun := hfirst.run (steps ++ [.apply])
  have hhead := huntouched.head (steps ++ [.apply])
  rw [run_concat] at hrun hhead
  -- all is read once
  have hpoll := batches_spec (run w steps).apply.batchThreshold
    ⟨false, (run w steps).content stdout⟩
  have honce : firstOnce (run w steps).apply
      = (firstOf (run w steps).apply.isWindows (batches (run w steps).apply.batchThreshold
          ⟨false, (run w steps).content stdout⟩).1 ⟨0, []⟩).firstStdoutLine := by
    rw [firstOnce, apply_first, ← apply_content]
    rfl
  have hread : Reader.lines ⟨false, (run w steps).content stdout⟩
      = lines false ((run w steps).content stdout) := rfl
  rw [honce, hrun.first, firstOf_flatten _ hrun.nonempty,
    firstOf_flatten _ hpoll.wellBatched.nonempty, hlines, hpoll.flatten, hhead, hpoll.first,
    hread, hsame.isWindows, hsame.batchThreshold]
  by_cases hcond : w.isWindows = true ∧
      (lines false ((run w steps).content stdout)).head? = some []
  · have hne : ¬lines false ((run w steps).content stdout) = [] := by
      intro hnil
      rw [hnil] at hcond
      cases hcond.2
    have hseen : ¬firstSeen w (steps ++ [.apply]) = [] := by
      intro hnil
      rw [if_pos hnil, Option.map_eq_none_iff, List.head?_eq_none_iff] at hhead
      rw [hhead] at hlines
      exact hne hlines.symm
    rw [if_pos hcond, if_pos hcond, if_neg hseen, if_neg hne]
    exact ⟨fun heq _ _ => heq, fun hkept => hkept hcond.1 hcond.2⟩
  · rw [if_neg hcond, if_neg hcond]
    exact iff_of_true rfl fun h1 h2 => absurd ⟨h1, h2⟩ hcond

/-- The output of a task is logged line by line if and only if every poll finds the
    line before ended, or nothing new, and the line behind the first batch is kept. -/
theorem logged_iff (stdFiles : StdFiles Path) (isWindows : Bool) (batchThreshold : Nat)
    (files : Path → Text) (steps : List (Step Path)) :
    Logged (Well.new stdFiles isWindows batchThreshold files) steps ↔
      (∀ typ, Clean typ (Well.new stdFiles isWindows batchThreshold files) (steps ++ [.apply])) ∧
      FirstKept (Well.new stdFiles isWindows batchThreshold files) steps := by
  have hlines := fun typ =>
    lines_iff (inv_new stdFiles isWindows batchThreshold files typ) steps
  have hstart : FirstInv (Well.new stdFiles isWindows batchThreshold files) :=
    ⟨rfl, fun b hb => by cases hb⟩
  have hfirst := first_iff hstart ⟨rfl, rfl, rfl⟩ steps
  constructor
  · intro h
    have hgiven := h.lines stdout
    rw [apply_content] at hgiven
    exact ⟨fun typ => ((hlines typ).mp (h.lines typ)).2, (hfirst hgiven).mp h.first⟩
  · rintro ⟨hclean, hkept⟩
    have hall := fun typ => (hlines typ).mpr ⟨rfl, hclean typ⟩
    have hgiven := hall stdout
    rw [apply_content] at hgiven
    refine ⟨hall, fun before after typ _ => ?_, (hfirst hgiven).mpr hkept⟩
    rw [← (run_same (Well.new stdFiles isWindows batchThreshold files) before).batchThreshold]
    exact (batches_spec _ _).wellBatched

theorem apply_append_content (w : Well Path) (file : Path) (text : Text)
    (typ : StdoutStderrType) :
    (Step.run w.apply (.append file text)).content typ
      = (Step.run w (.append file text)).content typ := by
  show Function.update w.apply.files file (w.apply.files file ++ text) (w.apply.stdFiles.path typ) = _
  rw [apply_files, (apply_same w).stdFiles]
  rfl

/-- Two files, named by whether they are that of stderr. -/
def twoFiles : StdFiles Bool := ⟨fun typ => typ = stderr, by decide⟩

/-- `a` is written. -/
def written : Well Bool :=
  Step.run (Well.new twoFiles false 1000000 fun _ => []) (.append false ['a'])

/-- `a` is polled before `b` is written behind it: two lines instead of one. -/
theorem unfinished_split :
    ¬∀ (stdFiles : StdFiles Bool) (isWindows : Bool) (batchThreshold : Nat) (files : Bool → Text)
      (steps : List (Step Bool)),
      Logged (Well.new stdFiles isWindows batchThreshold files) steps := by
  intro h
  have hlogged := h twoFiles false 1000000 (fun _ => [])
    [.append false ['a'], .apply, .append false ['b', '\n']]
  obtain ⟨-, -, hclean, -⟩ := (lines_iff (inv_new _ _ _ _ stdout) _).mp (hlogged.lines stdout)
  -- the poll that finds `b`
  have hpoll : CleanPoll (Step.run written.apply (.append false ['b', '\n'])) stdout := hclean
  rw [CleanPoll, apply_append_content] at hpoll
  change (written.apply.collector stdout).position = _ ∨
    Closed (List.take (written.apply.collector stdout).position _) at hpoll
  rw [apply_collector] at hpoll
  rcases hpoll with hend | hclosed
  · cases hend
  · cases hclosed 'a' rfl

end StdoutWell
