import Mathlib.Data.List.TakeDrop
import Mathlib.Data.List.TakeWhile

/-! # Lines that are read while the text grows

    `readLine` of a `BufferedReader`: a line ends with `\n`, `\r` or `\r\n`, and at the
    end of the text, where more text can follow later. -/

namespace JavaLines

abbrev Text := List Char

def isEnd (c : Char) : Bool := c = '\n' || c = '\r'

/-! ## The lines of a text -/

/-- One character more at the begin of the first line. -/
def addTo (c : Char) : List Text → List Text
  | [] => [[c]]
  | line :: lines => (c :: line) :: lines

/-- The lines of a text; a `\n` at its begin may belong to the `\r` before it. -/
def lines : Bool → Text → List Text
  | _, [] => []
  | skip, c :: t =>
      if skip = true ∧ c = '\n' then lines false t
      else if c = '\n' then [] :: lines false t
      else if c = '\r' then [] :: lines true t
      else addTo c (lines false t)

/-- Whether a `\n` behind the text belongs to a `\r` before it. -/
def endSkip (skip : Bool) (t : Text) : Bool :=
  match t.getLast? with
  | none => skip
  | some c => c = '\r'

/-- The last line is ended. -/
def Closed (t : Text) : Prop := ∀ c ∈ t.getLast?, isEnd c = true

variable {s t p line : Text} {l m : List Text} {c : Char} {skip : Bool}

theorem addTo_append (c : Char) (h : l ≠ []) (m : List Text) : addTo c (l ++ m) = addTo c l ++ m := by
  cases l with
  | nil => exact absurd rfl h
  | cons line l => rfl

theorem addTo_ne_nil (c : Char) (l : List Text) : addTo c l ≠ [] := by
  cases l with
  | nil => exact List.cons_ne_nil _ _
  | cons line l => exact List.cons_ne_nil _ _

theorem length_addTo (c : Char) (h : l ≠ []) : (addTo c l).length = l.length := by
  cases l with
  | nil => exact absurd rfl h
  | cons line l => rfl

theorem isEnd_eq_false : isEnd c = false ↔ c ≠ '\n' ∧ c ≠ '\r' := by
  rw [isEnd, Bool.or_eq_false_iff, decide_eq_false_iff_not, decide_eq_false_iff_not]

theorem lines_skip (t : Text) : lines true ('\n' :: t) = lines false t := if_pos ⟨rfl, rfl⟩

theorem lines_lf (t : Text) : lines false ('\n' :: t) = [] :: lines false t := by
  rw [lines, if_neg fun h => Bool.false_ne_true h.1, if_pos rfl]

theorem lines_cr (skip : Bool) (t : Text) : lines skip ('\r' :: t) = [] :: lines true t := by
  have h : ¬ '\r' = '\n' := by decide
  rw [lines, if_neg fun hc => h hc.2, if_neg h, if_pos rfl]

theorem lines_add (skip : Bool) (t : Text) (h : isEnd c = false) :
    lines skip (c :: t) = addTo c (lines false t) := by
  obtain ⟨h1, h2⟩ := isEnd_eq_false.mp h
  rw [lines, if_neg fun hc => h1 hc.2, if_neg h1, if_neg h2]

/-- The four ways in which a text can begin. -/
theorem begin_cases (skip : Bool) (c : Char) :
    (skip = true ∧ c = '\n') ∨ (skip = false ∧ c = '\n') ∨ c = '\r' ∨ isEnd c = false := by
  by_cases h1 : c = '\n'
  · cases skip with
    | true => exact Or.inl ⟨rfl, h1⟩
    | false => exact Or.inr (Or.inl ⟨rfl, h1⟩)
  · by_cases h2 : c = '\r'
    · exact Or.inr (Or.inr (Or.inl h2))
    · exact Or.inr (Or.inr (Or.inr (isEnd_eq_false.mpr ⟨h1, h2⟩)))

theorem lines_ne_nil (h : t ≠ []) : lines false t ≠ [] := by
  cases t with
  | nil => exact absurd rfl h
  | cons c t =>
      rcases begin_cases false c with ⟨hskip, -⟩ | ⟨-, rfl⟩ | rfl | hc
      · exact absurd hskip Bool.false_ne_true
      · rw [lines_lf]
        exact List.cons_ne_nil _ _
      · rw [lines_cr]
        exact List.cons_ne_nil _ _
      · rw [lines_add false t hc]
        exact addTo_ne_nil _ _

theorem endSkip_cons (skip : Bool) (c : Char) (t : Text) :
    endSkip skip (c :: t) = endSkip (c = '\r') t := by
  cases t with
  | nil => rfl
  | cons d t =>
      rw [endSkip, endSkip, List.getLast?_cons_cons]
      cases h : (d :: t).getLast? with
      | none => cases List.getLast?_eq_none_iff.mp h
      | some e => rfl

theorem endSkip_append (skip : Bool) (s t : Text) :
    endSkip skip (s ++ t) = endSkip (endSkip skip s) t := by
  induction s generalizing skip with
  | nil => rfl
  | cons c s ih => rw [List.cons_append, endSkip_cons, ih, endSkip_cons]

theorem Closed.tail (h : Closed (c :: t)) (ht : t ≠ []) : Closed t := by
  intro d hd
  refine h d ?_
  rw [List.getLast?_cons_of_ne_nil ht]
  exact hd

/-- Behind an ended line the text can be cut. -/
theorem lines_append (skip : Bool) (h : Closed p) (s : Text) :
    lines skip (p ++ s) = lines skip p ++ lines (endSkip skip p) s := by
  induction p generalizing skip with
  | nil => rfl
  | cons c p ih =>
      rw [List.cons_append, endSkip_cons]
      have hrest : ∀ skip, lines skip (p ++ s) = lines skip p ++ lines (endSkip skip p) s := by
        intro skip
        by_cases hp : p = []
        · rw [hp]
          rfl
        · exact ih skip (h.tail hp)
      rcases begin_cases skip c with ⟨rfl, rfl⟩ | ⟨rfl, rfl⟩ | rfl | hc
      · rw [lines_skip, lines_skip, hrest]
        rfl
      · rw [lines_lf, lines_lf, hrest]
        rfl
      · rw [lines_cr, lines_cr, hrest]
        rfl
      · have hp : p ≠ [] := by
          rintro rfl
          rw [h c rfl] at hc
          cases hc
        have hcr : decide (c = '\r') = false := decide_eq_false (isEnd_eq_false.mp hc).2
        rw [lines_add skip _ hc, lines_add skip _ hc, hrest, hcr,
          addTo_append c (lines_ne_nil hp)]

/-- Behind a line that is not ended, a cut makes one line more. -/
theorem length_lines_append (skip : Bool) (h : ¬Closed p) (hs : s ≠ []) :
    (lines skip (p ++ s)).length + 1
      = (lines skip p).length + (lines (endSkip skip p) s).length := by
  induction p generalizing skip with
  | nil =>
      refine absurd (fun c hc => ?_) h
      cases hc
  | cons c p ih =>
      rw [List.cons_append, endSkip_cons]
      by_cases hp : p = []
      · -- the last character is not a line end
        subst hp
        have hc : isEnd c = false := Bool.eq_false_iff.mpr fun hend => h fun d hd => by
          rw [← Option.some.inj hd]
          exact hend
        have hcr : decide (c = '\r') = false := decide_eq_false (isEnd_eq_false.mp hc).2
        rw [List.nil_append, lines_add skip _ hc, lines_add skip _ hc, hcr,
          length_addTo c (lines_ne_nil hs)]
        exact Nat.add_comm _ _
      · have hrest : ¬Closed p := fun hclosed => h fun d hd => by
          rw [List.getLast?_cons_of_ne_nil hp] at hd
          exact hclosed d hd
        rcases begin_cases skip c with ⟨rfl, rfl⟩ | ⟨rfl, rfl⟩ | rfl | hc
        · rw [lines_skip, lines_skip]
          exact ih false hrest
        · rw [lines_lf, lines_lf, List.length_cons, List.length_cons, ih false hrest,
            Nat.succ_add]
          rfl
        · rw [lines_cr, lines_cr, List.length_cons, List.length_cons, ih true hrest, Nat.succ_add]
          rfl
        · have hcr : decide (c = '\r') = false := decide_eq_false (isEnd_eq_false.mp hc).2
          have hps : p ++ s ≠ [] := List.append_ne_nil_of_left_ne_nil hp s
          rw [lines_add skip _ hc, lines_add skip _ hc, length_addTo c (lines_ne_nil hps),
            length_addTo c (lines_ne_nil hp), hcr]
          exact ih false hrest

/-! ## `readLine` -/

/-- What is not read yet, and whether a `\n` at its begin is skipped. -/
structure Reader where
  skipLf : Bool
  rest : Text

namespace Reader

/-- The characters up to a line end or to the end of the text. -/
def found (line : Text) : Text → Option Text × Reader
  | [] => (if line = [] then none else some line, ⟨false, []⟩)
  | c :: after => (some line, ⟨c = '\r', after⟩)

def readLine (r : Reader) : Option Text × Reader :=
  match r.rest with
  | [] => (none, r)
  | c :: t =>
      let input := if r.skipLf = true ∧ c = '\n' then t else c :: t
      let (line, after) := input.span fun c => !isEnd c
      found line after

def lines (r : Reader) : List Text := JavaLines.lines r.skipLf r.rest

def endSkip (r : Reader) : Bool := JavaLines.endSkip r.skipLf r.rest

/-- The end of the text, as it is now. -/
def atEnd (r : Reader) : Reader := ⟨r.endSkip, []⟩

end Reader

theorem lines_open (h : ∀ c ∈ line, isEnd c = false) (t : Text) :
    lines false (line ++ t) = line.foldr addTo (lines false t) := by
  induction line with
  | nil => rfl
  | cons c line ih =>
      rw [List.cons_append, lines_add false _ (h c List.mem_cons_self),
        ih fun d hd => h d (List.mem_cons_of_mem _ hd)]
      rfl

theorem foldr_addTo_cons (line first : Text) (l : List Text) :
    line.foldr addTo (first :: l) = (line ++ first) :: l := by
  induction line with
  | nil => rfl
  | cons c line ih =>
      rw [List.foldr_cons, ih]
      rfl

theorem foldr_addTo_nil (line : Text) : line.foldr addTo [] = if line = [] then [] else [line] := by
  cases line with
  | nil => rfl
  | cons c line =>
      induction line generalizing c with
      | nil => rfl
      | cons d line ih =>
          rw [List.foldr_cons, ih]
          rfl

/-- A line that ends is in front of the others. -/
theorem lines_ended (h : ∀ c ∈ line, isEnd c = false) (hc : isEnd c = true) (t : Text) :
    lines false (line ++ c :: t) = line :: lines (c = '\r') t := by
  rw [lines_open h]
  rw [isEnd, Bool.or_eq_true, decide_eq_true_iff, decide_eq_true_iff] at hc
  rcases hc with rfl | rfl
  · rw [lines_lf, foldr_addTo_cons, List.append_nil]
    rfl
  · rw [lines_cr, foldr_addTo_cons, List.append_nil]
    rfl

/-- A text that ends inside a line. -/
theorem lines_last (h : ∀ c ∈ line, isEnd c = false) :
    lines false line = if line = [] then [] else [line] := by
  have := lines_open h []
  rw [List.append_nil] at this
  exact this.trans (foldr_addTo_nil line)

theorem exists_span (t : Text) :
    ∃ line after, t.span (fun c => !isEnd c) = (line, after) ∧ t = line ++ after ∧
      (∀ c ∈ line, isEnd c = false) ∧ ∀ c ∈ after.head?, isEnd c = true := by
  refine ⟨_, _, List.span_eq_takeWhile_dropWhile _ t, (List.takeWhile_append_dropWhile).symm,
    fun c hc => ?_, fun c hc => ?_⟩
  · have hmem := List.mem_takeWhile_imp hc
    exact (Bool.not_eq_true' (isEnd c)).mp hmem
  · have hhead := List.head?_dropWhile_not (fun c => !isEnd c) t
    rw [Option.mem_def.mp hc] at hhead
    exact (Bool.not_eq_false' (isEnd c)).mp hhead

/-- A `\n` that belongs to the line end before it is skipped. -/
theorem exists_input (skip : Bool) (c : Char) (t : Text) :
    ∃ input, (if skip = true ∧ c = '\n' then t else c :: t) = input ∧
      lines skip (c :: t) = lines false input ∧
      endSkip skip (c :: t) = endSkip false input ∧ input.length ≤ (c :: t).length := by
  by_cases h : skip = true ∧ c = '\n'
  · obtain ⟨rfl, rfl⟩ := h
    refine ⟨t, if_pos ⟨rfl, rfl⟩, lines_skip t, ?_, Nat.le_succ _⟩
    rw [endSkip_cons]
    rfl
  · refine ⟨c :: t, if_neg h, ?_, ?_, Nat.le_refl _⟩
    · rcases begin_cases skip c with hc | ⟨rfl, -⟩ | rfl | hc
      · exact absurd hc h
      · rfl
      · rw [lines_cr, lines_cr]
      · rw [lines_add skip t hc, lines_add false t hc]
    · rw [endSkip_cons, endSkip_cons]

/-- `readLine` tells the first line, or that there is none. -/
theorem readLine_spec (r : Reader) :
    (r.lines = [] ∧ r.readLine = (none, r.atEnd)) ∨
    ∃ line r', r.readLine = (some line, r') ∧ r.lines = line :: r'.lines ∧
      r'.atEnd = r.atEnd ∧ r'.rest.length < r.rest.length := by
  obtain ⟨skip, rest⟩ := r
  cases rest with
  | nil => exact Or.inl ⟨rfl, rfl⟩
  | cons c t =>
      obtain ⟨input, hinput, hlines, hskip, hlength⟩ := exists_input skip c t
      obtain ⟨line, after, hspan, rfl, hline, hafter⟩ := exists_span input
      have hread : Reader.readLine ⟨skip, c :: t⟩ = Reader.found line after := by
        show (match (if skip = true ∧ c = '\n' then t else c :: t).span fun c => !isEnd c with
          | (line, after) => Reader.found line after) = _
        rw [hinput, hspan]
      have hend : Reader.atEnd ⟨skip, c :: t⟩ = ⟨endSkip false (line ++ after), []⟩ := by
        rw [Reader.atEnd, Reader.endSkip, hskip]
      rw [hread, hend]
      show (lines skip (c :: t) = [] ∧ _) ∨ ∃ l r', _ ∧ lines skip (c :: t) = _ ∧ _
      rw [hlines]
      cases after with
      | nil =>
          have hopen : endSkip false line = false := by
            rw [endSkip]
            cases hlast : line.getLast? with
            | none => rfl
            | some d =>
                exact decide_eq_false (isEnd_eq_false.mp (hline d (List.mem_of_getLast? hlast))).2
          rw [List.append_nil, lines_last hline, hopen, Reader.found]
          by_cases hnil : line = []
          · rw [if_pos hnil, if_pos hnil]
            exact Or.inl ⟨rfl, rfl⟩
          · rw [if_neg hnil, if_neg hnil]
            exact Or.inr ⟨line, ⟨false, []⟩, rfl, rfl, rfl, Nat.succ_pos _⟩
      | cons d after =>
          refine Or.inr ⟨line, ⟨d = '\r', after⟩, rfl, lines_ended hline (hafter d rfl) after, ?_, ?_⟩
          · rw [endSkip_append, endSkip_cons]
            rfl
          · rw [List.length_append, List.length_cons] at hlength
            show after.length < (c :: t).length
            omega

theorem readLine_lt {r r' : Reader} (h : r.readLine = (some line, r')) :
    r'.rest.length < r.rest.length := by
  rcases readLine_spec r with ⟨-, hnone⟩ | ⟨line', r'', hread, -, -, hlt⟩
  · rw [hnone] at h
    cases h
  · rw [hread] at h
    cases h
    exact hlt

end JavaLines
