import SchedulerEngine.HttpParserProofs

/-! # The search for the empty line

    The parser looks for the empty line in what has arrived, so that it also finds
    it in a body that has arrived together with the end of the header. -/

namespace HttpParser

open Http

/-! ## The search for a pattern -/

section Find

variable {pattern text more : Text} {i : Nat}

theorem find_cons_neg {c : UInt8} (h : ¬pattern <+: c :: text) :
    find pattern (c :: text) = (find pattern text).map (· + 1) := by
  rw [find, if_neg h]

theorem find_cons_pos {c : UInt8} (h : pattern <+: c :: text) :
    find pattern (c :: text) = some 0 := by
  rw [find, if_pos h]

theorem find_bound (h : find pattern text = some i) : i + pattern.length ≤ text.length := by
  induction text generalizing i with
  | nil =>
      rw [find] at h
      split at h
      · rename_i hnil
        cases h
        rw [hnil]
        exact Nat.le_refl 0
      · cases h
  | cons c text ih =>
      by_cases hc : pattern <+: c :: text
      · rw [find_cons_pos hc] at h
        cases h
        rw [Nat.zero_add]
        exact hc.length_le
      · rw [find_cons_neg hc] at h
        obtain ⟨j, hj, rfl⟩ := Option.map_eq_some_iff.mp h
        have hlen := ih hj
        rw [List.length_cons]
        omega

/-- What lies in the first part is found in the whole, and the other way round. -/
theorem find_append (hi : i + pattern.length ≤ text.length) :
    find pattern (text ++ more) = some i ↔ find pattern text = some i := by
  induction text generalizing i with
  | nil =>
      have hnil : pattern = [] := List.length_eq_zero_iff.mp (Nat.eq_zero_of_add_eq_zero_left
        (Nat.le_zero.mp hi))
      have hzero : i = 0 := Nat.eq_zero_of_add_eq_zero_right (Nat.le_zero.mp hi)
      subst hnil hzero
      cases more with
      | nil => rfl
      | cons c more => exact ⟨fun _ => rfl, fun _ => find_cons_pos List.nil_prefix⟩
  | cons c text ih =>
      by_cases hc : pattern <+: c :: text
      · have hmore : pattern <+: c :: (text ++ more) := hc.trans ⟨more, rfl⟩
        rw [find_cons_pos hc, List.cons_append, find_cons_pos hmore]
      · have hmore : ¬pattern <+: c :: (text ++ more) := by
          intro hpre
          exact hc (List.prefix_of_prefix_length_le hpre ⟨more, rfl⟩ (by omega))
        rw [find_cons_neg hc, List.cons_append, find_cons_neg hmore]
        cases i with
        | zero =>
            simp only [Option.map_eq_some_iff, Nat.succ_ne_zero, and_false, exists_false]
        | succ i =>
            simp only [Option.map_eq_some_iff, Nat.succ.injEq, exists_eq_right]
            exact ih (by rw [List.length_cons] at hi; omega)

/-- The search in a part of a text. -/
theorem find_part_some {part : Text} (hpart : part <+: text) (h : find pattern text = some i) :
    find pattern part = if i + pattern.length ≤ part.length then some i else none := by
  obtain ⟨more, rfl⟩ := hpart
  split
  · rename_i hle
    exact (find_append hle).mp h
  · rename_i hlong
    cases hfind : find pattern part with
    | none => rfl
    | some j =>
        have hbound := find_bound hfind
        rw [(find_append hbound).mpr hfind] at h
        cases h
        exact absurd hbound hlong

theorem find_part_none {part : Text} (hpart : part <+: text) (h : find pattern text = none) :
    find pattern part = none := by
  obtain ⟨more, rfl⟩ := hpart
  cases hfind : find pattern part with
  | none => rfl
  | some j =>
      rw [(find_append (find_bound hfind)).mpr hfind] at h
      cases h

/-- A word without the first character of the pattern is passed over. -/
theorem find_word {c : UInt8} {word : Text} (hword : ∀ d ∈ word, d ≠ c) :
    find (c :: pattern) (word ++ text) = (find (c :: pattern) text).map (· + word.length) := by
  induction word with
  | nil => simp
  | cons d word ih =>
      have hnot : ¬c :: pattern <+: d :: (word ++ text) := by
        intro hpre
        exact hword d List.mem_cons_self (List.cons_prefix_cons.mp hpre).1.symm
      rw [List.cons_append, find_cons_neg hnot, ih fun e he => hword e (List.mem_cons_of_mem d he),
        Option.map_map]
      congr 1

/-- An empty line with CR is not found where no CR is. -/
theorem find_noCr {word : Text} (hword : ∀ d ∈ word, d ≠ 13) :
    find [10, 13, 10] (word ++ 10 :: text)
      = (find [10, 13, 10] (10 :: text)).map (· + word.length) := by
  induction word with
  | nil => simp
  | cons d word ih =>
      have hnot : ¬[10, 13, 10] <+: d :: (word ++ 10 :: text) := by
        intro hpre
        have hrest := (List.cons_prefix_cons.mp hpre).2
        cases word with
        | nil => exact absurd (List.cons_prefix_cons.mp hrest).1 (by decide)
        | cons e word =>
            exact hword e (List.mem_cons_of_mem d List.mem_cons_self)
              (List.cons_prefix_cons.mp hrest).1.symm
      rw [List.cons_append, find_cons_neg hnot, ih fun e he => hword e (List.mem_cons_of_mem d he),
        Option.map_map]
      congr 1

end Find

/-! ## The empty line of a header -/

/-- A line without its end. -/
structure LineText (line : Text) : Prop where
  nonempty : line ≠ []
  chars : ∀ c ∈ line, 32 ≤ c

theorem LineText.ne {line : Text} (h : LineText line) {c : UInt8} (hc : c ∈ line) :
    c ≠ 10 ∧ c ≠ 13 := by
  have hle := h.chars c hc
  constructor <;> rintro rfl <;> exact absurd hle (by decide)

theorem LineText.ne_cr {line : Text} (h : LineText line) : ∀ c ∈ line ++ [13], c ≠ 10 := by
  intro c hc
  rcases List.mem_append.mp hc with hc | hc
  · exact (h.ne hc).1
  · rw [List.mem_singleton.mp hc]
    decide

/-- Where all line ends are CRLF, the first empty line is the one behind the lines. -/
theorem find_crlf {lines : List Text} (hlines : ∀ line ∈ lines, LineText line) (rest : Text) :
    find [10, 13, 10] (10 :: (lines.flatMap (· ++ crlf) ++ (crlf ++ rest)))
      = some (lines.flatMap (· ++ crlf)).length := by
  induction lines with
  | nil => exact find_cons_pos ⟨rest, rfl⟩
  | cons line lines ih =>
      have hline := hlines line List.mem_cons_self
      have hrest := ih fun line hline => hlines line (List.mem_cons_of_mem _ hline)
      have htext : (line :: lines).flatMap (· ++ crlf) ++ (crlf ++ rest)
          = (line ++ [13]) ++ 10 :: (lines.flatMap (· ++ crlf) ++ (crlf ++ rest)) := by
        simp [crlf]
      have hnot : ¬[10, 13, 10] <+: 10 :: ((line ++ [13]) ++ 10 :: (lines.flatMap (· ++ crlf)
          ++ (crlf ++ rest))) := by
        intro hpre
        cases line with
        | nil => exact hline.nonempty rfl
        | cons c line =>
            have hc := (List.cons_prefix_cons.mp (List.cons_prefix_cons.mp hpre).2).1
            exact (hline.ne List.mem_cons_self).2 hc.symm
      rw [htext, find_cons_neg hnot, find_word hline.ne_cr, hrest]
      simp only [Option.map_some, List.flatMap_cons, List.length_append, crlf, List.length_cons,
        List.length_nil]
      congr 1
      omega

/-- And no two LF follow each other. -/
theorem find_lf_crlf {lines : List Text} (hlines : ∀ line ∈ lines, LineText line) :
    find [10, 10] (10 :: (lines.flatMap (· ++ crlf) ++ crlf)) = none := by
  induction lines with
  | nil => decide
  | cons line lines ih =>
      have hline := hlines line List.mem_cons_self
      have hrest := ih fun line hline => hlines line (List.mem_cons_of_mem _ hline)
      have htext : (line :: lines).flatMap (· ++ crlf) ++ crlf
          = (line ++ [13]) ++ 10 :: (lines.flatMap (· ++ crlf) ++ crlf) := by
        simp [crlf]
      have hnot : ¬[10, 10] <+: 10 :: ((line ++ [13]) ++ 10 :: (lines.flatMap (· ++ crlf) ++ crlf)) := by
        intro hpre
        cases line with
        | nil => exact hline.nonempty rfl
        | cons c line =>
            have hc := (List.cons_prefix_cons.mp (List.cons_prefix_cons.mp hpre).2).1
            exact (hline.ne List.mem_cons_self).1 hc.symm
      rw [htext, find_cons_neg hnot, find_word hline.ne_cr, hrest]
      rfl

/-- Where all line ends are LF, the first two LF are behind the lines. -/
theorem find_lf {lines : List Text} (hlines : ∀ line ∈ lines, LineText line) (rest : Text) :
    find [10, 10] (10 :: (lines.flatMap (· ++ [10]) ++ ([10] ++ rest)))
      = some (lines.flatMap (· ++ [10])).length := by
  induction lines with
  | nil => exact find_cons_pos ⟨rest, rfl⟩
  | cons line lines ih =>
      have hline := hlines line List.mem_cons_self
      have hrest := ih fun line hline => hlines line (List.mem_cons_of_mem _ hline)
      have htext : (line :: lines).flatMap (· ++ [10]) ++ ([10] ++ rest)
          = line ++ 10 :: (lines.flatMap (· ++ [10]) ++ ([10] ++ rest)) := by
        simp
      have hnot : ¬[10, 10] <+: 10 :: (line ++ 10 :: (lines.flatMap (· ++ [10]) ++ ([10] ++ rest))) := by
        intro hpre
        cases line with
        | nil => exact hline.nonempty rfl
        | cons c line =>
            have hc := (List.cons_prefix_cons.mp (List.cons_prefix_cons.mp hpre).2).1
            exact (hline.ne List.mem_cons_self).1 hc.symm
      rw [htext, find_cons_neg hnot, find_word fun c hc => (hline.ne hc).1, hrest]
      simp only [Option.map_some, List.flatMap_cons, List.length_append, List.length_cons,
        List.length_nil]
      congr 1
      omega

def HeaderLine.line (line : HeaderLine) : Text := line.name ++ 58 :: line.value

def Header.firstLine (h : Header) : Text :=
  h.httpMethod ++ 32 :: h.target ++ 32 :: h.protocol

theorem Header.text_eq (h : Header) :
    h.text = h.firstLine ++ lineEnd h.onlyLf
      ++ ((h.lines.map HeaderLine.line).flatMap (· ++ lineEnd h.onlyLf) ++ lineEnd h.onlyLf) := by
  have hlines : h.lines.flatMap (HeaderLine.text h.onlyLf)
      = (h.lines.map HeaderLine.line).flatMap (· ++ lineEnd h.onlyLf) := by
    rw [List.flatMap_map]
    rfl
  simp only [Header.text, Header.requestLine, Header.firstLine, hlines, List.append_assoc,
    List.cons_append]

theorem Visible.le {c : UInt8} (h : Visible c) : 32 ≤ c := by
  have hle := h.1
  rw [UInt8.le_iff_toNat_le] at hle ⊢
  exact Nat.le_of_succ_le hle

theorem Header.lineText_firstLine (h : Header) : LineText h.firstLine := by
  refine ⟨?_, ?_⟩
  · simp [Header.firstLine]
  · intro c hc
    simp only [Header.firstLine, List.mem_append, List.mem_cons] at hc
    rcases hc with (hc | rfl | hc) | rfl | hc
    · exact (h.method_ok.2 c hc).le
    · exact UInt8.le_refl 32
    · exact (h.target_ok.2.1 c hc).le
    · exact UInt8.le_refl 32
    · exact (h.protocol_ok.2 c hc).le

theorem Header.lineText_lines (h : Header) :
    ∀ line ∈ h.lines.map HeaderLine.line, LineText line := by
  intro text htext
  obtain ⟨line, hline, rfl⟩ := List.mem_map.mp htext
  have hok := h.lines_ok line hline
  refine ⟨?_, ?_⟩
  · simp [HeaderLine.line]
  · intro c hc
    simp only [HeaderLine.line, List.mem_append, List.mem_cons] at hc
    rcases hc with hc | rfl | hc
    · exact (hok.name c hc).1
    · decide
    · exact (hok.value c hc).1

theorem Header.find_crlf (h : Header) (honlyLf : h.onlyLf = false) (rest : Text) :
    find [10, 13, 10] (h.text ++ rest) = some (h.text.length - 3) := by
  have htext : h.text ++ rest = (h.firstLine ++ [13])
      ++ 10 :: ((h.lines.map HeaderLine.line).flatMap (· ++ crlf) ++ (crlf ++ rest)) := by
    simp only [h.text_eq, honlyLf, lineEnd, Bool.false_eq_true, if_false, List.append_assoc,
      List.cons_append, List.nil_append, crlf]
  have hlength : h.text.length = h.firstLine.length + 2
      + (((h.lines.map HeaderLine.line).flatMap (· ++ crlf)).length + 2) := by
    rw [h.text_eq, honlyLf]
    simp only [List.length_append, lineEnd, Bool.false_eq_true, if_false, List.length_cons,
      List.length_nil, crlf]
  rw [htext, find_word h.lineText_firstLine.ne_cr, HttpParser.find_crlf h.lineText_lines,
    hlength]
  simp only [Option.map_some, List.length_append, List.length_cons, List.length_nil]
  congr 1
  omega

theorem Header.find_lf_crlf (h : Header) (honlyLf : h.onlyLf = false) :
    find [10, 10] h.text = none := by
  have htext : h.text = (h.firstLine ++ [13])
      ++ 10 :: ((h.lines.map HeaderLine.line).flatMap (· ++ crlf) ++ crlf) := by
    simp only [h.text_eq, honlyLf, lineEnd, Bool.false_eq_true, if_false, List.append_assoc,
      List.cons_append, List.nil_append, crlf]
  rw [htext, find_word h.lineText_firstLine.ne_cr, HttpParser.find_lf_crlf h.lineText_lines]
  rfl

theorem Header.find_lf (h : Header) (honlyLf : h.onlyLf = true) (rest : Text) :
    find [10, 10] (h.text ++ rest) = some (h.text.length - 2) := by
  have htext : h.text ++ rest = h.firstLine
      ++ 10 :: ((h.lines.map HeaderLine.line).flatMap (· ++ [10]) ++ ([10] ++ rest)) := by
    simp only [h.text_eq, honlyLf, lineEnd, if_true, List.append_assoc, List.cons_append,
      List.nil_append]
  have hlength : h.text.length = h.firstLine.length + 1
      + (((h.lines.map HeaderLine.line).flatMap (· ++ [10])).length + 1) := by
    rw [h.text_eq, honlyLf]
    simp only [List.length_append, lineEnd, if_true, List.length_cons, List.length_nil]
  rw [htext, find_word fun c hc => (h.lineText_firstLine.ne hc).1,
    HttpParser.find_lf h.lineText_lines, hlength]
  simp only [Option.map_some]
  congr 1
  omega

/-- Behind LF only, an empty line with CR begins with the last LF of the header. -/
theorem Header.find_crlf_lf (h : Header) (honlyLf : h.onlyLf = true) (rest : Text) :
    find [10, 13, 10] (h.text ++ rest)
      = (find [10, 13, 10] (10 :: rest)).map (· + (h.text.length - 1)) := by
  have htext : h.text = (h.firstLine ++ 10
      :: (h.lines.map HeaderLine.line).flatMap (· ++ [10])) ++ [10] := by
    simp only [h.text_eq, honlyLf, lineEnd, if_true, List.append_assoc, List.cons_append,
      List.nil_append]
  have hnoCr : ∀ c ∈ h.firstLine ++ 10 :: (h.lines.map HeaderLine.line).flatMap (· ++ [10]),
      c ≠ 13 := by
    intro c hc
    rcases List.mem_append.mp hc with hc | hc
    · exact (h.lineText_firstLine.ne hc).2
    · rcases List.mem_cons.mp hc with rfl | hc
      · decide
      · obtain ⟨line, hline, hc⟩ := List.mem_flatMap.mp hc
        rcases List.mem_append.mp hc with hc | hc
        · exact ((h.lineText_lines line hline).ne hc).2
        · rw [List.mem_singleton.mp hc]
          decide
  have hlength : (h.firstLine ++ 10
      :: (h.lines.map HeaderLine.line).flatMap (· ++ [10])).length = h.text.length - 1 := by
    simp only [htext, List.length_append, List.length_singleton, Nat.add_sub_cancel]
  rw [← hlength, htext, List.append_assoc, List.singleton_append, find_noCr hnoCr]

theorem Header.three_le (h : Header) : 3 ≤ h.text.length := by
  have hpos : 0 < h.firstLine.length := List.length_pos_iff.mpr h.lineText_firstLine.nonempty
  rw [h.text_eq]
  cases h.onlyLf <;> simp only [List.length_append, lineEnd, if_true, Bool.false_eq_true, if_false,
    List.length_cons, List.length_nil] <;> omega

/-! ## Where the body is taken to begin -/

/-- The end of the first empty line that `add_text` finds. -/
def bodyStartIn (text : Text) : Option Nat :=
  match find [10, 13, 10] text with
  | some headerEnd => some (headerEnd + 3)
  | none => (find [10, 10] text).map (· + 2)

variable {m : Message} {part : Text}

/-- There is an empty line with CR in a request with LF only: in the body. -/
def Message.hasCrLine (m : Message) : Bool :=
  m.onlyLf && (find [10, 13, 10] m.bytes).isSome

theorem bodyStartIn_before (hpart : part <+: m.bytes) (hlen : part.length < m.text.length) :
    bodyStartIn part = none := by
  have hhead : part <+: m.text :=
    List.prefix_of_prefix_length_le hpart (List.prefix_append _ _) (Nat.le_of_lt hlen)
  have hthree := m.three_le
  cases honlyLf : m.onlyLf with
  | false =>
      have hcr : find [10, 13, 10] part = none := by
        have hall := m.find_crlf honlyLf []
        rw [List.append_nil] at hall
        rw [find_part_some hhead hall, if_neg]
        simp only [List.length_cons, List.length_nil]
        omega
      rw [bodyStartIn, hcr, find_part_none hhead (m.find_lf_crlf honlyLf)]
      rfl
  | true =>
      have hcr : find [10, 13, 10] part = none := by
        refine find_part_none hhead ?_
        have hall := m.find_crlf_lf honlyLf []
        rw [List.append_nil] at hall
        rw [hall]
        rfl
      have hlf : find [10, 10] part = none := by
        have hall := m.find_lf honlyLf []
        rw [List.append_nil] at hall
        rw [find_part_some hhead hall, if_neg]
        simp only [List.length_cons, List.length_nil]
        omega
      rw [bodyStartIn, hcr, hlf]
      rfl

/-- Behind the header the empty line is found, or one with CR further on. -/
theorem bodyStartIn_behind (hpart : part <+: m.bytes) (hlen : m.text.length ≤ part.length) :
    bodyStartIn part =
      if m.onlyLf then
        match find [10, 13, 10] m.bytes with
        | some q => if q + 3 ≤ part.length then some (q + 3) else some m.text.length
        | none => some m.text.length
      else some m.text.length := by
  have hthree := m.three_le
  cases honlyLf : m.onlyLf with
  | false =>
      have hcr : find [10, 13, 10] part = some (m.text.length - 3) := by
        rw [find_part_some hpart (m.find_crlf honlyLf _), if_pos]
        simp only [List.length_cons, List.length_nil]
        omega
      simp only [bodyStartIn, hcr, Bool.false_eq_true, if_false, Option.some.injEq]
      omega
  | true =>
      have hlf : find [10, 10] part = some (m.text.length - 2) := by
        rw [find_part_some hpart (m.find_lf honlyLf _), if_pos]
        simp only [List.length_cons, List.length_nil]
        omega
      have hstart : m.text.length - 2 + 2 = m.text.length := by omega
      cases hall : find [10, 13, 10] m.bytes with
      | none =>
          rw [bodyStartIn, find_part_none hpart hall, hlf]
          simp only [Option.map_some, hstart, if_true]
      | some q =>
          have hfind := find_part_some hpart hall
          simp only [List.length_cons, List.length_nil, Nat.zero_add] at hfind
          by_cases hq : q + 3 ≤ part.length
          · rw [if_pos hq] at hfind
            rw [bodyStartIn, hfind]
            simp only [if_true, if_pos hq]
          · rw [if_neg hq] at hfind
            rw [bodyStartIn, hfind, hlf]
            simp only [if_true, if_neg hq, Option.map_some, hstart]

/-- It does not begin in the header. -/
theorem le_of_find {q : Nat} (honlyLf : m.onlyLf = true) (h : find [10, 13, 10] m.bytes = some q) :
    m.text.length ≤ q + 1 := by
  have hall := m.find_crlf_lf honlyLf (m.body ++ m.extraText)
  rw [show m.text ++ (m.body ++ m.extraText) = m.bytes from rfl, h] at hall
  obtain ⟨j, -, hj⟩ := Option.map_eq_some_iff.mp hall.symm
  omega

end HttpParser
