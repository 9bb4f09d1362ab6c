import SchedulerEngine.HtmlReaderProofs

/-! # The runs of the reader of the log in HTML

    Every line is cut as the whole text is cut, however it arrives, and every block
    takes what comes next, unless it comes to a new file at its beginning. -/

namespace HtmlReader

open Http Html HtmlLog

variable {ρ : Type} {R : TextReader ρ} {page : Page}

/-! ## Cutting lines -/

/-- How many characters go to the line. -/
def takenLength (line text : Text) : Nat :=
  min (((text.findIdx? (· = 10)).map (· + 1)).getD text.length) (maxLineLength - line.length)

theorem takenLength_cons {line text : Text} {c : UInt8} (hc : c ≠ 10)
    (hline : line.length + 1 < maxLineLength) :
    takenLength line (c :: text) = takenLength (line ++ [c]) text + 1 := by
  have hfind : (c :: text).findIdx? (· = 10) = (text.findIdx? (· = 10)).map (· + 1) := by
    rw [List.findIdx?_cons, if_neg (by simpa using hc)]
  rw [takenLength, takenLength, hfind, List.length_append, List.length_singleton]
  cases text.findIdx? (· = 10) with
  | none =>
      simp only [Option.map_none, Option.getD_none, List.length_cons]
      omega
  | some i =>
      simp only [Option.map_some, Option.getD_some]
      omega

theorem takenLength_one {line text : Text} {c : UInt8} (hline : line.length < maxLineLength)
    (h : c = 10 ∨ maxLineLength ≤ line.length + 1) : takenLength line (c :: text) = 1 := by
  rw [takenLength]
  by_cases hc : c = 10
  · rw [List.findIdx?_cons, if_pos (by simpa using hc)]
    simp only [Option.map_some, Option.getD_some]
    omega
  · have hfull := h.resolve_left hc
    rw [List.findIdx?_cons, if_neg (by simpa using hc), Option.map_map]
    cases text.findIdx? (· = 10) with
    | none =>
        simp only [Option.map_none, Option.getD_none, List.length_cons]
        omega
    | some i =>
        simp only [Option.map_some, Option.getD_some, Function.comp_apply]
        omega

/-- The line that is complete with these characters is the first one of the text. -/
def CutsLine (line text line' text' : Text) : Prop :=
  ∀ more, cutLines line (text ++ more) = line' :: cutLines [] (text' ++ more)

/-- What is taken completes the line, or it is everything and the line goes on. -/
theorem cut_taken {line text : Text} (hline : line.length < maxLineLength) :
    let line' := line ++ text.take (takenLength line text)
    let text' := text.drop (takenLength line text)
    (((text.findIdx? (· = 10)).isSome = true ∨ line'.length = maxLineLength) ∧
        CutsLine line text line' text') ∨
      ((text.findIdx? (· = 10)).isSome = false ∧ line'.length < maxLineLength ∧ text' = [] ∧
        ∀ more, cutLines line (text ++ more) = cutLines line' more) := by
  induction text generalizing line with
  | nil =>
      refine .inr ⟨rfl, ?_, List.drop_nil, fun more => ?_⟩
      · rw [List.take_nil, List.append_nil]
        exact hline
      · rw [List.take_nil, List.append_nil, List.nil_append]
  | cons c text ih =>
      by_cases hcut : c = 10 ∨ maxLineLength ≤ line.length + 1
      · rw [takenLength_one hline hcut]
        left
        constructor
        · by_cases hc : c = 10
          · left
            rw [List.findIdx?_cons, if_pos (by simpa using hc)]
            rfl
          · right
            have hfull := hcut.resolve_left hc
            simp only [List.take_succ_cons, List.take_zero, List.length_append,
              List.length_singleton]
            omega
        · intro more
          rw [List.cons_append, cutLines, if_pos hcut]
          rfl
      · obtain ⟨hc, hshort⟩ := not_or.mp hcut
        have hshort := Nat.lt_of_not_le hshort
        have hlength : (line ++ [c]).length < maxLineLength := by
          rw [List.length_append, List.length_singleton]
          exact hshort
        have hstep (more : Text) :
            cutLines line (c :: text ++ more) = cutLines (line ++ [c]) (text ++ more) := by
          rw [List.cons_append, cutLines, if_neg hcut]
        have hfound : ((c :: text).findIdx? (· = 10)).isSome
            = (text.findIdx? (· = 10)).isSome := by
          rw [List.findIdx?_cons, if_neg (by simpa using hc), Option.isSome_map]
        have hih := ih hlength
        rw [takenLength_cons hc hshort, List.take_succ_cons, List.drop_succ_cons, hfound,
          show line ++ c :: text.take (takenLength (line ++ [c]) text)
            = line ++ [c] ++ text.take (takenLength (line ++ [c]) text) by simp]
        rcases hih with ⟨hdone, hcuts⟩ | ⟨hnone, hless, hnil, hgoes⟩
        · exact .inl ⟨hdone, fun more => (hstep more).trans (hcuts more)⟩
        · exact .inr ⟨hnone, hless, hnil, fun more => (hstep more).trans (hgoes more)⟩

/-! ## The body that is left -/

/-- The text before the rest of a body. -/
def before (text : Text) (body : Text × Encoder) : Text × Encoder := (text ++ body.1, body.2)

/-- A line, and then the rest. -/
def withLine (line : Text) (st : Encoder) (rest : Encoder → Text × Encoder) : Text × Encoder :=
  before ((lineItems line st).1.flatMap Item.html) (rest (lineItems line st).2)

theorem before_nil (body : Text × Encoder) : before [] body = body := rfl

theorem before_before (text more : Text) (body : Text × Encoder) :
    before text (before more body) = before (text ++ more) body := by
  rw [before, before, before, List.append_assoc]

theorem encodeLines_cons (line : Text) (lines : List Text) (st : Encoder) :
    encodeLines (line :: lines) st = withLine line st (encodeLines lines) := rfl

theorem bodyOf_newFile (st : Encoder) (line text insertion : Text) (events : List Event) :
    bodyOf st line text (.newFile insertion :: events)
      = before (encodeLines (cutLines line text) st).1
        (before insertion (bodyOf (encodeLines (cutLines line text) st).2 [] [] events)) := by
  rw [before_before]
  rfl

theorem bodyOf_cuts {line text line' text' : Text} (h : CutsLine line text line' text')
    (events : List Event) :
    ∀ (st : Encoder) (more : Text), bodyOf st line (text ++ more) events
      = withLine line' st fun st => bodyOf st [] (text' ++ more) events := by
  induction events with
  | nil =>
      intro st more
      rw [bodyOf, h more]
      rfl
  | cons event events ih =>
      intro st more
      cases event with
      | text new =>
          rw [bodyOf, List.append_assoc, ih]
          simp only [bodyOf, List.append_assoc]
      | newFile insertion =>
          rw [bodyOf_newFile, h more, encodeLines_cons]
          simp only [bodyOf_newFile, withLine, before, List.append_assoc]

theorem bodyOf_goes {line text line' : Text}
    (h : ∀ more, cutLines line (text ++ more) = cutLines line' more) (events : List Event) :
    ∀ (st : Encoder) (more : Text),
      bodyOf st line (text ++ more) events = bodyOf st line' more events := by
  induction events with
  | nil =>
      intro st more
      rw [bodyOf, bodyOf, h more]
  | cons event events ih =>
      intro st more
      cases event with
      | text new => rw [bodyOf, bodyOf, List.append_assoc, ih]
      | newFile insertion => rw [bodyOf, bodyOf, h more]

/-- The line that has begun ends with the file. -/
theorem bodyOf_unfinished {line : Text} (hne : line ≠ []) (st : Encoder) {events : List Event}
    (hevents : events = [] ∨ ∃ insertion more, events = .newFile insertion :: more) :
    bodyOf st line [] events = withLine line st fun st => bodyOf st [] [] events := by
  have hcut : cutLines line [] = [line] := if_neg hne
  rcases hevents with rfl | ⟨insertion, more, rfl⟩
  · rw [bodyOf, hcut]
    rfl
  · rw [bodyOf_newFile, hcut, encodeLines_cons]
    simp only [bodyOf_newFile, withLine, before, List.append_assoc]
    rfl

/-! ## What the reader answers -/

/-- Where the reader is: nothing of the text is anywhere else. -/
structure At (R : TextReader ρ) (n : Nat) (r : HtmlChunkReader ρ) (newFile : Bool) (rest : Text)
    (events : List Event) : Prop where
  arrives : Arrives R n r.chunkReader newFile rest events
  available : r.availableNetChunkSize = rest.length

/-- What is left of the body. -/
def HtmlChunkReader.left (r : HtmlChunkReader ρ) (rest : Text) (events : List Event) :
    Text × Encoder :=
  bodyOf r.encoder r.line (r.nextCharacters ++ rest) events

/-- Only the line and the characters change. -/
structure Same (r r' : HtmlChunkReader ρ) : Prop where
  state : r'.state = r.state
  chunk : r'.chunk = r.chunk
  encoder : r'.encoder = r.encoder

/-- What one call of `readCharacters` finds. -/
inductive Found (R : TextReader ρ) (n : Nat) (r : HtmlChunkReader ρ) (body : Text × Encoder) :
    Answer × HtmlChunkReader ρ → Prop where
  | notReady {k : Nat} {r' : HtmlChunkReader ρ} {events : List Event} :
      Same r r' → r'.line = r.line → r'.htmlInsertion = [] → r'.nextCharacters = [] →
      At R k r' false [] events → k < n → r'.left [] events = body →
      Found R n r body (.notReady, r')
  | insertion {k : Nat} {r' : HtmlChunkReader ρ} {events : List Event} :
      Same r r' → r'.line = [] → r'.htmlInsertion ≠ [] → r'.nextCharacters = [] →
      At R k r' false [] events → k < n →
      before r'.htmlInsertion (bodyOf r.encoder [] [] events) = body →
      Found R n r body (.insertion, r')
  | newFile {k : Nat} {r' : HtmlChunkReader ρ} {insertion : Text} {events : List Event} :
      Same r r' → r'.line = r.line → r'.htmlInsertion = [] → r'.nextCharacters = [] →
      At R k r' true [] (.newFile insertion :: events) → k < n →
      r'.left [] (.newFile insertion :: events) = body → (r.line = [] → r.AtNewFile R) →
      Found R n r body (.nothing, r')
  | last {r' : HtmlChunkReader ρ} :
      Same r r' → r'.line = r.line → r'.htmlInsertion = [] → r'.nextCharacters = [] →
      At R 0 r' false [] [] → r'.left [] [] = body → Found R n r body (.nothing, r')
  | piece {k : Nat} {r' : HtmlChunkReader ρ} {rest : Text} {events : List Event} :
      Same r r' → r'.line = r.line → r'.htmlInsertion = [] → r'.nextCharacters ≠ [] →
      At R k r' false rest events → n = k + r'.nextCharacters.length → r'.left rest events = body →
      Found R n r body (.piece, r')

/-! ## One call of `readCharacters` -/

section Reads

variable {r : HtmlChunkReader ρ}

/-- A chunk is ready, as it was or as the reader has it. -/
theorem readCharacters_ready {reader : ρ} {size : Nat}
    (hinsertion : (R.htmlInsertion r.chunkReader).1 = [])
    (hopen : HtmlChunkReader.openChunk R
        { r with chunkReader := (R.htmlInsertion r.chunkReader).2, htmlInsertion := [] }
      = (true, { r with chunkReader := reader, htmlInsertion := [], availableNetChunkSize := size })) :
    r.readCharacters R =
      if (R.readFromChunk reader size).1 = [] then
        (.nothing, { r with
          chunkReader := (R.readFromChunk reader size).2, htmlInsertion := []
          availableNetChunkSize := size, nextCharacters := [] })
      else
        (.piece, { r with
          chunkReader := (R.readFromChunk reader size).2, htmlInsertion := []
          availableNetChunkSize := size - (R.readFromChunk reader size).1.length
          nextCharacters := (R.readFromChunk reader size).1 }) := by
  rw [HtmlChunkReader.readCharacters]
  dsimp only
  rw [hinsertion, if_neg (by simp), hopen]
  dsimp only
  rw [if_pos rfl]
  split
  · rename_i hnil
    rw [hnil]
  · rfl

theorem openChunk_notReady (havailable : r.availableNetChunkSize = 0)
    (hready : (R.nextChunkIsReady r.chunkReader).1 = false) :
    r.openChunk R = (false, { r with chunkReader := (R.nextChunkIsReady r.chunkReader).2 }) := by
  rw [HtmlChunkReader.openChunk, if_pos havailable]
  exact if_neg (by rw [hready]; exact Bool.false_ne_true)

theorem openChunk_ready {size : Nat} (havailable : r.availableNetChunkSize = 0)
    (h : R.Ready r.chunkReader size) :
    HtmlChunkReader.openChunk R
        { r with chunkReader := (R.htmlInsertion r.chunkReader).2, htmlInsertion := [] }
      = (true, { r with
          chunkReader := (R.sized r.chunkReader).2, htmlInsertion := []
          availableNetChunkSize := size }) := by
  rw [HtmlChunkReader.openChunk, if_pos havailable, ← h.size]
  exact if_pos h.ready

theorem found_readCharacters {n : Nat} {newFile : Bool} {rest : Text} {events : List Event}
    (h : At R n r newFile rest events) (hnext : r.nextCharacters = [])
    (hline : newFile = true → r.line = []) :
    Found R n r (r.left rest events) (r.readCharacters R) := by
  obtain ⟨harrives, havailable⟩ := h
  cases harrives with
  | @wait k _ _ hinsertion hready hnext' =>
      have hread : r.readCharacters R = (.notReady, { r with
          chunkReader := (R.asked r.chunkReader).2, htmlInsertion := [] }) := by
        have hopen := @openChunk_notReady _ R
          { r with chunkReader := (R.htmlInsertion r.chunkReader).2, htmlInsertion := [] }
          havailable hready
        rw [HtmlChunkReader.readCharacters]
        dsimp only
        rw [hinsertion, if_neg (by simp), hopen]
        exact if_neg Bool.false_ne_true
      rw [hread]
      exact .notReady ⟨rfl, rfl, rfl⟩ rfl rfl hnext ⟨hnext', havailable⟩ (Nat.lt_succ_self k) rfl
  | @chunk k _ reader' piece left events hready hpiece hne hnext' =>
      rw [readCharacters_ready hready.insertion (openChunk_ready havailable hready), hpiece,
        if_neg hne]
      have havailable' : (piece ++ left).length - piece.length = left.length := by
        rw [List.length_append, Nat.add_sub_cancel_left]
      refine .piece ⟨rfl, rfl, rfl⟩ rfl rfl hne ⟨hnext', havailable'⟩ rfl ?_
      rw [HtmlChunkReader.left, HtmlChunkReader.left, hnext, bodyOf]
      rfl
  | @piece k _ reader' piece left events hinsertion hpiece hne hnext' =>
      have hopen : HtmlChunkReader.openChunk R
          { r with chunkReader := (R.htmlInsertion r.chunkReader).2, htmlInsertion := [] }
          = (true, { r with
              chunkReader := (R.htmlInsertion r.chunkReader).2, htmlInsertion := []
              availableNetChunkSize := (piece ++ left).length }) := by
        have hpos : ¬r.availableNetChunkSize = 0 := by
          rw [havailable]
          exact fun h => hne (List.append_eq_nil_iff.mp (List.length_eq_zero_iff.mp h)).1
        rw [HtmlChunkReader.openChunk, if_neg hpos, ← havailable]
      rw [readCharacters_ready hinsertion hopen, hpiece, if_neg hne]
      have havailable' : (piece ++ left).length - piece.length = left.length := by
        rw [List.length_append, Nat.add_sub_cancel_left]
      refine .piece ⟨rfl, rfl, rfl⟩ rfl rfl hne ⟨hnext', havailable'⟩ rfl ?_
      rw [HtmlChunkReader.left, HtmlChunkReader.left, hnext, List.nil_append]
  | @newFile k _ reader' insertion events hready hpiece hnext' =>
      have hins : (R.htmlInsertion reader').1 ≠ [] := by
        cases hnext' with
        | insertion hinsertion hne _ =>
            rw [hinsertion]
            exact hne
      rw [readCharacters_ready hready.insertion (openChunk_ready havailable hready), hpiece,
        if_pos rfl]
      refine .newFile ⟨rfl, rfl, rfl⟩ rfl rfl rfl ⟨hnext', rfl⟩ (Nat.lt_succ_self k) ?_ fun hnil => ?_
      · rw [HtmlChunkReader.left, HtmlChunkReader.left, hnext]
      · refine ⟨hnil, hnext, havailable, hready, by rw [hpiece], ?_⟩
        rw [hpiece]
        exact hins
  | @insertion k _ reader' insertion events hinsertion hne hnext' =>
      have hread : r.readCharacters R = (.insertion, { r with
          chunkReader := reader', htmlInsertion := insertion }) := by
        rw [HtmlChunkReader.readCharacters, hinsertion]
        exact if_pos hne
      rw [hread]
      refine .insertion ⟨rfl, rfl, rfl⟩ (hline rfl) hne hnext ⟨hnext', havailable⟩ (Nat.lt_succ_self k) ?_
      rw [HtmlChunkReader.left, hnext, hline rfl, bodyOf_newFile]
      rfl
  | last hended =>
      obtain ⟨P, hP, hall⟩ := hended
      obtain ⟨hready, hpiece, hnext'⟩ := hall _ hP
      rw [readCharacters_ready hready.insertion (openChunk_ready havailable hready), if_pos hpiece]
      refine .last ⟨rfl, rfl, rfl⟩ rfl rfl rfl ⟨.last ⟨P, hnext', hall⟩, rfl⟩ ?_
      rw [HtmlChunkReader.left, HtmlChunkReader.left, hnext]

end Reads

/-! ## One line -/

/-- What `tryFillLine` gives: nothing, an insertion or a line. -/
inductive LineFilled (R : TextReader ρ) (m : Nat) (r : HtmlChunkReader ρ) (body : Text × Encoder) :
    Bool × HtmlChunkReader ρ → Prop where
  | notReady {k : Nat} {r' : HtmlChunkReader ρ} {events : List Event} :
      Same r r' → r'.htmlInsertion = [] → r'.nextCharacters = [] →
      r'.line.length < maxLineLength → At R k r' false [] events →
      k + r'.line.length < m → r'.left [] events = body → LineFilled R m r body (false, r')
  | insertion {k : Nat} {r' : HtmlChunkReader ρ} {events : List Event} :
      Same r r' → r'.htmlInsertion ≠ [] → r'.line = [] → r'.nextCharacters = [] →
      At R k r' false [] events → k < m →
      before r'.htmlInsertion (bodyOf r.encoder [] [] events) = body →
      LineFilled R m r body (true, r')
  | line {k : Nat} {r' : HtmlChunkReader ρ} {newFile : Bool} {rest : Text} {events : List Event} :
      Same r r' → r'.htmlInsertion = [] → r'.line ≠ [] → At R k r' newFile rest events →
      (newFile = true → r'.nextCharacters = []) →
      k + r'.nextCharacters.length + r'.line.length ≤ m →
      (withLine r'.line r.encoder fun st => bodyOf st [] (r'.nextCharacters ++ rest) events) = body →
      LineFilled R m r body (true, r')
  | newFile {k : Nat} {r' : HtmlChunkReader ρ} {events : List Event} :
      Same r r' → r'.htmlInsertion = [] → r'.line = [] → r'.nextCharacters = [] →
      At R k r' true [] events → k < m → bodyOf r.encoder [] [] events = body →
      r.AtNewFile R → LineFilled R m r body (true, r')
  | last {r' : HtmlChunkReader ρ} :
      Same r r' → r'.htmlInsertion = [] → r'.line = [] → r'.nextCharacters = [] →
      At R 0 r' false [] [] → body = ([], r.encoder) → LineFilled R m r body (true, r')

section Lines

variable {r : HtmlChunkReader ρ} {m : Nat} {body : Text × Encoder}

theorem Same.trans {r' r'' : HtmlChunkReader ρ} (h : Same r r') (h' : Same r' r'') : Same r r'' :=
  ⟨h'.state.trans h.state, h'.chunk.trans h.chunk, h'.encoder.trans h.encoder⟩

/-- What is found later, but not at a new file, is found before as well. -/
theorem LineFilled.of_later {r' : HtmlChunkReader ρ} {result : Bool × HtmlChunkReader ρ}
    (h : LineFilled R m r' body result) (hsame : Same r r') (hnot : ¬r'.AtNewFile R) :
    LineFilled R m r body result := by
  cases h with
  | notReady hsame' hins hnext hshort hat hless hleft =>
      exact .notReady (hsame.trans hsame') hins hnext hshort hat hless hleft
  | insertion hsame' hins hline' hnext hat hless hbody =>
      exact .insertion (hsame.trans hsame') hins hline' hnext hat hless (hsame.encoder ▸ hbody)
  | line hsame' hins hline' hat hnext hle hbody =>
      exact .line (hsame.trans hsame') hins hline' hat hnext hle (hsame.encoder ▸ hbody)
  | newFile _ _ _ _ _ _ _ hfile => exact absurd hfile hnot
  | last hsame' hins hline' hnext hat hbody =>
      exact .last (hsame.trans hsame') hins hline' hnext hat (hsame.encoder ▸ hbody)

theorem takenLength_pos {line text : Text} (hline : line.length < maxLineLength) (hne : text ≠ []) :
    0 < takenLength line text := by
  cases text with
  | nil => exact absurd rfl hne
  | cons c text =>
      by_cases hcut : c = 10 ∨ maxLineLength ≤ line.length + 1
      · rw [takenLength_one hline hcut]
        exact Nat.one_pos
      · obtain ⟨hc, hshort⟩ := not_or.mp hcut
        rw [takenLength_cons hc (Nat.lt_of_not_le hshort)]
        exact Nat.succ_pos _

theorem tryFillLine_full (fuel : Nat) (h : maxLineLength ≤ r.line.length) :
    r.tryFillLine R fuel = (true, r) := by
  cases fuel with
  | zero => rfl
  | succ fuel => exact if_neg (Nat.not_lt_of_le h)

/-- The line takes some characters, and perhaps more. -/
theorem filled_take {n fuel : Nat} {rest : Text} {events : List Event}
    (hat : At R n r false rest events) (hins : r.htmlInsertion = [])
    (hline : r.line.length < maxLineLength) (hnext : r.nextCharacters ≠ [])
    (hfuel : maxLineLength - r.line.length ≤ fuel + 1)
    (ih : ∀ {r' : HtmlChunkReader ρ}, At R n r' false rest events → r'.htmlInsertion = [] →
      r'.line.length < maxLineLength → maxLineLength - r'.line.length ≤ fuel →
      LineFilled R (n + r'.nextCharacters.length + r'.line.length) r' (r'.left rest events)
        (r'.tryFillLine R fuel)) :
    LineFilled R (n + r.nextCharacters.length + r.line.length) r (r.left rest events)
      (if r.takeCharacters.1 then (true, r.takeCharacters.2)
        else r.takeCharacters.2.tryFillLine R fuel) := by
  have htaken : r.takeCharacters = ((r.nextCharacters.findIdx? (· = 10)).isSome, { r with
      line := r.line ++ r.nextCharacters.take (takenLength r.line r.nextCharacters)
      nextCharacters := r.nextCharacters.drop (takenLength r.line r.nextCharacters) }) := rfl
  have hpos := takenLength_pos hline hnext
  have hsum : (r.nextCharacters.take (takenLength r.line r.nextCharacters)).length
      + (r.nextCharacters.drop (takenLength r.line r.nextCharacters)).length
        = r.nextCharacters.length := by
    rw [← List.length_append, List.take_append_drop]
  have hsome : 0 < (r.nextCharacters.take (takenLength r.line r.nextCharacters)).length := by
    rw [List.length_take]
    exact Nat.lt_min.mpr ⟨hpos, List.length_pos_iff.mpr hnext⟩
  have hcases := @cut_taken r.line r.nextCharacters hline
  dsimp only at hcases
  rw [htaken]
  generalize r.nextCharacters.take (takenLength r.line r.nextCharacters) = taken at *
  generalize r.nextCharacters.drop (takenLength r.line r.nextCharacters) = others at *
  have hne : r.line ++ taken ≠ [] := by
    intro hnil
    rw [(List.append_eq_nil_iff.mp hnil).2] at hsome
    exact absurd hsome (Nat.lt_irrefl 0)
  have hmeasure : n + others.length + (r.line ++ taken).length
      ≤ n + r.nextCharacters.length + r.line.length := by
    rw [List.length_append]
    omega
  rcases hcases with ⟨hdone, hcuts⟩ | ⟨hnone, hless, hnil, hgoes⟩
  · have hfilled : LineFilled R (n + r.nextCharacters.length + r.line.length) r
        (r.left rest events) (true, { r with line := r.line ++ taken, nextCharacters := others }) :=
      .line ⟨rfl, rfl, rfl⟩ hins hne ⟨hat.arrives, hat.available⟩
        (fun h => absurd h Bool.false_ne_true) hmeasure (bodyOf_cuts hcuts events _ rest).symm
    by_cases hfound : (r.nextCharacters.findIdx? (· = 10)).isSome = true
    · rw [if_pos hfound]
      exact hfilled
    · rw [if_neg hfound, tryFillLine_full fuel (Nat.le_of_eq (hdone.resolve_left hfound).symm)]
      exact hfilled
  · subst hnil
    rw [hnone, if_neg Bool.false_ne_true]
    have hbody : r.left rest events = HtmlChunkReader.left
        { r with line := r.line ++ taken, nextCharacters := [] } rest events := by
      rw [HtmlChunkReader.left, bodyOf_goes hgoes]
      rfl
    have hfuel' : maxLineLength - (r.line ++ taken).length ≤ fuel := by
      rw [List.length_append]
      omega
    have hfilled := @ih { r with line := r.line ++ taken, nextCharacters := [] }
      ⟨hat.arrives, hat.available⟩ hins hless hfuel'
    have hlength : n + ([] : Text).length + (r.line ++ taken).length
        = n + r.nextCharacters.length + r.line.length := by
      rw [List.length_append]
      omega
    rw [hbody, ← hlength]
    exact hfilled.of_later ⟨rfl, rfl, rfl⟩ fun hfile => hne hfile.line

/-- One call of `tryFillLine`. -/
theorem filled_line (fuel : Nat) : ∀ {r : HtmlChunkReader ρ} {n : Nat} {newFile : Bool} {rest : Text}
    {events : List Event}, At R n r newFile rest events →
    (newFile = true → r.line = [] ∧ r.nextCharacters = []) → r.htmlInsertion = [] →
    r.line.length < maxLineLength → maxLineLength - r.line.length ≤ fuel →
    LineFilled R (n + r.nextCharacters.length + r.line.length) r (r.left rest events)
      (r.tryFillLine R fuel) := by
  induction fuel with
  | zero =>
      intro r n newFile rest events _ _ _ hline hfuel
      omega
  | succ fuel ih =>
      intro r n newFile rest events hat hidle hins hline hfuel
      have hrec {k : Nat} {more : Text} {others : List Event} {r' : HtmlChunkReader ρ}
          (hat : At R k r' false more others) := ih hat (fun h => absurd h Bool.false_ne_true)
      rw [HtmlChunkReader.tryFillLine, if_pos hline]
      by_cases hnext : r.nextCharacters = []
      · rw [if_pos hnext]
        have hfound := found_readCharacters hat hnext fun h => (hidle h).1
        generalize r.readCharacters R = found at hfound
        rw [hnext, List.length_nil, Nat.add_zero]
        cases hfound with
        | notReady hsame hline' hins' hnext' hat' hless hleft =>
            exact .notReady hsame hins' hnext' (hline' ▸ hline) hat' (by rw [hline']; omega) hleft
        | insertion hsame hline' hins' hnext' hat' hless hbody =>
            exact .insertion hsame hins' hline' hnext' hat' (Nat.lt_add_right _ hless) hbody
        | @newFile k r' insertion events' hsame hline' hins' hnext' hat' hless hleft hfile =>
            rw [HtmlChunkReader.left, hsame.encoder, hline', hnext', List.nil_append] at hleft
            by_cases hnil : r.line = []
            · rw [hnil] at hleft hline'
              exact .newFile hsame hins' hline' hnext' hat' (Nat.lt_add_right _ hless) hleft
                (hfile hnil)
            · refine .line hsame hins' (hline' ▸ hnil) hat' (fun _ => hnext') ?_ ?_
              · rw [hline', hnext', List.length_nil]
                omega
              · rw [hline', hnext', ← hleft]
                exact (bodyOf_unfinished hnil _ (.inr ⟨_, _, rfl⟩)).symm
        | last hsame hline' hins' hnext' hat' hleft =>
            rw [HtmlChunkReader.left, hsame.encoder, hline', hnext', List.nil_append] at hleft
            by_cases hnil : r.line = []
            · rw [hnil] at hleft hline'
              exact .last hsame hins' hline' hnext' hat' hleft.symm
            · refine .line hsame hins' (hline' ▸ hnil) hat' (fun _ => hnext') ?_ ?_
              · rw [hline', hnext', List.length_nil]
                omega
              · rw [hline', hnext', ← hleft]
                exact (bodyOf_unfinished hnil _ (.inl rfl)).symm
        | @piece k r' rest' events' hsame hline' hins' hnext' hat' hsum hleft =>
            have htake := filled_take hat' hins' (hline' ▸ hline) hnext' (hline' ▸ hfuel) hrec
            rw [hsum, ← hleft, ← hline']
            exact htake.of_later hsame fun hfile => hnext' hfile.nextCharacters
      · rw [if_neg hnext]
        have hnewFile : newFile = false := Bool.eq_false_iff.mpr fun h => hnext (hidle h).2
        subst hnewFile
        exact filled_take hat hins hline hnext hfuel hrec

end Lines

/-! ## One block -/

/-- Between two lines, or where a line has not arrived as a whole. -/
structure Between (R : TextReader ρ) (n : Nat) (r : HtmlChunkReader ρ) (newFile : Bool) (rest : Text)
    (events : List Event) : Prop extends At R n r newFile rest events where
  insertion : r.htmlInsertion = []
  idle : newFile = true → r.line = [] ∧ r.nextCharacters = []
  short : r.line.length < maxLineLength

/-- How much is left to do. -/
def HtmlChunkReader.todo (r : HtmlChunkReader ρ) (n : Nat) : Nat :=
  n + r.nextCharacters.length + r.line.length

/-- What the loop of `try_fill_chunk` does, once. -/
inductive Step (R : TextReader ρ) (page : Page) (m : Nat) (r : HtmlChunkReader ρ)
    (body : Text × Encoder) : Filled ρ → Prop where
  | more {k : Nat} {r' : HtmlChunkReader ρ} {newFile : Bool} {rest : Text} {events : List Event}
      {text : Text} :
      Between R k r' newFile rest events → r'.todo k < m → r'.chunk = r.chunk ++ text →
      r'.state = r.state → before text (r'.left rest events) = body → Step R page m r body (.more r')
  | notReady {k : Nat} {r' : HtmlChunkReader ρ} {events : List Event} :
      Between R k r' false [] events → r'.todo k < m → r'.chunk = r.chunk → r'.state = r.state →
      r'.left [] events = body → Step R page m r body (.done (0 < r.chunk.length) r')
  | full : page.recommendedBlockSize ≤ r.chunk.length → Step R page m r body (.done true r)
  | newFile {k : Nat} {r' : HtmlChunkReader ρ} {events : List Event} :
      Between R k r' true [] events → r'.todo k < m → r'.chunk = r.chunk → r'.state = r.state →
      r'.left [] events = body → r.AtNewFile R → Step R page m r body (.done true r')
  | last {r' : HtmlChunkReader ρ} :
      Between R 0 r' false [] [] → r'.todo 0 = 0 → r'.chunk = r.chunk → r'.state = r.state →
      r'.left [] [] = body → body.1 = [] → Step R page m r body (.done true r')

section Blocks

variable {r : HtmlChunkReader ρ} {n : Nat} {newFile : Bool} {rest : Text} {events : List Event}

theorem step_fillOnce (page : Page) (h : Between R n r newFile rest events) :
    Step R page (r.todo n) r (r.left rest events) (r.fillOnce R page) := by
  rw [HtmlChunkReader.fillOnce]
  by_cases hfull : r.chunk.length < page.recommendedBlockSize
  · rw [if_pos hfull]
    have hfilled := filled_line maxLineLength h.toAt h.idle h.insertion h.short (Nat.sub_le _ _)
    rw [← HtmlChunkReader.todo] at hfilled
    generalize r.tryFillLine R maxLineLength = filled at hfilled
    cases hfilled with
    | notReady hsame hins hnext hshort hat hless hleft =>
        have hbetween : Between R _ _ false [] _ :=
          ⟨hat, hins, fun h => absurd h Bool.false_ne_true, hshort⟩
        dsimp only
        rw [if_neg Bool.false_ne_true, hsame.chunk]
        refine .notReady hbetween ?_ hsame.chunk hsame.state hleft
        rw [HtmlChunkReader.todo, hnext, List.length_nil]
        exact hless
    | @insertion k r' events' hsame hins hline hnext hat hless hbody =>
        have hbetween : Between R k
            { r' with chunk := r'.chunk ++ r'.htmlInsertion, htmlInsertion := [] } false [] events' :=
          ⟨⟨hat.arrives, hat.available⟩, rfl, fun h => absurd h Bool.false_ne_true,
            by rw [hline]; exact Nat.zero_lt_succ _⟩
        dsimp only
        rw [if_pos rfl, if_pos hins]
        refine .more hbetween ?_ (by rw [hsame.chunk]) hsame.state ?_
        · simp only [HtmlChunkReader.todo, hnext, hline, List.length_nil]
          exact hless
        · simp only [HtmlChunkReader.left, hnext, hline, hsame.encoder, List.nil_append]
          exact hbody
    | @line k r' newFile' rest' events' hsame hins hline hat hnext hle hbody =>
        have hbetween : Between R k r'.encodeLine newFile' rest' events' :=
          ⟨⟨hat.arrives, hat.available⟩, hins, fun h => ⟨rfl, hnext h⟩, Nat.zero_lt_succ _⟩
        have hpos := List.length_pos_iff.mpr hline
        dsimp only
        rw [if_pos rfl, if_neg (by rw [hins]; exact fun h => h rfl), if_pos hline]
        refine .more hbetween ?_ (by rw [HtmlChunkReader.encodeLine, hsame.chunk]) hsame.state ?_
        · show k + r'.nextCharacters.length + 0 < _
          omega
        · rw [← hbody, ← hsame.encoder]
          rfl
    | newFile hsame hins hline hnext hat hless hbody hfile =>
        have hbetween : Between R _ _ true [] _ :=
          ⟨hat, hins, fun _ => ⟨hline, hnext⟩, by rw [hline]; exact Nat.zero_lt_succ _⟩
        dsimp only
        rw [if_pos rfl, if_neg (by rw [hins]; exact fun h => h rfl), if_neg (fun h => h hline)]
        refine .newFile hbetween ?_ hsame.chunk hsame.state ?_ hfile
        · simp only [HtmlChunkReader.todo, hnext, hline, List.length_nil]
          exact hless
        · rw [HtmlChunkReader.left, hnext, hline, hsame.encoder]
          exact hbody
    | last hsame hins hline hnext hat hbody =>
        have hbetween : Between R _ _ false [] _ :=
          ⟨hat, hins, fun h => absurd h Bool.false_ne_true, by rw [hline]; exact Nat.zero_lt_succ _⟩
        dsimp only
        rw [if_pos rfl, if_neg (by rw [hins]; exact fun h => h rfl), if_neg (fun h => h hline)]
        refine .last hbetween ?_ hsame.chunk hsame.state ?_ (by rw [hbody])
        · simp only [HtmlChunkReader.todo, hnext, hline, List.length_nil]
        · rw [HtmlChunkReader.left, hnext, hline, hsame.encoder, hbody]
          rfl
  · rw [if_neg hfull]
    exact .full (Nat.le_of_not_lt hfull)

end Blocks

/-! ## A block that comes to a new file -/

section NewFile

variable {r : HtmlChunkReader ρ}

theorem Arrives.noInsertion {n : Nat} {reader : ρ} {rest : Text} {events : List Event}
    (h : Arrives R n reader false rest events) : (R.htmlInsertion reader).1 = [] := by
  cases h with
  | wait hinsertion _ _ => exact hinsertion
  | chunk hready _ _ _ => exact hready.insertion
  | piece hinsertion _ _ _ => exact hinsertion
  | newFile hready _ _ => exact hready.insertion
  | last hended =>
      obtain ⟨P, hP, hall⟩ := hended
      exact (hall _ hP).1.insertion

theorem tryFillLine_atNewFile (h : r.AtNewFile R) (fuel : Nat) :
    r.tryFillLine R (fuel + 1) = (true, { r with
      chunkReader := (R.readFromChunk (R.sized r.chunkReader).2 0).2, htmlInsertion := []
      availableNetChunkSize := 0, nextCharacters := [] }) := by
  have hshort : r.line.length < maxLineLength := by
    rw [h.line]
    exact Nat.zero_lt_succ _
  rw [HtmlChunkReader.tryFillLine, if_pos hshort, if_pos h.nextCharacters,
    readCharacters_ready h.ready.insertion (openChunk_ready h.available h.ready), if_pos h.piece]

/-- Nothing goes to the block, and there is an insertion. -/
theorem fillOnce_atNewFile (page : Page) (h : r.AtNewFile R) (hchunk : r.chunk = []) :
    ∃ r', r.fillOnce R page = .done true r' ∧ r'.chunk = [] ∧
      (R.htmlInsertion r'.chunkReader).1 ≠ [] := by
  have hsize : r.chunk.length < page.recommendedBlockSize := by
    rw [hchunk]
    exact page.size_pos
  rw [HtmlChunkReader.fillOnce, if_pos hsize, show maxLineLength = 9999 + 1 from rfl,
    tryFillLine_atNewFile h]
  dsimp only
  rw [if_pos rfl, if_neg (by simp), if_neg (by rw [h.line]; simp)]
  exact ⟨_, rfl, hchunk, h.insertion⟩

theorem interrupted_more {r' : HtmlChunkReader ρ} (h : r.fillOnce R page = .more r') :
    Interrupted R page r ↔ Interrupted R page r' := by
  constructor
  · intro hi
    cases hi with
    | here hchunk hfile =>
        obtain ⟨_, hdone, -⟩ := fillOnce_atNewFile page hfile hchunk
        rw [h] at hdone
        cases hdone
    | more hmore hi =>
        rw [h] at hmore
        cases hmore
        exact hi
    | block hdone _ _ =>
        rw [h] at hdone
        cases hdone
  · exact .more h

theorem interrupted_block {r' : HtmlChunkReader ρ} {ok : Bool} (h : r.fillOnce R page = .done ok r')
    (hok : ok = false ∨ r'.chunk ≠ []) :
    Interrupted R page r ↔ Interrupted R page { r' with chunk := [] } := by
  constructor
  · intro hi
    cases hi with
    | here hchunk hfile =>
        obtain ⟨r₁, hdone, hnil, -⟩ := fillOnce_atNewFile page hfile hchunk
        rw [h] at hdone
        cases hdone
        rcases hok with hok | hok
        · cases hok
        · exact absurd hnil hok
    | more hmore _ =>
        rw [h] at hmore
        cases hmore
    | block hdone _ hi =>
        rw [h] at hdone
        cases hdone
        exact hi
  · exact .block h hok

theorem not_interrupted_last {r' : HtmlChunkReader ρ} (h : r.fillOnce R page = .done true r')
    (hchunk : r'.chunk = []) (hinsertion : (R.htmlInsertion r'.chunkReader).1 = []) :
    ¬Interrupted R page r := by
  intro hi
  cases hi with
  | here hnil hfile =>
      obtain ⟨_, hdone, -, hne⟩ := fillOnce_atNewFile page hfile hnil
      rw [h] at hdone
      cases hdone
      exact hne hinsertion
  | more hmore _ =>
      rw [h] at hmore
      cases hmore
  | block hdone hok _ =>
      rw [h] at hdone
      cases hdone
      rcases hok with hok | hok
      · cases hok
      · exact hok hchunk

end NewFile

/-! ## The blocks -/

/-- What `try_fill_chunk` gives: the block and what comes then, or no block at a new
    file, or no block at the end. -/
inductive BlockFilled (R : TextReader ρ) (page : Page) (m : Nat) (r : HtmlChunkReader ρ)
    (body : Text × Encoder) : Bool → HtmlChunkReader ρ → Prop where
  | goes {ok : Bool} {r' : HtmlChunkReader ρ} {k : Nat} {newFile : Bool} {rest : Text}
      {events : List Event} (text : Text) :
      Between R k r' newFile rest events → r'.chunk = r.chunk ++ text → r'.state = r.state →
      before text (r'.left rest events) = body → (ok = true ↔ r'.chunk ≠ []) →
      r'.todo k ≤ m → (r.chunk = [] → r'.todo k < m) →
      (Interrupted R page r ↔ Interrupted R page { r' with chunk := [] }) →
      BlockFilled R page m r body ok r'
  | lost {r' : HtmlChunkReader ρ} :
      r.chunk = [] → r'.chunk = [] → r'.state = r.state → body.1 ≠ [] → Interrupted R page r →
      BlockFilled R page m r body true r'
  | last {r' : HtmlChunkReader ρ} :
      r.chunk = [] → r'.chunk = [] → r'.state = r.state → body.1 = [] → ¬Interrupted R page r →
      BlockFilled R page m r body true r'

/-- At a new file an insertion is left. -/
theorem Between.left_ne {r : HtmlChunkReader ρ} {n : Nat} {events : List Event}
    (h : Between R n r true [] events) : (r.left [] events).1 ≠ [] := by
  obtain ⟨hline, hnext⟩ := h.idle rfl
  cases h.arrives with
  | insertion _ hne _ =>
      rw [HtmlChunkReader.left, hline, hnext, bodyOf_newFile]
      exact fun hnil => hne (List.append_eq_nil_iff.mp (List.append_eq_nil_iff.mp hnil).2).1

theorem filled_done {r r' : HtmlChunkReader ρ} {m n : Nat} {newFile : Bool} {rest : Text}
    {events : List Event} {ok : Bool} (h : Between R n r newFile rest events) (hm : r.todo n = m)
    (hfill : r.fillOnce R page = .done ok r')
    (hstep : Step R page m r (r.left rest events) (.done ok r')) :
    BlockFilled R page m r (r.left rest events) ok r' := by
  cases hstep with
  | notReady hbetween hless hchunk hstate hleft =>
      have hok : decide (0 < r.chunk.length) = true ↔ r'.chunk ≠ [] := by
        rw [hchunk, decide_eq_true_eq, List.length_pos_iff]
      refine .goes [] hbetween (by rw [hchunk, List.append_nil]) hstate hleft hok
        (Nat.le_of_lt hless) (fun _ => hless) (interrupted_block hfill ?_)
      by_cases hnil : r'.chunk = []
      · exact .inl (Bool.eq_false_iff.mpr fun h => hok.mp h hnil)
      · exact .inr hnil
  | full hle =>
      have hne : r.chunk ≠ [] :=
        List.length_pos_iff.mp (Nat.lt_of_lt_of_le page.size_pos hle)
      exact .goes [] h (List.append_nil _).symm rfl rfl (iff_of_true rfl hne)
        (Nat.le_of_eq hm) (fun hnil => absurd hnil hne) (interrupted_block hfill (.inr hne))
  | newFile hbetween hless hchunk hstate hleft hfile =>
      by_cases hnil : r.chunk = []
      · exact .lost hnil (hchunk.trans hnil) hstate (hleft ▸ hbetween.left_ne) (.here hnil hfile)
      · have hne : r'.chunk ≠ [] := by rwa [hchunk]
        exact .goes [] hbetween (by rw [hchunk, List.append_nil]) hstate hleft
          (iff_of_true rfl hne) (Nat.le_of_lt hless) (fun _ => hless)
          (interrupted_block hfill (.inr hne))
  | last hbetween hzero hchunk hstate hleft hbody =>
      by_cases hnil : r.chunk = []
      · exact .last hnil (hchunk.trans hnil) hstate hbody
          (not_interrupted_last hfill (hchunk.trans hnil) hbetween.arrives.noInsertion)
      · have hne : r'.chunk ≠ [] := by rwa [hchunk]
        exact .goes [] hbetween (by rw [hchunk, List.append_nil]) hstate hleft
          (iff_of_true rfl hne) (by rw [hzero]; exact Nat.zero_le _) (fun h => absurd h hnil)
          (interrupted_block hfill (.inr hne))

/-- Every block comes to its end. -/
theorem filled_block (m : Nat) : ∀ {r : HtmlChunkReader ρ} {n : Nat} {newFile : Bool} {rest : Text}
    {events : List Event}, Between R n r newFile rest events → r.todo n = m →
    ∃ fuel ok r', r.tryFillChunk R page fuel = some (ok, r') ∧
      BlockFilled R page m r (r.left rest events) ok r' := by
  induction m using Nat.strongRecOn with
  | ind m ih =>
      intro r n newFile rest events h hm
      have hstep := step_fillOnce page h
      rw [hm] at hstep
      cases hfill : r.fillOnce R page with
      | more r₁ =>
          rw [hfill] at hstep
          have hinterrupted := interrupted_more hfill
          cases hstep with
          | @more k _ newFile' rest' events' text hbetween hless hchunk hstate hbody =>
              obtain ⟨fuel, ok, r', hrun, hblock⟩ := ih _ hless hbetween rfl
              refine ⟨fuel + 1, ok, r', by rw [HtmlChunkReader.tryFillChunk, hfill]; exact hrun, ?_⟩
              rw [← hbody]
              cases hblock with
              | @goes _ _ _ _ _ _ text' hbetween' hchunk' hstate' hbody' hok hle _ hi =>
                  have hlt := Nat.lt_of_le_of_lt hle hless
                  refine .goes (text ++ text') hbetween' ?_ (hstate'.trans hstate) ?_ hok
                    (Nat.le_of_lt hlt) (fun _ => hlt) (hinterrupted.trans hi)
                  · rw [hchunk', hchunk, List.append_assoc]
                  · rw [← before_before, hbody']
              | lost hnil hnil' hstate' hne hi =>
                  rw [hchunk] at hnil
                  refine .lost (List.append_eq_nil_iff.mp hnil).1 hnil' (hstate'.trans hstate) ?_
                    (hinterrupted.mpr hi)
                  exact fun hall => hne (List.append_eq_nil_iff.mp hall).2
              | last hnil hnil' hstate' hbody' hi =>
                  rw [hchunk] at hnil
                  obtain ⟨hnil, htext⟩ := List.append_eq_nil_iff.mp hnil
                  refine .last hnil hnil' (hstate'.trans hstate) ?_ (mt hinterrupted.mp hi)
                  rw [htext, before_nil, hbody']
      | done ok r₁ =>
          rw [hfill] at hstep
          exact ⟨1, ok, r₁, by rw [HtmlChunkReader.tryFillChunk, hfill],
            filled_done h hm hfill hstep⟩

/-! ## The page -/

section Page

variable {r : HtmlChunkReader ρ}

theorem nextChunkIsReady_text {r' : HtmlChunkReader ρ} {fuel : Nat} {ok : Bool}
    (hstate : r.state = .readingText)
    (hfill : { r with chunk := [] }.tryFillChunk R page fuel = some (ok, r')) :
    r.nextChunkIsReady R page fuel = if ok then
      (if 0 < r'.chunk.length then some (true, r')
        else some (true, { r' with state := .readingSuffix, chunk := page.htmlSuffix }))
      else some (false, r') := by
  rw [hstate] at hfill
  rw [HtmlChunkReader.nextChunkIsReady, hstate]
  dsimp only
  rw [hfill]
  cases ok <;> rfl

/-- Behind the text only the suffix is delivered. -/
theorem delivers_suffix {r' : HtmlChunkReader ρ} {fuel : Nat} (hstate : r.state = .readingText)
    (hfill : { r with chunk := [] }.tryFillChunk R page fuel = some (true, r'))
    (hchunk : r'.chunk = []) : Delivers R page r page.htmlSuffix := by
  have hready : r.nextChunkIsReady R page fuel
      = some (true, { r' with state := .readingSuffix, chunk := page.htmlSuffix }) := by
    rw [nextChunkIsReady_text hstate hfill, if_pos rfl,
      if_neg (by rw [hchunk]; exact Nat.lt_irrefl 0)]
  have hend : Delivers R page { r' with state := .readingFinished, chunk := page.htmlSuffix } [] :=
    .last 0 rfl rfl
  have hall := Delivers.chunk fuel hready page.suffix_ne hend
  exact (List.append_nil page.htmlSuffix) ▸ hall

theorem between_block {n : Nat} {newFile : Bool} {rest : Text} {events : List Event}
    (h : Between R n r newFile rest events) : Between R n { r with chunk := [] } newFile rest events :=
  ⟨⟨h.arrives, h.available⟩, h.insertion, h.idle, h.short⟩

/-- From the text on, everything is delivered, unless a block comes to a new file. -/
theorem delivers_text (page : Page) (m : Nat) : ∀ {r : HtmlChunkReader ρ} {n : Nat} {newFile : Bool}
    {rest : Text} {events : List Event}, r.state = .readingText →
    Between R n r newFile rest events → r.todo n = m →
    (¬Interrupted R page { r with chunk := [] } →
      Delivers R page r ((r.left rest events).1 ++ page.htmlSuffix)) ∧
    (Interrupted R page { r with chunk := [] } → ∃ output, Delivers R page r output ∧
      output.length < ((r.left rest events).1 ++ page.htmlSuffix).length) := by
  induction m using Nat.strongRecOn with
  | ind m ih =>
      intro r n newFile rest events hstate h hm
      obtain ⟨fuel, ok, r', hfill, hblock⟩ := @filled_block _ R page m _ _ _ _ _ (between_block h) hm
      have hready := nextChunkIsReady_text hstate hfill
      cases hblock with
      | goes text hbetween hchunk hstate' hbody hok _ hless hi =>
          obtain ⟨hgood, hbad⟩ := ih _ (hless rfl) (hstate'.trans hstate) hbetween rfl
          have hchunk : r'.chunk = text := hchunk
          have hbody : before text (r'.left _ _) = r.left rest events := hbody
          rw [hi, ← hbody]
          cases ok with
          | false =>
              have hnil : text = [] := by
                rw [← hchunk]
                exact Classical.not_not.mp fun hne => Bool.false_ne_true (hok.mpr hne)
              rw [hnil]
              refine ⟨fun h => .notReady fuel hready (hgood h), fun h => ?_⟩
              obtain ⟨output, hdelivers, hlength⟩ := hbad h
              exact ⟨output, .notReady fuel hready hdelivers, hlength⟩
          | true =>
              have hne := hok.mp rfl
              have hread : r'.readFromChunk = (text, r') := by
                rw [HtmlChunkReader.readFromChunk, hstate'.trans hstate, hchunk]
              rw [if_pos rfl, if_pos (List.length_pos_iff.mpr hne)] at hready
              have hgoes {output : Text} (hd : Delivers R page r' output) :
                  Delivers R page r (text ++ output) := by
                have hall := @Delivers.chunk _ R page _ _ output fuel hready hne (by rw [hread]; exact hd)
                rwa [hread] at hall
              refine ⟨fun h => ?_, fun h => ?_⟩
              · rw [before, List.append_assoc]
                exact hgoes (hgood h)
              · obtain ⟨output, hdelivers, hlength⟩ := hbad h
                refine ⟨_, hgoes hdelivers, ?_⟩
                rw [before, List.append_assoc, List.length_append, List.length_append]
                exact Nat.add_lt_add_left hlength _
      | lost _ hnil _ hne hi =>
          refine ⟨fun hnot => absurd hi hnot, fun _ => ⟨_, delivers_suffix hstate hfill hnil, ?_⟩⟩
          rw [List.length_append]
          exact Nat.lt_add_of_pos_left (List.length_pos_iff.mpr hne)
      | last _ hnil _ hbody hi =>
          refine ⟨fun _ => ?_, fun hi' => absurd hi' hi⟩
          have hbody : (r.left rest events).1 = [] := hbody
          rw [hbody]
          exact delivers_suffix hstate hfill hnil

/-! ## There is one result -/

theorem tryFillChunk_mono {fuel fuel' : Nat} {result : Bool × HtmlChunkReader ρ}
    (h : r.tryFillChunk R page fuel = some result) (hle : fuel ≤ fuel') :
    r.tryFillChunk R page fuel' = some result := by
  induction fuel generalizing r fuel' with
  | zero => cases h
  | succ fuel ih =>
      obtain ⟨fuel', rfl⟩ := Nat.exists_eq_add_of_le' (Nat.le_of_lt_succ (Nat.lt_succ_of_le hle))
      rw [HtmlChunkReader.tryFillChunk] at h
      rw [show fuel' + (fuel + 1) = fuel' + fuel + 1 from rfl, HtmlChunkReader.tryFillChunk]
      cases hfill : r.fillOnce R page with
      | more r' =>
          rw [hfill] at h
          exact ih h (Nat.le_add_left _ _)
      | done ok r' =>
          rw [hfill] at h
          exact h

theorem nextChunkIsReady_mono {fuel fuel' : Nat} {result : Bool × HtmlChunkReader ρ}
    (h : r.nextChunkIsReady R page fuel = some result) (hle : fuel ≤ fuel') :
    r.nextChunkIsReady R page fuel' = some result := by
  rw [HtmlChunkReader.nextChunkIsReady] at h ⊢
  cases hstate : r.state with
  | readingText =>
      rw [hstate] at h
      dsimp only at h ⊢
      cases hfill : HtmlChunkReader.tryFillChunk R page fuel { r with
          state := .readingText, chunk := [] } with
      | none =>
          rw [hfill] at h
          cases h
      | some filled =>
          rw [hfill] at h
          rw [tryFillChunk_mono hfill hle]
          exact h
  | readingPrefix =>
      rw [hstate] at h
      exact h
  | readingSuffix =>
      rw [hstate] at h
      exact h
  | readingFinished =>
      rw [hstate] at h
      exact h

theorem nextChunkIsReady_unique {fuel fuel' : Nat} {result result' : Bool × HtmlChunkReader ρ}
    (h : r.nextChunkIsReady R page fuel = some result)
    (h' : r.nextChunkIsReady R page fuel' = some result') : result = result' := by
  have hmax := nextChunkIsReady_mono h (Nat.le_max_left fuel fuel')
  rw [nextChunkIsReady_mono h' (Nat.le_max_right fuel fuel')] at hmax
  exact (Option.some.inj hmax).symm

theorem delivers_unique {output output' : Text} (h : Delivers R page r output)
    (h' : Delivers R page r output') : output = output' := by
  induction h generalizing output' with
  | notReady fuel hready _ ih =>
      cases h' with
      | notReady fuel' hready' hrest =>
          cases nextChunkIsReady_unique hready hready'
          exact ih hrest
      | chunk fuel' hready' _ _ => cases nextChunkIsReady_unique hready hready'
      | last fuel' hready' _ => cases nextChunkIsReady_unique hready hready'
  | chunk fuel hready hne _ ih =>
      cases h' with
      | notReady fuel' hready' _ => cases nextChunkIsReady_unique hready hready'
      | chunk fuel' hready' _ hrest =>
          cases nextChunkIsReady_unique hready hready'
          exact congrArg _ (ih hrest)
      | last fuel' hready' hnil =>
          cases nextChunkIsReady_unique hready hready'
          exact absurd hnil hne
  | last fuel hready hnil =>
      cases h' with
      | notReady fuel' hready' _ => cases nextChunkIsReady_unique hready hready'
      | chunk fuel' hready' hne _ =>
          cases nextChunkIsReady_unique hready hready'
          exact absurd hnil hne
      | last fuel' hready' _ => rfl

/-! ## The whole page -/

/-- The state with which the text begins. -/
def HtmlChunkReader.atText (page : Page) (reader : ρ) : HtmlChunkReader ρ :=
  { HtmlChunkReader.start reader with state := .readingText, chunk := page.htmlPrefix }

theorem delivers_page {reader : ρ} {output : Text}
    (h : Delivers R page (HtmlChunkReader.atText page reader) output) :
    Delivers R page (.start reader) (page.htmlPrefix ++ output) :=
  @Delivers.chunk _ R page _ { HtmlChunkReader.start reader with chunk := page.htmlPrefix } output 0
    rfl page.prefix_ne h

/-- The page is complete, if and only if no block comes to a new file before anything
    has been put into it, and no span is open at the end. -/
theorem complete_iff {n : Nat} {reader : ρ} {events : List Event}
    (h : Arrives R n reader false [] events) :
    Delivers R page (.start reader) (page.expected events) ↔
      ¬Interrupted R page { HtmlChunkReader.start reader with state := .readingText } ∧
        closing (bodyOf .start [] [] events).2 = [] := by
  have hbetween : Between R n (HtmlChunkReader.atText page reader) false [] events :=
    ⟨⟨h, rfl⟩, rfl, fun h => absurd h Bool.false_ne_true, Nat.zero_lt_succ _⟩
  obtain ⟨hgood, hbad⟩ := delivers_text page _ rfl hbetween rfl
  have hleft : (HtmlChunkReader.atText page reader).left [] events = bodyOf .start [] [] events := rfl
  rw [hleft] at hgood hbad
  have hexpected : page.expected events = page.htmlPrefix
      ++ ((bodyOf .start [] [] events).1 ++ closing (bodyOf .start [] [] events).2
        ++ page.htmlSuffix) := rfl
  have hstart : { HtmlChunkReader.start reader with state := .readingText }
      = { HtmlChunkReader.atText page reader with chunk := [] } := rfl
  rw [hexpected, hstart]
  constructor
  · intro hdelivers
    by_cases hi : Interrupted R page { HtmlChunkReader.atText page reader with chunk := [] }
    · obtain ⟨output, hd, hlength⟩ := hbad hi
      have heq := congrArg List.length (delivers_unique hdelivers (delivers_page hd))
      simp only [List.length_append] at heq hlength
      omega
    · have heq := congrArg List.length (delivers_unique hdelivers (delivers_page (hgood hi)))
      simp only [List.length_append] at heq
      exact ⟨hi, List.length_eq_zero_iff.mp (by omega)⟩
  · rintro ⟨hi, hclosing⟩
    rw [hclosing, List.append_nil]
    exact delivers_page (hgood hi)

end Page

/-! ## The last line -/

/-- The encoder when the line has begun so. -/
structure Begun (begun : Option Text) (st : Encoder) : Prop where
  atBeginOfLine : st.atBeginOfLine = begun.isNone
  inSpan : st.inSpan = if (begun.bind levelOf).isSome then 1 else 0

/-- An end of a line is at its end. -/
structure OneLine (line : Text) : Prop where
  nonempty : line ≠ []
  lineEnd : 10 ∈ line ↔ line.getLast? = some 10

theorem oneLine_cutLines (text : Text) : ∀ {begin : Text}, 10 ∉ begin →
    ∀ line ∈ cutLines begin text, OneLine line := by
  induction text with
  | nil =>
      intro begin hbegin line hline
      rw [cutLines] at hline
      by_cases hnil : begin = []
      · rw [if_pos hnil] at hline
        exact absurd hline List.not_mem_nil
      · rw [if_neg hnil, List.mem_singleton] at hline
        subst hline
        exact ⟨hnil, iff_of_false hbegin fun hlast => hbegin (List.mem_of_getLast? hlast)⟩
  | cons c text ih =>
      intro begin hbegin line hline
      rw [cutLines] at hline
      by_cases hcut : c = 10 ∨ maxLineLength ≤ begin.length + 1
      · rw [if_pos hcut] at hline
        rcases List.mem_cons.mp hline with rfl | hline
        · refine ⟨by simp, ?_⟩
          rw [List.mem_append, List.mem_singleton, List.getLast?_concat, Option.some.injEq,
            or_iff_right hbegin, eq_comm]
        · exact ih List.not_mem_nil line hline
      · rw [if_neg hcut] at hline
        refine ih ?_ line hline
        rw [List.mem_append, List.mem_singleton]
        rintro (hmem | rfl)
        · exact hbegin hmem
        · exact hcut (.inl rfl)

theorem address_noLf (text : Text) : 10 ∉ address text := by
  intro hmem
  have htake := (List.rdropWhile_prefix _ _).subset hmem
  exact absurd (List.mem_takeWhile_imp htake) (by decide)

theorem charItems_snd (text : Text) (skip : Nat) (st : Encoder) :
    (charItems text skip st).2 = if 10 ∈ text.drop skip then ⟨0, true⟩ else st := by
  induction text generalizing skip st with
  | nil =>
      rw [List.drop_nil, if_neg List.not_mem_nil]
      rfl
  | cons c rest ih =>
      cases skip with
      | succ skip => exact ih skip st
      | zero =>
          have hother (hlf : c ≠ 10) : 10 ∈ c :: rest ↔ 10 ∈ rest := by
            rw [List.mem_cons, or_iff_right (Ne.symm hlf)]
          rw [charItems, List.drop_zero]
          by_cases hcr : c = 13
          · rw [if_pos hcr]
            show (charItems rest 0 st).2 = _
            rw [ih, List.drop_zero]
            simp only [hother (by rw [hcr]; decide)]
          · rw [if_neg hcr]
            by_cases hlf : c = 10
            · rw [if_pos hlf]
              show (charItems rest 0 _).2 = _
              rw [ih, hlf, if_pos List.mem_cons_self, ite_self]
            · rw [if_neg hlf]
              by_cases hhttp : http.isPrefixOf (c :: rest) = true
              · rw [if_pos hhttp]
                show (charItems rest ((address (c :: rest)).length - 1) st).2 = _
                rw [ih]
                obtain ⟨more, hmore⟩ := address_prefix (c :: rest)
                have hnot := address_noLf (c :: rest)
                cases haddress : address (c :: rest) with
                | nil => exact absurd haddress (address_ne_nil hhttp)
                | cons d url =>
                    rw [haddress, List.cons_append, List.cons.injEq] at hmore
                    obtain ⟨rfl, rfl⟩ := hmore
                    rw [haddress] at hnot
                    have hmem : 10 ∈ d :: (url ++ more) ↔ 10 ∈ more := by
                      rw [← List.cons_append, List.mem_append, or_iff_right hnot]
                    rw [List.length_cons, Nat.add_sub_cancel, List.drop_left]
                    simp only [hmem]
              · rw [if_neg hhttp]
                show (charItems rest 0 st).2 = _
                rw [ih, List.drop_zero]
                simp only [hother hlf]

theorem Begun.lineItems {begun : Option Text} {st : Encoder} (h : Begun begun st) {line : Text}
    (hline : OneLine line) :
    Begun (if line.getLast? = some 10 then none else some (begun.getD line))
      (HtmlLog.lineItems line st).2 := by
  have hbegin := h.atBeginOfLine
  have hspan := h.inSpan
  rw [HtmlLog.lineItems]
  by_cases hlast : line.getLast? = some 10
  · have hmem := hline.lineEnd.mpr hlast
    rw [if_pos hlast]
    split
    · show Begun none (charItems line 0 _).2
      rw [charItems_snd, List.drop_zero, if_pos hmem]
      exact ⟨rfl, rfl⟩
    · rw [charItems_snd, List.drop_zero, if_pos hmem]
      exact ⟨rfl, rfl⟩
  · have hmem := mt hline.lineEnd.mp hlast
    rw [if_neg hlast]
    cases begun with
    | none =>
        rw [Option.isNone_none] at hbegin
        rw [if_pos hbegin]
        cases hlevel : levelOf line with
        | none =>
            show Begun _ (charItems line 0 _).2
            rw [charItems_snd, List.drop_zero, if_neg hmem]
            refine ⟨rfl, ?_⟩
            show st.inSpan = if (levelOf line).isSome then 1 else 0
            rw [hspan, hlevel]
            rfl
        | some level =>
            show Begun _ (charItems line 0 _).2
            rw [charItems_snd, List.drop_zero, if_neg hmem]
            refine ⟨rfl, ?_⟩
            show st.inSpan + 1 = if (levelOf line).isSome then 1 else 0
            rw [hspan, hlevel]
            rfl
    | some first =>
        rw [Option.isNone_some] at hbegin
        rw [if_neg (by rw [hbegin]; exact Bool.false_ne_true)]
        show Begun _ (charItems line 0 _).2
        rw [charItems_snd, List.drop_zero, if_neg hmem]
        exact ⟨rfl, hspan⟩

theorem Begun.encodeLines {lines : List Text} (hlines : ∀ line ∈ lines, OneLine line) :
    ∀ {begun : Option Text} {st : Encoder}, Begun begun st →
      Begun (openLine begun lines) (HtmlReader.encodeLines lines st).2 := by
  induction lines with
  | nil => exact fun h => h
  | cons line lines ih =>
      intro begun st h
      exact ih (fun line hmem => hlines line (List.mem_cons_of_mem _ hmem))
        (h.lineItems (hlines line List.mem_cons_self))

theorem Begun.bodyOf {events : List Event} : ∀ {begun : Option Text} {st : Encoder} {line text : Text},
    Begun begun st → 10 ∉ line →
    Begun (lastLine begun line text events) (HtmlReader.bodyOf st line text events).2 := by
  induction events with
  | nil =>
      intro begun st line text h hline
      exact h.encodeLines (oneLine_cutLines text hline)
  | cons event events ih =>
      intro begun st line text h hline
      cases event with
      | text more => exact ih h hline
      | newFile insertion =>
          rw [bodyOf_newFile]
          exact ih (h.encodeLines (oneLine_cutLines text hline)) List.not_mem_nil

theorem Begun.closing_eq_nil {begun : Option Text} {st : Encoder} (h : Begun begun st) :
    closing st = [] ↔ ∀ line, begun = some line → levelOf line = none := by
  have hspan := h.inSpan
  cases begun with
  | none =>
      rw [closing, hspan]
      exact iff_of_true rfl nofun
  | some first =>
      rw [closing, hspan]
      cases hlevel : levelOf first with
      | none =>
          refine iff_of_true ?_ ?_
          · rw [Option.bind_some, hlevel]
            rfl
          · rintro line ⟨⟩
            exact hlevel
      | some level =>
          refine iff_of_false ?_ fun hall => ?_
          · rw [Option.bind_some, hlevel]
            exact nofun
          · rw [hall first rfl] at hlevel
            cases hlevel

/-- The page is complete, if and only if no block comes to a new file before anything
    has been put into it, and the last line has ended or has no level. -/
theorem complete_iff_noticed {n : Nat} {reader : ρ} {events : List Event}
    (h : Arrives R n reader false [] events) :
    Delivers R page (.start reader) (page.expected events) ↔
      ¬Interrupted R page { HtmlChunkReader.start reader with state := .readingText } ∧
        ∀ line, lastLine none [] [] events = some line → levelOf line = none := by
  have hbegun : Begun (lastLine none [] [] events) (bodyOf .start [] [] events).2 :=
    Begun.bodyOf ⟨rfl, rfl⟩ List.not_mem_nil
  rw [complete_iff h, hbegun.closing_eq_nil]

end HtmlReader
