import SchedulerEngine.XmlEndFinderProofs
import Mathlib.Data.List.TakeWhile

/-! # How the end of an XML command is found

    The finder is led through a document markup by markup: each one leaves it outside
    of the tags, with the count of the elements that are open. -/

namespace XmlEnd

open Http

/-! ## Chunks -/

section Chunks

variable {f : XmlEndFinder} {a b text : Text}

theorem stepBegin_active {tok : TokEntry} {c : UInt8} (h : tok.active = false)
    (hfound : (tok.stepBegin c).1 = false) : (tok.stepBegin c).2.active = false := by
  rw [TokEntry.stepBegin] at hfound ⊢
  split at hfound
  · split at hfound
    · cases hfound
    · rw [if_pos ‹_›, if_neg ‹_›]
      exact h
  · rw [if_neg ‹_›]
    exact h

/-- A character completes the document where the loop ends, and else leaves that as it was. -/
structure Kept (f : XmlEndFinder) (stepped : Bool × XmlEndFinder) : Prop where
  atBegin : stepped.2.atBegin = f.atBegin
  complete : stepped.2.xmlIsComplete = (stepped.1 || f.xmlIsComplete)

theorem kept_stepTag (c : UInt8) (f : XmlEndFinder) : Kept f (f.stepTag c) := by
  rw [XmlEndFinder.stepTag]
  split
  · refine ⟨?_, ?_⟩ <;> dsimp only
    all_goals repeat' split
    all_goals rfl
  · dsimp only
    repeat' split
    all_goals exact ⟨rfl, rfl⟩

theorem kept_stepText (c : UInt8) (f : XmlEndFinder) : Kept f (f.stepText c) := by
  rw [XmlEndFinder.stepText]
  dsimp only
  repeat' split
  all_goals exact ⟨rfl, rfl⟩

theorem kept_step (c : UInt8) (f : XmlEndFinder) : Kept f (f.step c) := by
  rw [XmlEndFinder.step]
  repeat' split
  · exact ⟨rfl, rfl⟩
  · exact ⟨rfl, rfl⟩
  · exact ⟨rfl, rfl⟩
  · exact kept_stepTag c f
  · exact kept_stepText c f

theorem scan_cons (c : UInt8) (text : Text) (f : XmlEndFinder) :
    f.scan (c :: text) = if (f.step c).1 then (f.step c).2
      else XmlEndFinder.scan text { (f.step c).2 with lastChar := c } := rfl

theorem scan_stays (text : Text) (h : f.xmlIsComplete = true) :
    (f.scan text).xmlIsComplete = true := by
  induction text generalizing f with
  | nil => exact h
  | cons c text ih =>
      have hcomplete : (f.step c).2.xmlIsComplete = true := by
        rw [(kept_step c f).complete, h, Bool.or_true]
      rw [scan_cons]
      split
      · exact hcomplete
      · exact ih hcomplete

/-- A text that does not complete the document may be cut off. -/
theorem scan_append (h : (f.scan a).xmlIsComplete = false) : f.scan (a ++ b) = (f.scan a).scan b := by
  induction a generalizing f with
  | nil => rfl
  | cons c a ih =>
      rw [scan_cons] at h
      rw [List.cons_append, scan_cons, scan_cons]
      split at h
      · rw [(kept_step c f).complete, ‹(f.step c).1 = true›] at h
        cases h
      · rw [if_neg ‹_›, if_neg ‹_›]
        exact ih h

theorem scan_append_complete (h : (f.scan a).xmlIsComplete = true) :
    (f.scan (a ++ b)).xmlIsComplete = true := by
  induction a generalizing f with
  | nil => exact scan_stays b h
  | cons c a ih =>
      rw [scan_cons] at h
      rw [List.cons_append, scan_cons]
      split at h
      · rw [if_pos ‹_›]
        exact h
      · rw [if_neg ‹_›]
        exact ih h

theorem scan_cut (h : (f.scan (a ++ b)).xmlIsComplete = false) :
    (f.scan a).xmlIsComplete = false := by
  cases hcomplete : (f.scan a).xmlIsComplete with
  | false => rfl
  | true => exact absurd h (by rw [scan_append_complete hcomplete]; exact nofun)

theorem scan_atBegin (text : Text) (f : XmlEndFinder) : (f.scan text).atBegin = f.atBegin := by
  induction text generalizing f with
  | nil => rfl
  | cons c text ih =>
      rw [scan_cons]
      split
      · exact (kept_step c f).atBegin
      · exact (ih _).trans (kept_step c f).atBegin

theorem atFirst_eq (chunk : Text) (h : f.atBegin = false) : f.atFirst chunk = f := by
  cases chunk with
  | nil => rfl
  | cons c chunk =>
      rw [XmlEndFinder.atFirst, h]
      exact if_neg Bool.false_ne_true

/-- The chunks are searched as one text. -/
theorem requestIsComplete_foldl (chunks : List Text) {op : XmlOperation}
    (hbegin : op.xmlEndFinder.atBegin = false)
    (hop : op.requestIsComplete = op.xmlEndFinder.xmlIsComplete) :
    (chunks.foldl XmlOperation.putRequestPart op).requestIsComplete
      = (op.xmlEndFinder.scan chunks.flatten).xmlIsComplete := by
  induction chunks generalizing op with
  | nil => exact hop
  | cons chunk chunks ih =>
      have hfinder : (op.putRequestPart chunk).xmlEndFinder = op.xmlEndFinder.scan chunk := by
        show (op.xmlEndFinder.atFirst chunk).scan chunk = _
        rw [atFirst_eq chunk hbegin]
      have hrequest : (op.putRequestPart chunk).requestIsComplete
          = (op.putRequestPart chunk).xmlEndFinder.xmlIsComplete := rfl
      have hbegin' : (op.putRequestPart chunk).xmlEndFinder.atBegin = false := by
        rw [hfinder, scan_atBegin, hbegin]
      rw [List.foldl_cons, ih hbegin' hrequest, hfinder, List.flatten_cons]
      cases hcomplete : (op.xmlEndFinder.scan chunk).xmlIsComplete with
      | false => rw [scan_append hcomplete]
      | true => rw [scan_stays _ hcomplete, scan_append_complete hcomplete]

/-- The finder when it has seen a `<` at first. -/
def begun : XmlEndFinder := { XmlEndFinder.start with atBegin := false, isXml := true }

theorem requestIsComplete_start {chunks : List Text} {others : Text}
    (hne : ∀ chunk ∈ chunks, chunk ≠ []) (hhead : (chunks.flatten ++ others).head? = some 60) :
    (chunks.foldl XmlOperation.putRequestPart .start).requestIsComplete
      = (begun.scan chunks.flatten).xmlIsComplete := by
  cases chunks with
  | nil => rfl
  | cons chunk chunks =>
      obtain ⟨c, chunk', hchunk⟩ := List.exists_cons_of_ne_nil (hne chunk List.mem_cons_self)
      subst hchunk
      have hc : c = 60 := Option.some.inj hhead
      subst hc
      exact @requestIsComplete_foldl ((60 :: chunk') :: chunks)
        { XmlOperation.start with xmlEndFinder := begun } rfl rfl

/-- Where a text is found complete with its last character, and not before, it is found
    whatever the chunks and whatever follows. -/
theorem findsEnd_of_scan {D : Document} {init : Text} (hbytes : D.upToEnd = init ++ [62])
    (hinit : (begun.scan init).xmlIsComplete = false)
    (hend : (begun.scan (init ++ [62])).xmlIsComplete = true) : D.FindsEnd := by
  intro chunks others hne htext
  have hhead : (chunks.flatten ++ others).head? = some 60 := by
    have hbegins : D.upToEnd.head? = some 60 := D.begins
    rw [htext, Document.bytes, List.head?_append, hbegins]
    rfl
  rw [requestIsComplete_start hne hhead]
  rw [Document.bytes, hbytes] at htext
  rw [hbytes]
  constructor
  · intro hcomplete
    by_contra hless
    have hle : chunks.flatten.length ≤ init.length := by
      rw [List.length_append, List.length_singleton] at hless
      omega
    have hprefix : chunks.flatten <+: init := by
      refine List.prefix_of_prefix_length_le (List.prefix_append _ others) ?_ hle
      rw [htext, List.append_assoc]
      exact List.prefix_append _ _
    obtain ⟨rest, hrest⟩ := hprefix
    rw [← hrest] at hinit
    rw [scan_cut hinit] at hcomplete
    cases hcomplete
  · intro hle
    have hprefix : init ++ [62] <+: chunks.flatten := by
      refine List.prefix_of_prefix_length_le ?_ (List.prefix_append _ others) hle
      rw [htext]
      exact List.prefix_append _ _
    obtain ⟨rest, hrest⟩ := hprefix
    rw [← hrest]
    exact scan_append_complete hend

end Chunks

/-! ## Between the tags -/

/-- Outside of the tags and sections, with the count of the open elements. -/
def between (n : BitVec 32) (cdata comment : TokEntry) (last : UInt8) : XmlEndFinder :=
  ⟨n, false, false, false, false, false, true, false, last, cdata, comment⟩

/-- In a tag that counts for nothing, or outside. -/
def special (n : BitVec 32) (cdata comment : TokEntry) (last : UInt8) : Place → XmlEndFinder
  | .outside => between n cdata comment last
  | .atStart => { between n cdata comment last with inTag := true, atStartTag := true }
  | .inside => { between n cdata comment last with inTag := true, inSpecialTag := true }

def TokEntry.steps : Text → TokEntry → TokEntry
  | [], tok => tok
  | c :: text, tok => steps text (tok.stepBegin c).2

/-- Neither section has begun, and the text begins none. -/
structure Calm (cdata comment : TokEntry) (text : Text) : Prop where
  cdataActive : cdata.active = false
  commentActive : comment.active = false
  cdataOpens : cdata.opens text = false
  commentOpens : comment.opens text = false

section Calm

variable {cdata comment : TokEntry} {c : UInt8} {text more : Text} {n : BitVec 32} {last : UInt8}

theorem opens_append (text more : Text) (tok : TokEntry) :
    tok.opens (text ++ more) = (tok.opens text || (tok.steps text).opens more) := by
  induction text generalizing tok with
  | nil => rfl
  | cons c text ih =>
      show ((tok.stepBegin c).1 || TokEntry.opens (text ++ more) _) = (((tok.stepBegin c).1 || _) || _)
      rw [ih, Bool.or_assoc]
      rfl

theorem steps_append (text more : Text) (tok : TokEntry) :
    tok.steps (text ++ more) = (tok.steps text).steps more := by
  induction text generalizing tok with
  | nil => rfl
  | cons c text ih => exact ih _

theorem Calm.head (h : Calm cdata comment (c :: text)) :
    (cdata.stepBegin c).1 = false ∧ (comment.stepBegin c).1 = false :=
  ⟨(Bool.or_eq_false_iff.mp h.cdataOpens).1, (Bool.or_eq_false_iff.mp h.commentOpens).1⟩

theorem Calm.tail (h : Calm cdata comment (c :: text)) :
    Calm (cdata.stepBegin c).2 (comment.stepBegin c).2 text :=
  ⟨stepBegin_active h.cdataActive h.head.1, stepBegin_active h.commentActive h.head.2,
    (Bool.or_eq_false_iff.mp h.cdataOpens).2, (Bool.or_eq_false_iff.mp h.commentOpens).2⟩

theorem Calm.left (h : Calm cdata comment (text ++ more)) : Calm cdata comment text := by
  have hcdata := h.cdataOpens
  have hcomment := h.commentOpens
  rw [opens_append, Bool.or_eq_false_iff] at hcdata hcomment
  exact ⟨h.cdataActive, h.commentActive, hcdata.1, hcomment.1⟩

theorem Calm.right (h : Calm cdata comment (text ++ more)) :
    Calm (cdata.steps text) (comment.steps text) more := by
  induction text generalizing cdata comment with
  | nil => exact h
  | cons c text ih => exact ih h.tail

/-- A character outside of the tags is text, or it begins a tag. -/
theorem step_between (hc : c ≠ 0) (h : Calm cdata comment (c :: text)) :
    (between n cdata comment last).step c = (false,
      { special n (cdata.stepBegin c).2 (comment.stepBegin c).2 last
          (if c = 60 then .atStart else .outside) with lastChar := last }) := by
  obtain ⟨hcdata, hcomment⟩ := h.head
  have hstep : (between n cdata comment last).step c = (between n cdata comment last).stepText c := by
    rw [XmlEndFinder.step, if_neg hc, between]
    dsimp only
    rw [if_neg (by rw [h.cdataActive]; exact Bool.false_ne_true),
      if_neg (by rw [h.commentActive]; exact Bool.false_ne_true), if_neg Bool.false_ne_true]
  rw [hstep, XmlEndFinder.stepText, between]
  dsimp only
  rw [hcdata, hcomment, if_neg (by exact nofun), if_neg (by exact nofun)]
  split <;> rfl

/-- A character of a tag is no matter for the sections. -/
theorem step_inTag {f : XmlEndFinder} (hc : c ≠ 0) (hcdata : f.cdata.active = false)
    (hcomment : f.comment.active = false) (htag : f.inTag = true) : f.step c = f.stepTag c := by
  rw [XmlEndFinder.step, if_neg hc, if_neg (by rw [hcdata]; exact Bool.false_ne_true),
    if_neg (by rw [hcomment]; exact Bool.false_ne_true), if_pos htag]

theorem scan_step {f f' : XmlEndFinder} (h : f.step c = (false, f')) :
    f.scan (c :: text) = XmlEndFinder.scan text { f' with lastChar := c } := by
  rw [scan_cons, h]
  exact if_neg Bool.false_ne_true

/-- What is neutral leaves the count as it was. -/
theorem scan_neutral {place : Place} (hneutral : neutral place text = true)
    (hchars : ∀ c ∈ text, c ≠ 0) (h : Calm cdata comment (skeleton place text)) :
    ∃ last', ∀ more, (special n cdata comment last place).scan (text ++ more)
      = (between n (cdata.steps (skeleton place text)) (comment.steps (skeleton place text))
          last').scan more := by
  induction text generalizing place cdata comment last with
  | nil =>
      cases place with
      | outside => exact ⟨last, fun _ => rfl⟩
      | atStart => cases hneutral
      | inside => cases hneutral
  | cons c text ih =>
      have hc := hchars c List.mem_cons_self
      have hchars' := fun d hd => hchars d (List.mem_cons_of_mem c hd)
      cases place with
      | outside =>
          obtain ⟨last', hscan⟩ := @ih _ _ c _ hneutral hchars' h.tail
          refine ⟨last', fun more => ?_⟩
          rw [List.cons_append]
          refine (scan_step (step_between hc h)).trans (Eq.trans ?_ (hscan more))
          congr 1
          split <;> rfl
      | atStart =>
          rw [neutral, Bool.and_eq_true, Bool.and_eq_true, bne_iff_ne, Bool.not_eq_true'] at hneutral
          obtain ⟨last', hscan⟩ := @ih _ _ c .inside hneutral.2 hchars' h
          refine ⟨last', fun more => ?_⟩
          have hstep : (special n cdata comment last .atStart).step c
              = (false, special n cdata comment last .inside) := by
            refine (step_inTag hc h.cdataActive h.commentActive rfl).trans ?_
            rw [XmlEndFinder.stepTag, special]
            dsimp only
            rw [if_pos rfl, if_neg hneutral.1.1, if_neg (by rw [hneutral.1.2]; exact Bool.false_ne_true)]
            rfl
          rw [List.cons_append]
          exact (scan_step hstep).trans (hscan more)
      | inside =>
          obtain ⟨last', hscan⟩ := @ih _ _ c _ hneutral hchars' h
          refine ⟨last', fun more => ?_⟩
          have hstep : (special n cdata comment last .inside).step c
              = (false, special n cdata comment last (if c = 62 then .outside else .inside)) := by
            refine (step_inTag hc h.cdataActive h.commentActive rfl).trans ?_
            rw [XmlEndFinder.stepTag, special]
            dsimp only
            rw [if_neg (by exact nofun)]
            split
            · rfl
            · rfl
          rw [List.cons_append]
          refine (scan_step hstep).trans (Eq.trans ?_ (hscan more))
          congr 1
          split <;> rfl

end Calm

/-! ## A tag -/

/-- In the tag that begins with `c`, behind its first character. -/
def inTag (n : BitVec 32) (cdata comment : TokEntry) (c last : UInt8) : XmlEndFinder :=
  { between n cdata comment last with
    inTag := true, inEndTag := c = 47, inSpecialTag := c ≠ 47 && !isAlpha c }

section Tag

variable {cdata comment : TokEntry} {c d : UInt8} {text more : Text} {n : BitVec 32} {last : UInt8}

theorem step_inside (hd : d ≠ 0) (hend : d ≠ 62) (h : Calm cdata comment []) :
    (inTag n cdata comment c last).step d = (false, inTag n cdata comment c last) := by
  refine (step_inTag hd h.cdataActive h.commentActive rfl).trans ?_
  rw [XmlEndFinder.stepTag, inTag]
  dsimp only
  rw [if_neg (by exact nofun), if_neg hend]

theorem scan_inside (htext : ∀ d ∈ text, d ≠ 0 ∧ d ≠ 62) (h : Calm cdata comment []) :
    (inTag n cdata comment c last).scan (text ++ more)
      = (inTag n cdata comment c ((last :: text).getLast (List.cons_ne_nil _ _))).scan more := by
  induction text generalizing last with
  | nil => rfl
  | cons d text ih =>
      have hd := htext d List.mem_cons_self
      rw [List.cons_append, scan_step (step_inside hd.1 hd.2 h), List.getLast_cons (List.cons_ne_nil _ _)]
      exact ih fun e he => htext e (List.mem_cons_of_mem d he)

theorem Calm.nil (h : Calm cdata comment text) : Calm cdata comment [] :=
  @Calm.left cdata comment [] text h

/-- A tag up to its first `>`. -/
theorem scan_tag (hc : c ≠ 0) (htext : ∀ d ∈ text, d ≠ 0 ∧ d ≠ 62) (h : Calm cdata comment [60]) :
    (between n cdata comment last).scan (60 :: c :: (text ++ more))
      = (inTag n (cdata.stepBegin 60).2 (comment.stepBegin 60).2 c
          ((c :: text).getLast (List.cons_ne_nil _ _))).scan more := by
  have hbegun : (special n (cdata.stepBegin 60).2 (comment.stepBegin 60).2 60 .atStart).step c
      = (false, inTag n (cdata.stepBegin 60).2 (comment.stepBegin 60).2 c 60) := by
    refine (step_inTag hc h.tail.cdataActive h.tail.commentActive rfl).trans ?_
    rw [XmlEndFinder.stepTag, special]
    dsimp only
    rw [if_pos rfl, inTag]
    by_cases hslash : c = 47
    · rw [if_pos hslash, hslash]
      rfl
    · rw [if_neg hslash, decide_eq_false hslash, decide_eq_true hslash]
      cases halpha : isAlpha c with
      | false => rfl
      | true => rfl
  rw [scan_step (step_between (by decide) h), if_pos rfl]
  refine (scan_step hbegun).trans ?_
  exact scan_inside htext h.tail

/-- The end of a tag, as far as it depends on the tag. -/
theorem step_end (h : Calm cdata comment []) :
    (inTag n cdata comment c last).step 62 = (inTag n cdata comment c last).stepTag 62 :=
  step_inTag (by decide) h.cdataActive h.commentActive rfl

theorem step_end_special (hslash : c ≠ 47) (halpha : isAlpha c = false) (h : Calm cdata comment []) :
    (inTag n cdata comment c last).step 62 = (false, between n cdata comment last) := by
  rw [step_end h, XmlEndFinder.stepTag, inTag, decide_eq_false hslash, decide_eq_true hslash, halpha]
  rfl

theorem step_end_start (halpha : isAlpha c = true) (hlast : last ≠ 47) (h : Calm cdata comment []) :
    (inTag n cdata comment c last).step 62 = (false, between (n + 1) cdata comment last) := by
  have hslash : c ≠ 47 := fun heq => absurd (heq ▸ halpha) (by decide)
  rw [step_end h, XmlEndFinder.stepTag, inTag, decide_eq_false hslash, decide_eq_true hslash, halpha]
  dsimp only
  rw [if_neg (by exact nofun), if_pos rfl, if_neg (by exact nofun), if_neg (by exact nofun)]
  exact if_pos hlast

theorem step_end_empty (halpha : isAlpha c = true) (hn : n ≠ 0) (h : Calm cdata comment []) :
    (inTag n cdata comment c 47).step 62 = (false, between n cdata comment 47) := by
  have hslash : c ≠ 47 := fun heq => absurd (heq ▸ halpha) (by decide)
  rw [step_end h, XmlEndFinder.stepTag, inTag, decide_eq_false hslash, decide_eq_true hslash, halpha]
  dsimp only
  rw [if_neg (by exact nofun), if_pos rfl, if_neg (by exact nofun), if_neg (by exact nofun),
    if_neg (by exact nofun)]
  exact if_neg hn

theorem complete_end_empty (halpha : isAlpha c = true) (h : Calm cdata comment []) :
    ((inTag 0 cdata comment c 47).scan [62]).xmlIsComplete = true := by
  have hslash : c ≠ 47 := fun heq => absurd (heq ▸ halpha) (by decide)
  rw [scan_cons, step_end h, XmlEndFinder.stepTag, inTag, decide_eq_false hslash,
    decide_eq_true hslash, halpha]
  rfl

theorem step_end_endTag (hn : n - 1 ≠ 0) (h : Calm cdata comment []) :
    (inTag n cdata comment 47 last).step 62 = (false, between (n - 1) cdata comment last) := by
  rw [step_end h, XmlEndFinder.stepTag, inTag]
  dsimp only
  rw [if_neg (by exact nofun), if_pos rfl, if_pos (by decide)]
  exact if_neg hn

theorem complete_end_endTag (h : Calm cdata comment []) :
    ((inTag 1 cdata comment 47 last).scan [62]).xmlIsComplete = true := by
  have hstep : ((inTag 1 cdata comment 47 last).step 62).1 = true := by
    rw [step_end h, XmlEndFinder.stepTag, inTag]
    dsimp only
    rw [if_neg (by exact nofun), if_pos rfl, if_pos (by decide)]
    exact congrArg Prod.fst (if_pos (show (1 : BitVec 32) - 1 = 0 by decide))
  rw [scan_cons, if_pos hstep, (kept_step _ _).complete, hstep, Bool.true_or]

/-- Where a text holds no `<`, it is text. -/
theorem neutral_plain (htext : 60 ∉ text) : neutral .outside text = true := by
  induction text with
  | nil => rfl
  | cons c text ih =>
      rw [List.mem_cons, not_or] at htext
      rw [neutral, if_neg (Ne.symm htext.1)]
      exact ih htext.2

theorem skeleton_inside (htext : 62 ∉ text) :
    skeleton .inside (text ++ 62 :: more) = skeleton .outside more := by
  induction text with
  | nil => rfl
  | cons c text ih =>
      rw [List.mem_cons, not_or] at htext
      rw [List.cons_append, skeleton, if_neg (Ne.symm htext.1)]
      exact ih htext.2

end Tag

/-! ## The markups -/

section Markup

theorem not_isNameChar : ¬isNameChar 0 ∧ ¬isNameChar 60 ∧ ¬isNameChar 62 := by
  simp only [isNameChar, isNameStart]
  decide

theorem not_isSpace : ¬isSpace 0 ∧ ¬isSpace 60 ∧ ¬isSpace 62 := by
  simp only [isSpace]
  decide

theorem isChar.ne_zero {c : UInt8} (h : isChar c) : c ≠ 0 := by
  rintro rfl
  rw [isChar] at h
  exact absurd h (by decide)

theorem Name.mem_text {name : Name} {c : UInt8} (hc : c ∈ name.text) : c ≠ 0 ∧ c ≠ 60 ∧ c ≠ 62 := by
  have hname : isNameChar c := by
    rcases List.mem_cons.mp hc with rfl | hc
    · exact .inl name.first_ok
    · exact name.others_ok c hc
  obtain ⟨hzero, hlt, hgt⟩ := not_isNameChar
  refine ⟨?_, ?_, ?_⟩ <;> rintro rfl <;> contradiction

theorem Name.first_ne_slash (name : Name) : name.first ≠ 47 := by
  intro heq
  have h := name.first_ok
  rw [heq, isNameStart] at h
  exact absurd h (by decide)

theorem Space.mem_text {space : Space} {c : UInt8} (hc : c ∈ space.text) :
    c ≠ 0 ∧ c ≠ 60 ∧ c ≠ 62 := by
  have hspace := space.ok c hc
  obtain ⟨hzero, hlt, hgt⟩ := not_isSpace
  refine ⟨?_, ?_, ?_⟩ <;> rintro rfl <;> contradiction

theorem Attribute.mem_text {a : Attribute} {c : UInt8} (hc : c ∈ a.text) : c ≠ 0 ∧ c ≠ 60 := by
  have hquote : a.quote ≠ 0 ∧ a.quote ≠ 60 := by
    rcases a.quote_ok with h | h <;> rw [h] <;> decide
  simp only [Attribute.text, List.mem_append, List.mem_cons, List.not_mem_nil, or_false] at hc
  rcases hc with hc | hc | hc | rfl | hc | rfl | hc | rfl
  · exact ⟨(Space.mem_text hc).1, (Space.mem_text hc).2.1⟩
  · exact ⟨(Name.mem_text hc).1, (Name.mem_text hc).2.1⟩
  · exact ⟨(Space.mem_text hc).1, (Space.mem_text hc).2.1⟩
  · decide
  · exact ⟨(Space.mem_text hc).1, (Space.mem_text hc).2.1⟩
  · exact hquote
  · exact ⟨(a.value_ok c hc).1.ne_zero, (a.value_ok c hc).2.1⟩
  · exact hquote

variable {name : Name} {attributes : List Attribute} {space : Space}

theorem mem_tagBody {c : UInt8} (hc : c ∈ tagBody name attributes space) : c ≠ 0 ∧ c ≠ 60 := by
  rcases List.mem_append.mp hc with hc | hc
  · exact ⟨(Name.mem_text hc).1, (Name.mem_text hc).2.1⟩
  · rcases List.mem_append.mp hc with hc | hc
    · obtain ⟨a, -, hc⟩ := List.mem_flatMap.mp hc
      exact Attribute.mem_text hc
    · exact ⟨(Space.mem_text hc).1, (Space.mem_text hc).2.1⟩

/-- A body is cut at its first `>`; behind it stands only text. -/
theorem exists_cut {body : Text} (hbody : ∀ c ∈ body, c ≠ 0 ∧ c ≠ 60) :
    ∃ behind, body ++ [62] = upToFirst body ++ 62 :: behind ∧ (∀ c ∈ behind, c ≠ 0 ∧ c ≠ 60) ∧
      ∀ c ∈ upToFirst body, c ≠ 0 ∧ c ≠ 62 := by
  induction body with
  | nil => exact ⟨[], rfl, nofun, nofun⟩
  | cons c body ih =>
      have hc := hbody c List.mem_cons_self
      have hbody' := fun d hd => hbody d (List.mem_cons_of_mem c hd)
      by_cases hend : c = 62
      · subst hend
        refine ⟨body ++ [62], rfl, fun d hd => ?_, nofun⟩
        rcases List.mem_append.mp hd with hd | hd
        · exact hbody' d hd
        · rw [List.mem_singleton.mp hd]
          decide
      · obtain ⟨behind, hcut, hbehind, hfirst⟩ := ih hbody'
        have htake : upToFirst (c :: body) = c :: upToFirst body :=
          List.takeWhile_cons_of_pos (decide_eq_true hend)
        refine ⟨behind, ?_, hbehind, ?_⟩
        · rw [htake, List.cons_append, hcut, List.cons_append]
        · rw [htake]
          intro d hd
          rcases List.mem_cons.mp hd with rfl | hd
          · exact ⟨hc.1, hend⟩
          · exact hfirst d hd

theorem upToFirst_eq {body : Text} (h : 62 ∉ body) : upToFirst body = body :=
  List.takeWhile_eq_self_iff.mpr fun _ hc => decide_eq_true fun heq => h (heq ▸ hc)

variable {cdata comment : TokEntry} {last : UInt8}

/-- What the markup leaves of the sections. -/
def Markup.sections (m : Markup) (tok : TokEntry) : TokEntry := tok.steps (skeleton .outside m.bytes)

/-- A tag that is not the end of the document. -/
theorem scan_body {n n' : BitVec 32} {c : UInt8} {body : Text} (hc : c ≠ 0)
    (hbody : ∀ d ∈ body, d ≠ 0 ∧ d ≠ 60)
    (h : Calm cdata comment (skeleton .outside (60 :: c :: (body ++ [62]))))
    (hstep : ∀ cdata comment last, (c :: upToFirst body).getLast? = some last →
      Calm cdata comment [] → (inTag n cdata comment c last).step 62
        = (false, between n' cdata comment last)) :
    ∃ last', ∀ more, (between n cdata comment last).scan (60 :: c :: (body ++ [62]) ++ more)
      = (between n' (cdata.steps (skeleton .outside (60 :: c :: (body ++ [62]))))
          (comment.steps (skeleton .outside (60 :: c :: (body ++ [62])))) last').scan more := by
  obtain ⟨behind, hcut, hbehind, hfirst⟩ := exists_cut hbody
  have hskeleton : skeleton .outside (60 :: c :: (body ++ [62])) = 60 :: skeleton .outside behind := by
    rw [hcut]
    exact congrArg (60 :: ·) (skeleton_inside fun hmem => (hfirst 62 hmem).2 rfl)
  rw [hskeleton] at h ⊢
  have hneutral : neutral .outside behind = true := neutral_plain fun hmem => (hbehind 60 hmem).2 rfl
  obtain ⟨last', hscan⟩ := @scan_neutral _ _ behind n' 62 .outside hneutral
    (fun d hd => (hbehind d hd).1) h.tail
  refine ⟨last', fun more => ?_⟩
  have hlast := List.getLast?_eq_getLast_of_ne_nil (List.cons_ne_nil c (upToFirst body))
  rw [hcut, List.cons_append, List.cons_append, List.append_assoc,
    scan_tag hc hfirst (@Calm.left _ _ [60] _ h), List.cons_append,
    scan_step (hstep _ _ _ hlast h.tail.nil)]
  exact hscan more

theorem upToFirst_tagBody : upToFirst (tagBody name attributes space)
    = name.first :: upToFirst (name.others ++ (attributes.flatMap Attribute.text ++ space.text)) :=
  List.takeWhile_cons_of_pos (decide_eq_true (Name.mem_text List.mem_cons_self).2.2)

theorem upToFirst_emptyBody : upToFirst (tagBody name attributes space ++ [47])
    = name.first :: upToFirst (name.others ++ (attributes.flatMap Attribute.text ++ space.text) ++ [47]) :=
  List.takeWhile_cons_of_pos (decide_eq_true (Name.mem_text List.mem_cons_self).2.2)

theorem mem_tagBody_tail {c : UInt8}
    (hc : c ∈ name.others ++ (attributes.flatMap Attribute.text ++ space.text)) : c ≠ 0 ∧ c ≠ 60 :=
  @mem_tagBody name attributes space c (List.mem_cons_of_mem name.first hc)

/-- A markup that counts for what it is, and is not the end of the document. -/
theorem scan_markup {depth : Nat} {m : Markup} (hwell : m.WellFormed) (hread : m.Read depth)
    (hempty : ∀ name attributes space, m = .emptyTag name attributes space → depth ≠ 0)
    (hend : ∀ name space, m = .endTag name space → 2 ≤ depth) (hdepth : depth < 2 ^ 31)
    (h : Calm cdata comment (skeleton .outside m.bytes)) :
    ∃ last', ∀ more, (between (BitVec.ofNat 32 depth) cdata comment last).scan (m.bytes ++ more)
      = (between (BitVec.ofNat 32 (m.depth depth)) (m.sections cdata) (m.sections comment) last').scan
          more := by
  have hother (hneutral : neutral .outside m.bytes = true) (hchars : ∀ c ∈ m.bytes, c ≠ 0) :
      ∃ last', ∀ more, (between (BitVec.ofNat 32 depth) cdata comment last).scan (m.bytes ++ more)
        = (between (BitVec.ofNat 32 depth) (m.sections cdata) (m.sections comment) last').scan more :=
    @scan_neutral _ _ _ _ _ .outside hneutral hchars h
  have hnonzero (k : Nat) (hk : k ≠ 0) (hlt : k < 2 ^ 31) : BitVec.ofNat 32 k ≠ 0 := by
    intro heq
    have := congrArg BitVec.toNat heq
    rw [BitVec.toNat_ofNat, Nat.mod_eq_of_lt (by omega)] at this
    exact hk this
  have hsection (before content after : Text) (hbefore : ∀ c ∈ before, c ≠ 0)
      (hafter : ∀ c ∈ after, c ≠ 0) (hcontent : ∀ c ∈ content, isChar c) :
      ∀ c ∈ before ++ (content ++ after), c ≠ 0 := by
    intro c hc
    rcases List.mem_append.mp hc with hc | hc
    · exact hbefore c hc
    · rcases List.mem_append.mp hc with hc | hc
      · exact (hcontent c hc).ne_zero
      · exact hafter c hc
  cases m with
  | text chars => exact hother hread fun c hc => (hwell.1 c hc).1.ne_zero
  | comment content => exact hother hread (hsection _ _ _ (forall_mem_of_all (by decide))
      (forall_mem_of_all (by decide)) hwell.1)
  | pi target content =>
      refine hother hread fun c hc => ?_
      rcases List.mem_append.mp hc with hc | hc
      · exact (forall_mem_of_all (by decide) : ∀ c ∈ ascii "<?", c ≠ 0) c hc
      · exact hsection _ _ _ (fun c hc => (Name.mem_text hc).1) (forall_mem_of_all (by decide))
          hwell.1 c hc
  | cdata content => exact hother hread (hsection _ _ _ (forall_mem_of_all (by decide))
      (forall_mem_of_all (by decide)) hwell.1)
  | doctype content => exact hother hread (hsection _ _ _ (forall_mem_of_all (by decide))
      (forall_mem_of_all (by decide)) hwell.1)
  | startTag name attributes space =>
      obtain ⟨halpha, hslash, -⟩ := hread
      rw [upToFirst_tagBody] at hslash
      rw [Markup.depth, BitVec.ofNat_add]
      refine @scan_body _ _ _ _ _ name.first (name.others ++ (attributes.flatMap Attribute.text
        ++ space.text)) (Name.mem_text List.mem_cons_self).1 (fun d hd => mem_tagBody_tail hd) h ?_
      intro cdata comment last hlast hcalm
      exact step_end_start halpha (fun heq => hslash (heq ▸ hlast)) hcalm
  | emptyTag name attributes space =>
      have hdepth' := hempty name attributes space rfl
      rw [Markup.Read, if_neg hdepth', upToFirst_emptyBody] at hread
      have hbytes : Markup.bytes (.emptyTag name attributes space) = 60 :: name.first ::
          (name.others ++ (attributes.flatMap Attribute.text ++ space.text) ++ [47] ++ [62]) := by
        rw [List.append_assoc]
        rfl
      rw [hbytes] at h ⊢
      rw [Markup.sections, Markup.sections, hbytes]
      refine scan_body (Name.mem_text List.mem_cons_self).1 (fun d hd => ?_) h ?_
      · rcases List.mem_append.mp hd with hd | hd
        · exact mem_tagBody_tail hd
        · rw [List.mem_singleton.mp hd]
          decide
      · intro cdata comment last hlast hcalm
        cases halpha : isAlpha name.first with
        | true =>
            rw [hread halpha] at hlast
            cases hlast
            exact step_end_empty halpha (hnonzero depth hdepth' hdepth) hcalm
        | false => exact step_end_special name.first_ne_slash halpha hcalm
  | endTag name space =>
      obtain ⟨k, rfl⟩ := Nat.exists_eq_add_of_le' (hend name space rfl)
      have hsub : BitVec.ofNat 32 (k + 2) - 1 = BitVec.ofNat 32 (k + 1) := by
        rw [show k + 2 = k + 1 + 1 from rfl, BitVec.ofNat_add]
        exact BitVec.add_sub_cancel _ _
      have hbytes : Markup.bytes (.endTag name space)
          = 60 :: 47 :: (name.text ++ space.text ++ [62]) := by
        rw [List.append_assoc]
        rfl
      rw [hbytes] at h ⊢
      rw [Markup.sections, Markup.sections, hbytes, Markup.depth, show k + 2 - 1 = k + 1 from rfl, ← hsub]
      refine scan_body (by decide) (fun d hd => ?_) h ?_
      · rcases List.mem_append.mp hd with hd | hd
        · exact ⟨(Name.mem_text hd).1, (Name.mem_text hd).2.1⟩
        · exact ⟨(Space.mem_text hd).1, (Space.mem_text hd).2.1⟩
      · intro cdata comment last hlast hcalm
        exact step_end_endTag (by rw [hsub]; exact hnonzero _ (Nat.succ_ne_zero k) (by omega)) hcalm

end Markup

/-! ## The document -/

section Document

variable {cdata comment : TokEntry} {last : UInt8} {markups : List Markup}

/-- What is left of the markups when of each tag only its `<` is kept. -/
def skeletons (markups : List Markup) : Text := markups.flatMap fun m => skeleton .outside m.bytes

theorem Markup.IsMisc.depth {m : Markup} (h : m.IsMisc) (depth : Nat) : m.depth depth = depth := by
  cases m <;> first | rfl | exact h.elim

theorem Markup.IsOther.depth {m : Markup} (h : m.IsOther) (depth : Nat) : m.depth depth = depth := by
  cases m <;> first | rfl | exact h.elim

/-- In front of the document element nothing is counted. -/
theorem scan_prolog {element : List Markup} (hmisc : ∀ m ∈ markups, m.IsMisc)
    (hwell : ∀ m ∈ markups, m.WellFormed) (hread : ReadAll 0 (markups ++ element))
    (h : Calm cdata comment (skeletons (markups ++ element))) :
    ReadAll 0 element ∧ ∃ cdata' comment' last', Calm cdata' comment' (skeletons element) ∧
      ∀ more, (between (BitVec.ofNat 32 0) cdata comment last).scan (markups.flatMap Markup.bytes ++ more)
        = (between (BitVec.ofNat 32 0) cdata' comment' last').scan more := by
  induction markups generalizing cdata comment last with
  | nil => exact ⟨hread, cdata, comment, last, h, fun _ => rfl⟩
  | cons m markups ih =>
      have hm := hmisc m List.mem_cons_self
      have hcalm : Calm cdata comment (skeleton .outside m.bytes ++ skeletons (markups ++ element)) := h
      obtain ⟨hhead, htail⟩ := hread
      obtain ⟨last₁, hscan₁⟩ := @scan_markup cdata comment last 0 m (hwell m List.mem_cons_self) hhead
        (fun _ _ _ heq => by subst heq; exact hm.elim) (fun _ _ heq => by subst heq; exact hm.elim)
        (by decide) hcalm.left
      rw [hm.depth] at htail hscan₁
      obtain ⟨helement, cdata', comment', last', hcalm', hscan⟩ := @ih _ _ last₁
        (fun m hmem => hmisc m (List.mem_cons_of_mem _ hmem))
        (fun m hmem => hwell m (List.mem_cons_of_mem _ hmem)) htail hcalm.right
      refine ⟨helement, cdata', comment', last', hcalm', fun more => ?_⟩
      rw [List.flatMap_cons, List.append_assoc, hscan₁]
      exact hscan more

/-- Found complete with the last character, and not before. -/
def FoundAtEnd (f : XmlEndFinder) (text : Text) : Prop :=
  ∃ init, text = init ++ [62] ∧ (f.scan init).xmlIsComplete = false ∧
    (f.scan (init ++ [62])).xmlIsComplete = true

theorem FoundAtEnd.append {f f' : XmlEndFinder} {a b : Text} (h : FoundAtEnd f' b)
    (hscan : ∀ more, f.scan (a ++ more) = f'.scan more) : FoundAtEnd f (a ++ b) := by
  obtain ⟨init, rfl, hinit, hend⟩ := h
  refine ⟨a ++ init, (List.append_assoc _ _ _).symm, ?_, ?_⟩
  · rw [hscan, hinit]
  · rw [List.append_assoc, hscan, hend]

/-- The last tag completes the document. -/
theorem foundAtEnd_tag {n : BitVec 32} {c : UInt8} {body : Text} (hc : c ≠ 0)
    (hbody : ∀ d ∈ body, d ≠ 0 ∧ d ≠ 62) (h : Calm cdata comment [60])
    (hend : ∀ cdata comment, Calm cdata comment [] →
      ((inTag n cdata comment c ((c :: body).getLast (List.cons_ne_nil _ _))).scan
        [62]).xmlIsComplete = true) :
    FoundAtEnd (between n cdata comment last) (60 :: c :: (body ++ [62])) := by
  refine ⟨60 :: c :: body, rfl, ?_, ?_⟩
  · rw [← List.append_nil body, scan_tag hc hbody h]
    rfl
  · rw [List.cons_append, List.cons_append, scan_tag hc hbody h]
    exact hend _ _ h.tail

/-- A markup that is not the end of the document, and what follows it. -/
theorem FoundAtEnd.cons {depth depth' : Nat} {m : Markup}
    (hrest : ∀ {cdata comment : TokEntry} {last : UInt8}, (∀ m ∈ markups, m.WellFormed) →
      ReadAll depth' markups → depth' < 2 ^ 31 → Calm cdata comment (skeletons markups) →
      FoundAtEnd (between (BitVec.ofNat 32 depth') cdata comment last)
        (markups.flatMap Markup.bytes))
    (hm : m.depth depth = depth')
    (hempty : ∀ name attributes space, m = .emptyTag name attributes space → depth ≠ 0)
    (hend : ∀ name space, m = .endTag name space → 2 ≤ depth)
    (hdepth : depth < 2 ^ 31) (hdepth' : depth' < 2 ^ 31)
    (hwell : ∀ m' ∈ m :: markups, m'.WellFormed) (hread : ReadAll depth (m :: markups))
    (h : Calm cdata comment (skeletons (m :: markups))) :
    FoundAtEnd (between (BitVec.ofNat 32 depth) cdata comment last)
      ((m :: markups).flatMap Markup.bytes) := by
  have hcalm : Calm cdata comment (skeleton .outside m.bytes ++ skeletons markups) := h
  obtain ⟨hhead, htail⟩ := hread
  obtain ⟨last', hscan⟩ := @scan_markup cdata comment last depth m (hwell m List.mem_cons_self) hhead
    hempty hend hdepth hcalm.left
  rw [hm] at hscan htail
  have hfound := @hrest _ _ last' (fun m hmem => hwell m (List.mem_cons_of_mem _ hmem)) htail hdepth'
    hcalm.right
  exact hfound.append hscan

theorem foundAtEnd_whole {name : Name} {attributes : List Attribute} {space : Space}
    (hread : Markup.Read 0 (.emptyTag name attributes space))
    (h : Calm cdata comment (skeletons [.emptyTag name attributes space])) :
    FoundAtEnd (between (BitVec.ofNat 32 0) cdata comment last)
      ([Markup.emptyTag name attributes space].flatMap Markup.bytes) := by
  obtain ⟨halpha, hend⟩ : isAlpha name.first = true ∧ 62 ∉ tagBody name attributes space := hread
  have hbytes : [Markup.emptyTag name attributes space].flatMap Markup.bytes = 60 :: name.first ::
      (name.others ++ (attributes.flatMap Attribute.text ++ space.text) ++ [47] ++ [62]) := by
    rw [List.flatMap_singleton, List.append_assoc]
    rfl
  rw [hbytes]
  refine foundAtEnd_tag (Name.mem_text List.mem_cons_self).1 (fun d hd => ?_)
    (@Calm.left _ _ [60] _ h) fun cdata comment hcalm => ?_
  · rcases List.mem_append.mp hd with hd | hd
    · exact ⟨(mem_tagBody_tail hd).1, fun heq => hend (heq ▸ List.mem_cons_of_mem name.first hd)⟩
    · rw [List.mem_singleton.mp hd]
      decide
  · rw [List.getLast_cons (List.append_ne_nil_of_right_ne_nil _ (List.cons_ne_nil _ _)),
      List.getLast_append_singleton]
    exact complete_end_empty halpha hcalm

theorem foundAtEnd_last {name : Name} {space : Space}
    (h : Calm cdata comment (skeletons [.endTag name space])) :
    FoundAtEnd (between (BitVec.ofNat 32 1) cdata comment last)
      ([Markup.endTag name space].flatMap Markup.bytes) := by
  have hbytes : [Markup.endTag name space].flatMap Markup.bytes
      = 60 :: 47 :: (name.text ++ space.text ++ [62]) := by
    rw [List.flatMap_singleton, List.append_assoc]
    rfl
  rw [hbytes]
  refine foundAtEnd_tag (by decide) (fun d hd => ?_) (@Calm.left _ _ [60] _ h)
    fun cdata comment hcalm => complete_end_endTag hcalm
  rcases List.mem_append.mp hd with hd | hd
  · exact ⟨(Name.mem_text hd).1, (Name.mem_text hd).2.2⟩
  · exact ⟨(Space.mem_text hd).1, (Space.mem_text hd).2.2⟩

/-- The document element is found complete with its last character. -/
theorem foundAtEnd_closes {names : List Text} (hcloses : Closes names markups)
    (hwell : ∀ m ∈ markups, m.WellFormed) (hread : ReadAll names.length markups)
    (hdepth : names.length < 2 ^ 31) (h : Calm cdata comment (skeletons markups)) :
    FoundAtEnd (between (BitVec.ofNat 32 names.length) cdata comment last)
      (markups.flatMap Markup.bytes) := by
  induction hcloses generalizing cdata comment last with
  | whole name attributes space => exact foundAtEnd_whole hread.1 h
  | last name space => exact foundAtEnd_last h
  | startTag name attributes space _ ih =>
      exact .cons ih rfl nofun nofun hdepth hread.1.2.2 hwell hread h
  | emptyTag name attributes space _ ih =>
      exact .cons ih rfl (fun _ _ _ _ => Nat.succ_ne_zero _) nofun hdepth hdepth hwell hread h
  | endTag name space _ ih =>
      exact .cons ih rfl nofun (fun _ _ _ => Nat.le_add_left 2 _) hdepth (Nat.lt_of_succ_lt hdepth)
        hwell hread h
  | other hother _ ih =>
      exact .cons ih (hother.depth _) (fun _ _ _ _ => Nat.succ_ne_zero _)
        (fun _ _ heq => by subst heq; exact hother.elim) hdepth hdepth hwell hread h

/-- Where every markup counts for what it is, the end is found where it is. -/
theorem findsEnd_of_readAsWritten {D : Document} (h : D.ReadAsWritten) : D.FindsEnd := by
  have hcalm : Calm cdataTok commentTok (skeletons (D.prolog ++ D.element)) :=
    ⟨rfl, rfl, h.cdata, h.comment⟩
  obtain ⟨helement, cdata, comment, last, hcalm', hscan⟩ := @scan_prolog _ _ 0 D.prolog D.element
    (fun m hm => D.misc m (List.mem_append_left _ hm))
    (fun m hm => D.wellFormed m (List.mem_append_left _ (List.mem_append_left _ hm))) h.markups hcalm
  have helement' : FoundAtEnd (between (BitVec.ofNat 32 0) cdata comment last)
      (D.element.flatMap Markup.bytes) :=
    foundAtEnd_closes D.closes
      (fun m hm => D.wellFormed m (List.mem_append_left _ (List.mem_append_right _ hm))) helement
      (by decide) hcalm'
  have hfound := helement'.append hscan
  rw [← List.flatMap_append] at hfound
  obtain ⟨init, hbytes, hinit, hend⟩ := hfound
  exact findsEnd_of_scan hbytes hinit hend

end Document

/-! ## Two documents -/

def nameA : Name := ⟨97, [], .inl rfl, nofun⟩

def noSpace : Space := ⟨[], nofun⟩

/-- An element with a comment and a text. -/
def commented : Document where
  prolog := []
  element := [.startTag nameA [] noSpace, .comment (ascii " 1 > 0 "), .text (ascii "x"),
    .endTag nameA noSpace]
  epilog := [.text (ascii "\n")]
  wellFormed := by
    refine List.forall_mem_cons.mpr ⟨trivial, List.forall_mem_cons.mpr ⟨⟨?_, by decide⟩,
      List.forall_mem_cons.mpr ⟨⟨?_, by decide⟩, List.forall_mem_cons.mpr ⟨trivial,
        List.forall_mem_cons.mpr ⟨⟨?_, by decide⟩, nofun⟩⟩⟩⟩⟩
    · exact forall_mem_of_all (by decide)
    · exact forall_mem_of_all (by decide)
    · exact forall_mem_of_all (by decide)
  misc := List.forall_mem_cons.mpr ⟨@forall_mem_of_all isSpace _ _ (by decide), nofun⟩
  closes := .startTag nameA [] noSpace (.other trivial (.other trivial (.last nameA noSpace)))
  begins := rfl

theorem findsEnd_commented : commented.FindsEnd :=
  findsEnd_of_readAsWritten
    ⟨⟨⟨rfl, by decide, by decide⟩, rfl, rfl, trivial, trivial⟩, by decide, by decide⟩

/-- The attribute ` a=">"`. -/
def quotedEnd : Attribute where
  space := ⟨[32], forall_mem_of_all (by decide)⟩
  name := nameA
  beforeEquals := noSpace
  afterEquals := noSpace
  quote := 34
  value := [62]
  space_ne := nofun
  quote_ok := .inl rfl
  value_ok := forall_mem_of_all (by decide)

def quoted : Document where
  prolog := []
  element := [.emptyTag nameA [quotedEnd] noSpace]
  epilog := []
  wellFormed := List.forall_mem_cons.mpr ⟨trivial, nofun⟩
  misc := nofun
  closes := .whole nameA _ noSpace
  begins := rfl

/-- The `>` in an attribute ends the tag, which is not seen to be empty. -/
theorem not_findsEnd : ¬∀ D : Document, D.FindsEnd := by
  intro h
  have hfound := (h quoted [quoted.bytes] [] (by decide) (by rfl)).mpr (by decide)
  exact absurd hfound (by decide)

end XmlEnd
