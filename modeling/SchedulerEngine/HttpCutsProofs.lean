import SchedulerEngine.HttpEmptyLineProofs

/-! # Requests in pieces

    Whether the pieces of a request are parsed as they have to be depends on where
    they end, and on what the body looks like. -/

namespace HttpParser

open Http

/-! ## Pieces -/

/-- What the parser has after every piece: the request, when it is complete. -/
def feed : Parser → List Text → Except Failure (List (Option Request))
  | _, [] => .ok []
  | p, chunk :: chunks => do
      let p ← p.addText chunk
      return (if p.isComplete then some p.request else none) :: (← feed p chunks)

/-- Where the pieces end. -/
def ends : Nat → List Text → List Nat
  | _, [] => []
  | n, chunk :: chunks => (n + chunk.length) :: ends (n + chunk.length) chunks

/-- The request as it has to be parsed. -/
def Message.request (m : Message) : Request := { m.fields with body := m.body }

/-- Where the body ends. -/
def Message.size (m : Message) : Nat := m.text.length + m.body.length

/-- What there has to be when so much has arrived. -/
def Message.due (m : Message) (n : Nat) : Option Request :=
  if m.size ≤ n then some m.request else none

/-- The pieces are parsed as they have to be, and as all at once. -/
def Message.Parsed (m : Message) (chunks : List Text) : Prop :=
  feed .start chunks = .ok ((ends 0 chunks).map m.due) ∧ feed .start [m.bytes] = .ok [some m.request]

/-- The size fits, the CRLF behind the body is not cut, and where an empty line
    with CR is found behind a header with LF only, the body is made of CRLF and so is
    what follows, and a piece ends where the header does or none where the body does. -/
structure Message.Tolerated (m : Message) (chunks : List Text) : Prop where
  fits : m.bytes.length < 2 ^ 31
  notCut : m.size + 1 ∉ ends 0 chunks
  onlyCrlf : m.hasCrLine = true → m.extra = true ∧ ∃ k, m.body = (List.replicate k crlf).flatten
  cuts : m.hasCrLine = true → m.text.length ∈ ends 0 chunks ∨ m.text.length + 1 ∈ ends 0 chunks ∨
    m.size ∉ ends 0 chunks

/-! ## Lengths -/

theorem toInt_small {n : Nat} (h : n < 2 ^ 31) : toInt n = n :=
  Int.bmod_eq_of_le (by omega) (by omega)

/-- As a `size_t`, an `int` is small or very large. -/
theorem toSizeT_toInt (n : Int) : toSizeT (toInt n) < 2 ^ 31 ∨ 2 ^ 63 ≤ toSizeT (toInt n) := by
  have hlow : -(2 ^ 31) ≤ toInt n := Int.le_bmod (by decide)
  have hhigh : toInt n < 2 ^ 31 := Int.bmod_lt (by decide)
  generalize toInt n = i at hlow hhigh
  rw [toSizeT]
  omega

section Sizes

variable {size length : Nat}

/-- A sum of two `int`, compared with a length. -/
theorem toSizeT_cases (hsize : size < 2 ^ 32 - 1) :
    size < 2 ^ 31 ∧ toInt size = size ∨
      2 ^ 31 ≤ size ∧ toInt size = (size : Int) - 2 ^ 32 := by
  by_cases h : size < 2 ^ 31
  · exact .inl ⟨h, toInt_small h⟩
  · refine .inr ⟨Nat.le_of_not_lt h, ?_⟩
    have hbmod : ((size : Int) - 2 ^ 32).bmod (2 ^ 32) = (size : Int) - 2 ^ 32 :=
      Int.bmod_eq_of_le (by omega) (by omega)
    have hsub : ((size : Int) - (2 ^ 32 : Nat)).bmod (2 ^ 32) = (size : Int).bmod (2 ^ 32) :=
      Int.sub_bmod_right _ _
    exact hsub.symm.trans hbmod

theorem bodyEnd_le (hsize : size < 2 ^ 32 - 1) (hlength : length < 2 ^ 31) :
    toSizeT (toInt size) ≤ length ↔ size ≤ length := by
  obtain ⟨hsmall, heq⟩ | ⟨hlarge, heq⟩ := toSizeT_cases hsize
  · rw [heq, toSizeT]
    omega
  · rw [heq, toSizeT]
    omega

theorem bodyEnd_eq (hsize : size < 2 ^ 32 - 1) (hlength : length < 2 ^ 31) :
    toSizeT (toInt size) = length ↔ size = length := by
  obtain ⟨hsmall, heq⟩ | ⟨hlarge, heq⟩ := toSizeT_cases hsize
  · rw [heq, toSizeT]
    omega
  · rw [heq, toSizeT]
    omega

theorem bodyEnd_two (hsize : size < 2 ^ 32 - 1) (hlength : length < 2 ^ 31) (hpos : 0 < length) :
    toSizeT (toInt (toInt size + 2)) = length ↔ size + 2 = length := by
  obtain ⟨hsmall, heq⟩ | ⟨hlarge, heq⟩ := toSizeT_cases hsize
  · rw [heq]
    exact @bodyEnd_eq (size + 2) length (by omega) hlength
  · have hint : toInt ((size : Int) - 2 ^ 32 + 2) = (size : Int) - 2 ^ 32 + 2 :=
      Int.bmod_eq_of_le (by omega) (by omega)
    rw [heq, hint, toSizeT]
    omega

end Sizes

/-! ## The states of the parser -/

/-- The end of the header has not arrived. -/
def Parser.waiting (text : Text) : Parser := ⟨text, false, 0, 0, .empty⟩

/-- More than the body and an extra CRLF. -/
def Message.TooMuch (m : Message) (start : Nat) (text : Text) : Prop :=
  start + m.body.length < text.length ∧
    ¬(text.length = start + m.body.length + 2 ∧ crlf <:+ text)

variable {m : Message} {text chunk : Text} {start : Nat}

theorem Message.begin_eq (hhead : m.text <+: text) (headerEnd endSize : Nat) :
    (Parser.waiting text).begin headerEnd endSize =
      if 2 ^ 31 ≤ headerEnd then .error (.overflow "int")
      else .ok ⟨text, true, toInt (headerEnd + endSize : Nat), m.body.length, m.fields⟩ := by
  obtain ⟨rest, rfl⟩ := hhead
  have hparse : parseHeader (Parser.waiting (m.text ++ rest)).text = .ok m.fields :=
    parseHeader_append m.toHeader rest
  by_cases hlarge : 2 ^ 31 ≤ headerEnd
  · rw [Parser.begin, intCast, if_pos hlarge, if_pos hlarge]
    rfl
  · rw [if_neg hlarge]
    obtain ⟨hnone, hbody⟩ | ⟨hsome, hlength⟩ := m.contentLength_ok
    · simp only [Parser.begin, intCast, if_neg hlarge, bind, Except.bind, hparse, if_pos hnone,
        hbody]
      rfl
    · simp only [Parser.begin, intCast, if_neg hlarge, bind, Except.bind, hparse, if_neg hsome,
        hlength]
      show Except.ok _ = Except.ok _
      rw [Except.ok.injEq, Parser.mk.injEq]
      exact ⟨rfl, rfl, rfl, toInt_small m.body_fits, rfl⟩

theorem toInt_add (a b : Int) : toInt (toInt a + b) = toInt (a + b) := Int.bmod_add_bmod

/-- The parser reads the body, which is taken to begin at `start`. -/
structure Message.AtBody (m : Message) (start : Nat) (text : Text) (p : Parser) : Prop where
  text : p.text = text
  readingBody : p.readingBody = true
  bodyStart : p.bodyStart = toInt start
  contentLength : p.contentLength = m.body.length
  request : ∃ body, p.request = { m.fields with body := body }

/-- The sizes can be compared. -/
structure Comparable (size length : Nat) : Prop where
  size : size < 2 ^ 32 - 1
  pos : 0 < length
  length : length < 2 ^ 31

section Body

variable {p : Parser}

theorem Message.AtBody.bodyEnd (h : m.AtBody start text p) :
    p.bodyEnd = toSizeT (toInt (start + m.body.length : Nat)) := by
  rw [Parser.bodyEnd, h.bodyStart, h.contentLength, toInt_add, Int.natCast_add]

theorem Message.AtBody.bodyEnd_of_le (h : m.AtBody start text p)
    (hsizes : Comparable (start + m.body.length) text.length)
    (hlen : start + m.body.length ≤ text.length) : p.bodyEnd = start + m.body.length := by
  rw [h.bodyEnd, bodyEnd_eq hsizes.size (Nat.lt_of_le_of_lt hlen hsizes.length)]

/-- The body is not complete. -/
theorem Message.AtBody.takeBody_before (h : m.AtBody start text p)
    (hsizes : Comparable (start + m.body.length) text.length)
    (hlen : text.length < start + m.body.length) : p.takeBody = .ok p := by
  have hnot := mt (bodyEnd_le hsizes.size hsizes.length).mp (Nat.not_le_of_lt hlen)
  rw [Parser.takeBody, if_neg]
  rw [h.bodyEnd, h.text, decide_eq_false hnot, Bool.and_false]
  exact nofun

theorem Message.AtBody.takeBody_eq (h : m.AtBody start text p)
    (hsizes : Comparable (start + m.body.length) text.length)
    (hlen : start + m.body.length ≤ text.length) :
    p.takeBody =
      if 0 < text.length - (start + m.body.length) ∧
          ¬(text.length - (start + m.body.length) = 2 ∧ crlf <:+ text) then .error .tooMuchData
      else .ok { p with request := { p.request with
        body := (text.drop p.bodyStart.toNat).take p.contentLength.toNat } } := by
  have hbodyEnd := h.bodyEnd_of_le hsizes hlen
  have hle : (p.readingBody && decide (p.bodyEnd ≤ p.text.length)) = true := by
    rw [h.readingBody, hbodyEnd, h.text, decide_eq_true hlen]
    rfl
  rw [Parser.takeBody, if_pos hle, hbodyEnd, h.text]

theorem Message.AtBody.takeBody_tooMuch (h : m.AtBody start text p)
    (hsizes : Comparable (start + m.body.length) text.length) (htoo : m.TooMuch start text) :
    p.takeBody = .error .tooMuchData := by
  obtain ⟨hless, hnot⟩ := htoo
  rw [h.takeBody_eq hsizes (Nat.le_of_lt hless), if_pos]
  refine ⟨Nat.sub_pos_of_lt hless, ?_⟩
  rintro ⟨htwo, hcrlf⟩
  exact hnot ⟨by omega, hcrlf⟩

/-- The body is taken, when it is complete. -/
theorem Message.AtBody.takeBody (h : m.AtBody start text p)
    (hsizes : Comparable (start + m.body.length) text.length) (hok : ¬m.TooMuch start text) :
    ∃ p', p.takeBody = .ok p' ∧ m.AtBody start text p' ∧
      (start + m.body.length ≤ text.length →
        p'.request = { m.fields with body := (text.drop start).take m.body.length }) := by
  by_cases hlen : start + m.body.length ≤ text.length
  · have hrest : ¬(0 < text.length - (start + m.body.length) ∧
        ¬(text.length - (start + m.body.length) = 2 ∧ crlf <:+ text)) := by
      rintro ⟨hpos, hnot⟩
      refine hok ⟨by omega, ?_⟩
      rintro ⟨htwo, hcrlf⟩
      exact hnot ⟨by omega, hcrlf⟩
    have hstart : p.bodyStart = start := by
      have hlength := hsizes.length
      rw [h.bodyStart, toInt_small (by omega)]
    obtain ⟨body, hrequest⟩ := h.request
    refine ⟨_, (h.takeBody_eq hsizes hlen).trans (if_neg hrest), ⟨h.text, h.readingBody,
      h.bodyStart, h.contentLength, ?_⟩, fun _ => ?_⟩
    · exact ⟨_, by rw [hrequest]⟩
    · rw [hstart, h.contentLength, hrequest, Int.toNat_natCast, Int.toNat_natCast]
  · exact ⟨p, h.takeBody_before hsizes (Nat.lt_of_not_le hlen), h, fun hle => absurd hle hlen⟩

theorem Message.AtBody.isComplete (h : m.AtBody start text p)
    (hsizes : Comparable (start + m.body.length) text.length) :
    p.isComplete = true ↔
      text.length = start + m.body.length ∨ text.length = start + m.body.length + 2 := by
  have htwo : toInt (p.bodyStart + p.contentLength) = toInt (start + m.body.length : Nat) := by
    rw [h.bodyStart, h.contentLength, toInt_add, Int.natCast_add]
  rw [Parser.isComplete, h.readingBody, h.bodyEnd, htwo, h.text]
  simp only [Bool.true_and, Bool.or_eq_true, decide_eq_true_eq]
  have hend := bodyEnd_eq hsizes.size hsizes.length
  have hextra := bodyEnd_two hsizes.size hsizes.length hsizes.pos
  constructor
  · rintro (h | h)
    · exact .inl (hend.mp h.symm).symm
    · exact .inr (hextra.mp h.symm).symm
  · rintro (h | h)
    · exact .inl (hend.mpr h.symm).symm
    · exact .inr (hextra.mpr h.symm).symm

/-- The piece goes behind the text. -/
theorem Message.AtBody.addText (h : m.AtBody start text p) (chunk : Text) :
    ∃ q, p.addText chunk = q.takeBody ∧ m.AtBody start (text ++ chunk) q := by
  refine ⟨{ p with text := p.text ++ chunk }, ?_, ?_⟩
  · rw [Parser.addText, Parser.findHeader, if_pos h.readingBody]
    rfl
  · exact ⟨congrArg (· ++ chunk) h.text, h.readingBody, h.bodyStart, h.contentLength, h.request⟩

end Body

theorem findHeader_none (h : bodyStartIn text = none) :
    (Parser.waiting text).findHeader = .ok (.waiting text) := by
  rw [bodyStartIn] at h
  rw [Parser.findHeader, if_neg (show ¬(Parser.waiting text).readingBody = true from
    Bool.false_ne_true)]
  rw [show (Parser.waiting text).text = text from rfl]
  cases hcr : find [10, 13, 10] text with
  | some headerEnd =>
      rw [hcr] at h
      cases h
  | none =>
      rw [hcr] at h
      rw [Option.map_eq_none_iff.mp h]

theorem findHeader_some (h : bodyStartIn text = some start) :
    ∃ headerEnd endSize, start = headerEnd + endSize ∧ endSize ≤ 3 ∧
      (Parser.waiting text).findHeader = (Parser.waiting text).begin headerEnd endSize := by
  rw [bodyStartIn] at h
  rw [Parser.findHeader, if_neg (show ¬(Parser.waiting text).readingBody = true from
    Bool.false_ne_true)]
  rw [show (Parser.waiting text).text = text from rfl]
  cases hcr : find [10, 13, 10] text with
  | some headerEnd =>
      rw [hcr] at h
      cases h
      exact ⟨headerEnd, 3, rfl, by decide, rfl⟩
  | none =>
      rw [hcr] at h
      obtain ⟨headerEnd, hlf, rfl⟩ := Option.map_eq_some_iff.mp h
      rw [hlf]
      exact ⟨headerEnd, 2, rfl, by decide, rfl⟩

theorem Message.atBody_mk (m : Message) (text : Text) {bodyStart : Int}
    (h : bodyStart = toInt start) :
    m.AtBody start text ⟨text, true, bodyStart, m.body.length, m.fields⟩ :=
  ⟨rfl, rfl, h, rfl, _, rfl⟩

theorem Parser.addText_waiting (h : bodyStartIn (text ++ chunk) = none) :
    (Parser.waiting text).addText chunk = .ok (.waiting (text ++ chunk)) := by
  rw [Parser.addText]
  show (do (← (Parser.waiting (text ++ chunk)).findHeader).takeBody) = _
  rw [findHeader_none h]
  rfl

theorem Parser.takeBody_bind (p : Parser) :
    (do (← (Except.ok p : Except Failure Parser)).takeBody) = p.takeBody := rfl

/-- The piece with which the header is found. -/
theorem Message.addText_found (hhead : m.text <+: text ++ chunk)
    (h : bodyStartIn (text ++ chunk) = some start) :
    (∃ q, (Parser.waiting text).addText chunk = q.takeBody ∧ m.AtBody start (text ++ chunk) q ∧
      start < 2 ^ 31 + 3) ∨
    (∃ failure, (Parser.waiting text).addText chunk = .error failure ∧ 2 ^ 31 ≤ start) := by
  obtain ⟨headerEnd, endSize, rfl, hsize, hfind⟩ := findHeader_some h
  have hadd : (Parser.waiting text).addText chunk
      = (do (← (Parser.waiting (text ++ chunk)).findHeader).takeBody) := by
    rw [Parser.addText]
    rfl
  rw [hadd, hfind, m.begin_eq hhead]
  by_cases hlarge : 2 ^ 31 ≤ headerEnd
  · rw [if_pos hlarge]
    have hle : 2 ^ 31 ≤ headerEnd + endSize := Nat.le_add_right_of_le hlarge
    exact .inr ⟨_, rfl, hle⟩
  · rw [if_neg hlarge]
    have hlt : headerEnd + endSize < 2 ^ 31 + 3 := by omega
    exact .inl ⟨_, Parser.takeBody_bind _, m.atBody_mk _ rfl, hlt⟩

/-! ## A run over the pieces -/

/-- What is complete where the body is taken to begin at `start` is what is due. -/
def Message.Right (m : Message) (start n : Nat) : Prop :=
  (m.size ≤ n ↔ n = start + m.body.length ∨ n = start + m.body.length + 2) ∧
    (m.size ≤ n → (m.bytes.drop start).take m.body.length = m.body)

theorem feed_cons {p p' : Parser} {chunks : List Text} {due : Option Request}
    {dues : List (Option Request)} (h : p.addText chunk = .ok p') :
    feed p (chunk :: chunks) = .ok (due :: dues) ↔
      (if p'.isComplete then some p'.request else none) = due ∧ feed p' chunks = .ok dues := by
  rw [feed, h]
  show (do return (if p'.isComplete then some p'.request else none) :: (← feed p' chunks)) = _ ↔ _
  cases hfeed : feed p' chunks with
  | error failure =>
      constructor
      · exact nofun
      · exact fun h => nomatch h.2
  | ok rest =>
      show Except.ok _ = Except.ok _ ↔ _
      rw [Except.ok.injEq, List.cons.injEq, Except.ok.injEq]

theorem feed_error {p : Parser} {chunks : List Text} {failure : Failure}
    (h : p.addText chunk = .error failure) :
    feed p (chunk :: chunks) = .error failure := by
  rw [feed, h]
  rfl

theorem le_of_mem_ends {chunks : List Text} {i n : Nat} (h : n ∈ ends i chunks) :
    i ≤ n ∧ n ≤ i + chunks.flatten.length := by
  induction chunks generalizing i with
  | nil => cases h
  | cons chunk chunks ih =>
      rw [List.flatten_cons, List.length_append]
      rcases List.mem_cons.mp h with rfl | h
      · omega
      · have hle := ih h
        omega

theorem Message.length_bytes (m : Message) :
    m.bytes.length = m.size + m.extraText.length := by
  rw [Message.bytes, List.length_append, List.length_append, Message.size, Nat.add_assoc]

theorem Message.extraText_le (m : Message) : m.extraText.length ≤ 2 := by
  rw [Message.extraText]
  split
  · exact Nat.le_refl 2
  · exact Nat.zero_le 2

/-- Where the body is not taken to begin too early, what is too much is not right. -/
theorem Message.TooMuch.not_right (h : m.TooMuch start text) (hpart : text <+: m.bytes)
    (hstart : m.text.length ≤ start) : ¬m.Right start text.length := by
  rintro ⟨hright, -⟩
  obtain ⟨hless, hnot⟩ := h
  have hle := hpart.length_le
  have hbytes := m.length_bytes
  have hextra := m.extraText_le
  have hsize : m.size ≤ text.length := by
    rw [Message.size]
    omega
  rcases hright.mp hsize with heq | heq
  · omega
  · have htwo : m.extraText.length = 2 := by
      rw [Message.size] at hsize hbytes
      omega
    have hall : text = m.bytes := hpart.eq_of_length (by rw [Message.size] at hbytes; omega)
    refine hnot ⟨heq, ?_⟩
    rw [hall, Message.bytes, Message.extraText]
    split
    · exact ⟨m.text ++ m.body, by rw [List.append_assoc]⟩
    · rename_i hnone
      rw [Message.extraText, if_neg hnone] at htwo
      cases htwo

theorem Message.comparable (hfits : m.bytes.length < 2 ^ 31) (hpart : text <+: m.bytes)
    (hne : text ≠ []) (hstart : start ≤ m.bytes.length) :
    Comparable (start + m.body.length) text.length := by
  have hbody := m.body_fits
  have hle := hpart.length_le
  refine ⟨?_, List.length_pos_iff.mpr hne, Nat.lt_of_le_of_lt hle hfits⟩
  omega

/-- The request that is there is the one that is due, if and only if that is right. -/
theorem Message.AtBody.due_iff {p : Parser} (h : m.AtBody start text p)
    (hsizes : Comparable (start + m.body.length) text.length) (hpart : text <+: m.bytes)
    (hbody : start + m.body.length ≤ text.length →
      p.request = { m.fields with body := (text.drop start).take m.body.length }) :
    (if p.isComplete then some p.request else none) = m.due text.length ↔
      m.Right start text.length := by
  have hcomplete := h.isComplete hsizes
  rw [Message.due, Message.Right, ← hcomplete]
  by_cases hsize : m.size ≤ text.length
  · rw [if_pos hsize]
    by_cases hp : p.isComplete = true
    · have hle : start + m.body.length ≤ text.length := by
        rcases hcomplete.mp hp with heq | heq
        · exact Nat.le_of_eq heq.symm
        · omega
      have htake : (text.drop start).take m.body.length
          = (m.bytes.drop start).take m.body.length := by
        obtain ⟨more, hmore⟩ := hpart
        rw [← hmore, List.drop_append_of_le_length (by omega),
          List.take_append_of_le_length (by rw [List.length_drop]; omega)]
      rw [if_pos hp, hbody hle, Option.some.injEq, Message.request, Request.mk.injEq, htake]
      constructor
      · intro heq
        exact ⟨iff_of_true hsize hp, fun _ => heq.2.2.2.2.2⟩
      · intro hright
        exact ⟨rfl, rfl, rfl, rfl, rfl, hright.2 hsize⟩
    · rw [if_neg hp]
      constructor
      · exact nofun
      · exact fun hright => absurd (hright.1.mp hsize) hp
  · rw [if_neg hsize]
    by_cases hp : p.isComplete = true
    · rw [if_pos hp]
      constructor
      · exact nofun
      · exact fun hright => absurd (hright.1.mpr hp) hsize
    · rw [if_neg hp]
      exact ⟨fun _ => ⟨iff_of_false hsize hp, fun hle => absurd hle hsize⟩, fun _ => rfl⟩

/-- One piece, when the body is read. -/
theorem Message.feed_step (hfits : m.bytes.length < 2 ^ 31) (hlow : m.text.length ≤ start)
    (hhigh : start ≤ m.bytes.length) {p q : Parser} {chunks : List Text}
    {dues : List (Option Request)} {rest : Prop} (hadd : p.addText chunk = q.takeBody)
    (hq : m.AtBody start text q) (hpart : text <+: m.bytes) (hne : text ≠ [])
    (hrest : ∀ p', m.AtBody start text p' → (feed p' chunks = .ok dues ↔ rest)) :
    feed p (chunk :: chunks) = .ok (m.due text.length :: dues) ↔
      m.Right start text.length ∧ rest := by
  have hsizes := m.comparable hfits hpart hne hhigh
  by_cases htoo : m.TooMuch start text
  · rw [feed_error (hadd.trans (hq.takeBody_tooMuch hsizes htoo))]
    constructor
    · exact nofun
    · exact fun h => absurd h.1 (htoo.not_right hpart hlow)
  · obtain ⟨p', htake, hp', hbody⟩ := hq.takeBody hsizes htoo
    rw [feed_cons (hadd.trans htake), hp'.due_iff hsizes hpart hbody, hrest p' hp']

theorem forall_mem_ends {chunk : Text} {chunks : List Text} {i : Nat} {P : Nat → Prop} :
    (∀ n ∈ ends i (chunk :: chunks), P n) ↔
      P (i + chunk.length) ∧ ∀ n ∈ ends (i + chunk.length) chunks, P n := by
  rw [ends, List.forall_mem_cons]

/-- The pieces of the body are parsed as they have to be, if and only if every end is right. -/
theorem Message.feed_atBody (hfits : m.bytes.length < 2 ^ 31) (hlow : m.text.length ≤ start)
    (hhigh : start ≤ m.bytes.length) {chunks : List Text} (hne : ∀ chunk ∈ chunks, chunk ≠ []) :
    ∀ {text : Text} {p : Parser}, m.AtBody start text p → text ++ chunks.flatten = m.bytes →
      (feed p chunks = .ok ((ends text.length chunks).map m.due) ↔
        ∀ n ∈ ends text.length chunks, m.Right start n) := by
  induction chunks with
  | nil =>
      intro text p _ _
      exact ⟨fun _ => nofun, fun _ => rfl⟩
  | cons chunk chunks ih =>
      intro text p hp hbytes
      obtain ⟨q, hadd, hq⟩ := hp.addText chunk
      have hnext : (text ++ chunk) ++ chunks.flatten = m.bytes := by
        rw [List.append_assoc]
        exact hbytes
      have hnil : text ++ chunk ≠ [] := by
        intro hnil
        exact hne chunk List.mem_cons_self (List.append_eq_nil_iff.mp hnil).2
      rw [forall_mem_ends, ← List.length_append]
      have hstep := m.feed_step hfits hlow hhigh hadd hq ⟨_, hnext⟩ hnil
        fun p' hp' => ih (fun chunk hmem => hne chunk (List.mem_cons_of_mem _ hmem)) hp' hnext
      rw [← hstep, ends, List.map_cons, ← List.length_append]

theorem bodyStartIn_some (hpart : text <+: m.bytes) (hlen : m.text.length ≤ text.length) :
    ∃ start, bodyStartIn text = some start ∧ m.text.length ≤ start ∧ start ≤ text.length := by
  rw [bodyStartIn_behind hpart hlen]
  cases honlyLf : m.onlyLf with
  | false => exact ⟨_, if_neg Bool.false_ne_true, Nat.le_refl _, hlen⟩
  | true =>
      rw [if_pos rfl]
      cases hfind : find [10, 13, 10] m.bytes with
      | none => exact ⟨_, rfl, Nat.le_refl _, hlen⟩
      | some q =>
          have hle := le_of_find honlyLf hfind
          by_cases hq : q + 3 ≤ text.length
          · exact ⟨_, if_pos hq, by omega, hq⟩
          · exact ⟨_, if_neg hq, Nat.le_refl _, hlen⟩

/-- Nothing is due before the header has been read. -/
theorem Message.right_before {n : Nat} (hlow : m.text.length ≤ start) (hn : n < m.text.length) :
    m.Right start n := by
  have hnot : ¬m.size ≤ n := by
    rw [Message.size]
    omega
  refine ⟨iff_of_false hnot ?_, fun hle => absurd hle hnot⟩
  rintro (heq | heq) <;> omega

/-- Where the body is taken to begin, and the pieces from the beginning. -/
theorem Message.feed_waiting (hfits : m.bytes.length < 2 ^ 31) {chunks : List Text}
    (hne : ∀ chunk ∈ chunks, chunk ≠ []) :
    ∀ {text : Text}, text.length < m.text.length → text ++ chunks.flatten = m.bytes →
      ∃ n ∈ ends text.length chunks, m.text.length ≤ n ∧
        (∀ i ∈ ends text.length chunks, m.text.length ≤ i → n ≤ i) ∧
        ∃ start, bodyStartIn (m.bytes.take n) = some start ∧ m.text.length ≤ start ∧
          (feed (.waiting text) chunks = .ok ((ends text.length chunks).map m.due) ↔
            ∀ i ∈ ends text.length chunks, m.Right start i) := by
  induction chunks with
  | nil =>
      intro text hlen hbytes
      have hlength := m.length_bytes
      rw [← hbytes, List.flatten_nil, List.append_nil, Message.size] at hlength
      omega
  | cons chunk chunks ih =>
      intro text hlen hbytes
      have hnext : (text ++ chunk) ++ chunks.flatten = m.bytes := by
        rw [List.append_assoc]
        exact hbytes
      have hpart : text ++ chunk <+: m.bytes := ⟨_, hnext⟩
      have hchunks := fun next hmem => hne next (List.mem_cons_of_mem _ hmem)
      rw [ends, ← List.length_append]
      by_cases hbefore : (text ++ chunk).length < m.text.length
      · obtain ⟨n, hn, hle, hmin, start, hstart, hlow, hfeed⟩ := ih hchunks hbefore hnext
        refine ⟨n, List.mem_cons_of_mem _ hn, hle, ?_, start, hstart, hlow, ?_⟩
        · intro i hi hbound
          rcases List.mem_cons.mp hi with rfl | hi
          · omega
          · exact hmin i hi hbound
        · have hadd := Parser.addText_waiting (bodyStartIn_before hpart hbefore)
          have hdue : m.due (text ++ chunk).length = none := by
            rw [Message.due, if_neg]
            rw [Message.size]
            omega
          have hright : m.Right start (text ++ chunk).length := right_before hlow hbefore
          rw [List.map_cons, feed_cons hadd, hfeed, List.forall_mem_cons, hdue]
          constructor
          · exact fun h => ⟨hright, h.2⟩
          · exact fun h => ⟨rfl, h.2⟩
      · have hbehind := Nat.le_of_not_lt hbefore
        obtain ⟨start, hstart, hlow, hhigh⟩ := bodyStartIn_some hpart hbehind
        have hle := hpart.length_le
        have hhead : m.text <+: text ++ chunk :=
          List.prefix_of_prefix_length_le ⟨_, rfl⟩ hpart hbehind
        have htake : m.bytes.take (text ++ chunk).length = text ++ chunk :=
          (List.prefix_iff_eq_take.mp hpart).symm
        refine ⟨_, List.mem_cons_self, hbehind, ?_, start, by rw [htake, hstart], hlow, ?_⟩
        · intro i hi _
          rcases List.mem_cons.mp hi with rfl | hi
          · exact Nat.le_refl _
          · exact (le_of_mem_ends hi).1
        · rw [List.forall_mem_cons, List.map_cons]
          rcases addText_found hhead hstart with ⟨q, hadd, hq, -⟩ | ⟨failure, -, hlarge⟩
          · have hnil : text ++ chunk ≠ [] := by
              intro hnil
              exact hne chunk List.mem_cons_self (List.append_eq_nil_iff.mp hnil).2
            have hhigh := Nat.le_trans hhigh hle
            exact m.feed_step hfits hlow hhigh hadd hq hpart hnil
              fun p' hp' => m.feed_atBody hfits hlow hhigh hchunks hp' hnext
          · omega

theorem takeBody_text {p p' : Parser} (h : p.takeBody = .ok p') : p'.text = p.text := by
  rw [Parser.takeBody] at h
  split at h
  · dsimp only at h
    split at h
    · cases h
    · cases h
      rfl
  · cases h
    rfl

/-- A request that is complete at once is not too long. -/
theorem Message.fits_of_feed {due : Request} (h : feed .start [m.bytes] = .ok [some due]) :
    m.bytes.length < 2 ^ 31 := by
  obtain ⟨start, hstart, hlow, -⟩ := bodyStartIn_some (m := m) (List.prefix_refl _) (by
    rw [m.length_bytes, Message.size, Nat.add_assoc]
    exact Nat.le_add_right _ _)
  rcases @addText_found m [] m.bytes _ ⟨_, rfl⟩ hstart with
    ⟨q, hadd, hq, hsmall⟩ | ⟨failure, hadd, -⟩
  · have hbound : m.bytes.length < 2 ^ 63 := by
      have hlength := m.length_bytes
      have hextra := m.extraText_le
      have hbody := m.body_fits
      rw [Message.size] at hlength
      omega
    cases htake : q.takeBody with
    | error failure =>
        have herror := @feed_error _ _ [] _ (hadd.trans htake)
        rw [show Parser.start = .waiting [] from rfl, herror] at h
        cases h
    | ok p =>
        have hcomplete : p.isComplete = true := by
          have hdue := ((feed_cons (hadd.trans htake)).mp h).1
          by_cases hp : p.isComplete = true
          · exact hp
          · rw [if_neg hp] at hdue
            cases hdue
        have htext : p.text = m.bytes := (takeBody_text htake).trans hq.text
        rw [Parser.isComplete, Parser.bodyEnd, htext, Bool.and_eq_true, Bool.or_eq_true,
          decide_eq_true_eq, decide_eq_true_eq] at hcomplete
        rcases hcomplete.2 with heq | heq
        · have hcases := toSizeT_toInt (p.bodyStart + p.contentLength)
          omega
        · have hcases := toSizeT_toInt (toInt (p.bodyStart + p.contentLength) + 2)
          omega
  · have herror := @feed_error _ _ [] _ hadd
    rw [show Parser.start = .waiting [] from rfl, herror] at h
    cases h

/-! ## Where the body begins -/

/-- What is the same with CRLF before it and behind it is made of CRLF. -/
theorem made_of_crlf : ∀ {text : Text}, text ++ crlf = crlf ++ text →
    ∃ k, text = (List.replicate k crlf).flatten
  | [], _ => ⟨0, rfl⟩
  | [c], h => by
      have htail := (List.cons.inj h).2
      exact absurd (List.cons.inj htail).1 (by decide)
  | c :: d :: text, h => by
      obtain ⟨hc, htail⟩ := List.cons.inj h
      obtain ⟨hd, hrest⟩ := List.cons.inj htail
      subst hc hd
      obtain ⟨k, hk⟩ := @made_of_crlf text hrest
      refine ⟨k + 1, ?_⟩
      rw [List.replicate_succ, List.flatten_cons, ← hk]
      rfl

theorem crlf_comm (k : Nat) :
    (List.replicate k crlf).flatten ++ crlf = crlf ++ (List.replicate k crlf).flatten := by
  rw [← List.flatten_cons, ← List.replicate_succ, List.replicate_succ', List.flatten_append,
    List.flatten_singleton]

/-- An empty line with CR directly behind the header, which is made of what follows. -/
theorem Message.find_of_crlf (honlyLf : m.onlyLf = true) (hextra : m.extra = true)
    (hbody : m.body ++ crlf = crlf ++ m.body) :
    find [10, 13, 10] m.bytes = some (m.text.length - 1) := by
  have hall := m.find_crlf_lf honlyLf (m.body ++ m.extraText)
  rw [Message.extraText, if_pos hextra, hbody] at hall
  rw [Message.bytes, Message.extraText, if_pos hextra, hbody, hall]
  have hfirst : find [10, 13, 10] (10 :: (crlf ++ m.body)) = some 0 := find_cons_pos ⟨m.body, rfl⟩
  rw [hfirst, Option.map_some, Nat.zero_add]

theorem Message.drop_text (m : Message) : m.bytes.drop m.text.length = m.body ++ m.extraText :=
  List.drop_left

theorem Message.hasCrLine_iff :
    m.hasCrLine = true ↔ m.onlyLf = true ∧ ∃ q, find [10, 13, 10] m.bytes = some q := by
  rw [Message.hasCrLine, Bool.and_eq_true, Option.isSome_iff_exists]

/-- Where everything has arrived at once and is complete, an empty line with CR
    can only be directly behind the header. -/
theorem Message.crlf_of_right (hhas : m.hasCrLine = true) (hstart : bodyStartIn m.bytes = some start)
    (hright : m.Right start m.bytes.length) :
    m.extra = true ∧ m.body ++ crlf = crlf ++ m.body := by
  obtain ⟨honlyLf, q, hq⟩ := hasCrLine_iff.mp hhas
  have hbytes := m.length_bytes
  have hextraLe := m.extraText_le
  have hlen : m.text.length ≤ m.bytes.length := by
    rw [hbytes, Message.size]
    omega
  have hbound : q + 3 ≤ m.bytes.length := find_bound hq
  have hlow := le_of_find honlyLf hq
  rw [bodyStartIn_behind (List.prefix_refl _) hlen, if_pos honlyLf, hq] at hstart
  dsimp only at hstart
  rw [if_pos hbound, Option.some.injEq] at hstart
  have hsize : m.size ≤ m.bytes.length := by omega
  have htwo : q + 1 = m.text.length ∧ m.extraText.length = 2 := by
    rw [Message.size] at hbytes
    rcases hright.1.mp hsize with heq | heq <;> omega
  have hextra : m.extra = true := by
    by_cases hextra : m.extra = true
    · exact hextra
    · rw [Message.extraText, if_neg hextra] at htwo
      cases htwo.2
  have hextraText : m.extraText = crlf := by rw [Message.extraText, if_pos hextra]
  -- the CRLF behind the header
  have hall := m.find_crlf_lf honlyLf (m.body ++ m.extraText)
  rw [show m.text ++ (m.body ++ m.extraText) = m.bytes from rfl, hq] at hall
  obtain ⟨j, hj, hjq⟩ := Option.map_eq_some_iff.mp hall.symm
  have hzero : j = 0 := by omega
  subst hzero
  have hpre : crlf <+: m.body ++ crlf := by
    by_cases hpre : [10, 13, 10] <+: 10 :: (m.body ++ m.extraText)
    · rw [hextraText] at hpre
      exact (List.cons_prefix_cons.mp hpre).2
    · rw [find_cons_neg hpre] at hj
      obtain ⟨i, -, hi⟩ := Option.map_eq_some_iff.mp hj
      cases hi
  -- and what is behind it
  have hdrop : (m.body ++ crlf).drop 2 = m.body := by
    have htake := hright.2 hsize
    rw [show start = m.text.length + 2 by omega, ← List.drop_drop, m.drop_text, hextraText,
      List.take_of_length_le] at htake
    · exact htake
    · rw [List.length_drop, List.length_append]
      exact Nat.le_refl _
  refine ⟨hextra, ?_⟩
  obtain ⟨rest, hrest⟩ := hpre
  rw [← hrest, show (crlf ++ rest).drop 2 = rest from rfl] at hdrop
  rw [← hrest, hdrop]

/-- Where the body is taken to begin, when that is right for the whole. -/
theorem Message.bodyStartIn_eq
    (honly : m.hasCrLine = true → m.extra = true ∧ m.body ++ crlf = crlf ++ m.body)
    (hpart : text <+: m.bytes) (hlen : m.text.length ≤ text.length) :
    bodyStartIn text = some (if m.hasCrLine = true ∧ m.text.length + 2 ≤ text.length
      then m.text.length + 2 else m.text.length) := by
  have hthree := m.three_le
  rw [bodyStartIn_behind hpart hlen]
  by_cases hhas : m.hasCrLine = true
  · obtain ⟨hextra, hbody⟩ := honly hhas
    obtain ⟨honlyLf, -⟩ := hasCrLine_iff.mp hhas
    rw [if_pos honlyLf, m.find_of_crlf honlyLf hextra hbody]
    dsimp only
    rw [show m.text.length - 1 + 3 = m.text.length + 2 by omega]
    by_cases htwo : m.text.length + 2 ≤ text.length
    · rw [if_pos htwo, if_pos ⟨hhas, htwo⟩]
    · rw [if_neg htwo, if_neg fun h => htwo h.2]
  · have hno : ¬(m.hasCrLine = true ∧ m.text.length + 2 ≤ text.length) := fun h => hhas h.1
    rw [if_neg hno]
    by_cases honlyLf : m.onlyLf = true
    · rw [if_pos honlyLf]
      cases hfind : find [10, 13, 10] m.bytes with
      | none => rfl
      | some q => exact absurd (hasCrLine_iff.mpr ⟨honlyLf, q, hfind⟩) hhas
    · rw [if_neg honlyLf]

/-- The body begins behind the header. -/
theorem Message.right_iff {n : Nat} (hn : n ≤ m.bytes.length) :
    m.Right m.text.length n ↔ n ≠ m.size + 1 := by
  have hbytes := m.length_bytes
  have hextra := m.extraText_le
  have hbody : (m.bytes.drop m.text.length).take m.body.length = m.body := by
    rw [m.drop_text, List.take_left]
  rw [Message.Right, and_iff_left fun _ => hbody, Message.size]
  rw [Message.size] at hbytes
  omega

/-- The body, which is made of CRLF, begins two bytes later. -/
theorem Message.right_two_iff {n : Nat} (hn : n ≤ m.bytes.length) (hextra : m.extra = true)
    (hcomm : m.body ++ crlf = crlf ++ m.body) :
    m.Right (m.text.length + 2) n ↔ n ≠ m.size ∧ n ≠ m.size + 1 := by
  have hbytes := m.length_bytes
  have hextraLe := m.extraText_le
  have hbody : (m.bytes.drop (m.text.length + 2)).take m.body.length = m.body := by
    rw [← List.drop_drop, m.drop_text, Message.extraText, if_pos hextra, hcomm]
    exact List.take_length
  rw [Message.Right, and_iff_left fun _ => hbody, Message.size]
  rw [Message.size] at hbytes
  omega

/-- What is right for all ends, where it is right for the whole. -/
theorem Message.right_ends_iff {ends : List Nat} {first : Nat}
    (honly : m.hasCrLine = true → m.extra = true ∧ m.body ++ crlf = crlf ++ m.body)
    (hbound : ∀ n ∈ ends, n ≤ m.bytes.length) (hfirst : first ∈ ends)
    (hle : m.text.length ≤ first) (hmin : ∀ n ∈ ends, m.text.length ≤ n → first ≤ n)
    (hstart : bodyStartIn (m.bytes.take first) = some start) :
    (∀ n ∈ ends, m.Right start n) ↔
      m.size + 1 ∉ ends ∧ (m.hasCrLine = true → m.text.length ∈ ends ∨
        m.text.length + 1 ∈ ends ∨ m.size ∉ ends) := by
  have hlength : (m.bytes.take first).length = first :=
    List.length_take_of_le (hbound first hfirst)
  rw [m.bodyStartIn_eq honly (List.take_prefix _ _) (by rw [hlength]; exact hle), hlength,
    Option.some.injEq] at hstart
  by_cases hshift : m.hasCrLine = true ∧ m.text.length + 2 ≤ first
  · obtain ⟨hhas, htwo⟩ := hshift
    obtain ⟨hextra, hcomm⟩ := honly hhas
    rw [if_pos ⟨hhas, htwo⟩] at hstart
    subst hstart
    constructor
    · intro hright
      refine ⟨fun hmem => ?_, fun _ => .inr (.inr fun hmem => ?_)⟩
      · exact ((m.right_two_iff (hbound _ hmem) hextra hcomm).mp (hright _ hmem)).2 rfl
      · exact ((m.right_two_iff (hbound _ hmem) hextra hcomm).mp (hright _ hmem)).1 rfl
    · rintro ⟨hcut, hcuts⟩ n hn
      refine (m.right_two_iff (hbound n hn) hextra hcomm).mpr ⟨?_, ?_⟩
      · rintro rfl
        rcases hcuts hhas with hmem | hmem | hmem
        · have hfirst := hmin _ hmem (Nat.le_refl _)
          omega
        · have hfirst := hmin _ hmem (Nat.le_succ _)
          omega
        · exact hmem hn
      · rintro rfl
        exact hcut hn
  · rw [if_neg hshift] at hstart
    subst hstart
    constructor
    · intro hright
      refine ⟨fun hmem => (m.right_iff (hbound _ hmem)).mp (hright _ hmem) rfl, fun hhas => ?_⟩
      have hlow : first < m.text.length + 2 := Nat.lt_of_not_le fun htwo => hshift ⟨hhas, htwo⟩
      rcases Nat.lt_or_eq_of_le hle with hlt | heq
      · have heq : first = m.text.length + 1 := by omega
        exact .inr (.inl (heq ▸ hfirst))
      · exact .inl (heq ▸ hfirst)
    · rintro ⟨hcut, -⟩ n hn
      refine (m.right_iff (hbound n hn)).mpr ?_
      rintro rfl
      exact hcut hn

/-! ## All pieces -/

theorem Message.onlyCrlf_iff (m : Message) :
    (∃ k, m.body = (List.replicate k crlf).flatten) ↔ m.body ++ crlf = crlf ++ m.body := by
  constructor
  · rintro ⟨k, hk⟩
    rw [hk, crlf_comm]
  · exact made_of_crlf

/-- The request all at once. -/
theorem Message.feed_whole (hfits : m.bytes.length < 2 ^ 31) :
    feed .start [m.bytes] = .ok [some m.request] ↔
      (m.hasCrLine = true → m.extra = true ∧ m.body ++ crlf = crlf ++ m.body) := by
  have hthree := m.three_le
  have hlen : m.text.length ≤ m.bytes.length := by
    rw [m.length_bytes, Message.size, Nat.add_assoc]
    exact Nat.le_add_right _ _
  have hnil : m.bytes ≠ [] := List.length_pos_iff.mp (by omega)
  have hsize : m.size ≤ m.bytes.length := by
    rw [m.length_bytes]
    exact Nat.le_add_right _ _
  obtain ⟨n, hn, hle, -, start, hstart, hlow, hfeed⟩ := @m.feed_waiting hfits [m.bytes]
    (by simpa using hnil) [] (by rw [List.length_nil]; omega) (by simp)
  have hends : ends ([] : Text).length [m.bytes] = [m.bytes.length] := by
    simp only [ends, List.length_nil, Nat.zero_add]
  rw [hends] at hn hfeed
  rw [List.mem_singleton.mp hn, List.take_length] at hstart
  rw [List.map_singleton, Message.due, if_pos hsize, List.forall_mem_singleton] at hfeed
  rw [show Parser.start = .waiting [] from rfl, hfeed]
  constructor
  · exact fun hright hhas => crlf_of_right hhas hstart hright
  · intro honly
    have hbound : ∀ i ∈ [m.bytes.length], i ≤ m.bytes.length := by simp
    have hmin : ∀ i ∈ [m.bytes.length], m.text.length ≤ i → m.bytes.length ≤ i := by simp
    rw [← List.take_length (l := m.bytes)] at hstart
    refine (m.right_ends_iff honly hbound List.mem_cons_self hlen hmin hstart).mpr ⟨?_, ?_⟩ _
      List.mem_cons_self
    · rw [List.mem_singleton, m.length_bytes, Message.extraText]
      split
      · exact fun heq => absurd (Nat.add_left_cancel heq) (by decide)
      · exact fun heq => absurd (Nat.add_left_cancel heq) (by decide)
    · intro hhas
      refine .inr (.inr ?_)
      rw [List.mem_singleton, m.length_bytes, Message.extraText, if_pos (honly hhas).1]
      exact Nat.ne_of_lt (Nat.lt_add_of_pos_right (by decide))

/-- The pieces of a request are parsed as they have to be, and as all at once, if and
    only if they are tolerated. -/
theorem parsed_iff_tolerated (m : Message) {chunks : List Text}
    (hne : ∀ chunk ∈ chunks, chunk ≠ []) (hbytes : chunks.flatten = m.bytes) :
    m.Parsed chunks ↔ m.Tolerated chunks := by
  have hpos : ([] : Text).length < m.text.length := Nat.lt_of_lt_of_le (by decide) m.three_le
  have hbound : ∀ n ∈ ends 0 chunks, n ≤ m.bytes.length := by
    intro n hn
    have hle := (le_of_mem_ends hn).2
    rw [hbytes, Nat.zero_add] at hle
    exact hle
  have hfeed (hfits : m.bytes.length < 2 ^ 31)
      (honly : m.hasCrLine = true → m.extra = true ∧ m.body ++ crlf = crlf ++ m.body) :
      feed .start chunks = .ok ((ends 0 chunks).map m.due) ↔
        m.size + 1 ∉ ends 0 chunks ∧ (m.hasCrLine = true → m.text.length ∈ ends 0 chunks ∨
          m.text.length + 1 ∈ ends 0 chunks ∨ m.size ∉ ends 0 chunks) := by
    obtain ⟨first, hfirst, hle, hmin, start, hstart, -, hiff⟩ :=
      m.feed_waiting hfits hne hpos (by rw [List.nil_append, hbytes])
    exact hiff.trans (m.right_ends_iff honly hbound hfirst hle hmin hstart)
  constructor
  · rintro ⟨hparsed, hwhole⟩
    have hfits := m.fits_of_feed hwhole
    have honly := (m.feed_whole hfits).mp hwhole
    obtain ⟨hcut, hcuts⟩ := (hfeed hfits honly).mp hparsed
    exact ⟨hfits, hcut, fun hhas => ⟨(honly hhas).1, m.onlyCrlf_iff.mpr (honly hhas).2⟩, hcuts⟩
  · rintro ⟨hfits, hcut, hmade, hcuts⟩
    have honly := fun hhas => (⟨(hmade hhas).1, m.onlyCrlf_iff.mp (hmade hhas).2⟩ : _ ∧ _)
    exact ⟨(hfeed hfits honly).mpr ⟨hcut, hcuts⟩, (m.feed_whole hfits).mpr honly⟩

def plainHeader : Header :=
  { httpMethod := ascii "GET", target := ascii "/", protocol := ascii "HTTP/1.1", lines := []
    onlyLf := false, method_ok := ⟨by decide, forall_mem_of_all (by decide)⟩
    target_ok := ⟨by decide, forall_mem_of_all (by decide), .plain (by decide) .nil⟩
    protocol_ok := ⟨by decide, forall_mem_of_all (by decide)⟩, lines_ok := nofun }

/-- A request without a body, with the CRLF that is tolerated. -/
def plainMessage : Message :=
  { toHeader := plainHeader, body := [], extra := true
    body_fits := by decide, contentLength_ok := .inl (by decide) }

theorem parsed_iff_tolerated_plain :
    plainMessage.Parsed [plainHeader.text, crlf] ↔
      plainMessage.Tolerated [plainHeader.text, crlf] :=
  parsed_iff_tolerated plainMessage (by decide) (by decide)

/-- The parser takes it for too much data, when it is cut. -/
theorem not_parsed_cutCrlf : ¬∀ (m : Message) (chunks : List Text),
    (∀ chunk ∈ chunks, chunk ≠ []) → chunks.flatten = m.bytes → m.Parsed chunks := by
  intro h
  have hparsed := (h plainMessage [plainHeader.text, [13], [10]] (by decide) (by decide)).1
  exact absurd hparsed (by decide)

end HttpParser
