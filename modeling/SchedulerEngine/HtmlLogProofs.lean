import Mathlib.Data.List.DropRight
import SchedulerEngine.HtmlTokensProofs

/-! # The log in HTML

    `Html_chunk_reader::try_fill_chunk` encodes a log line by line.  The text in the
    first brackets of a line is the class of the line, and addresses become links.
    Both are attribute values in single quotes, for which the encoding takes no
    account of quotes, and writes characters that are not allowed as an element. -/

namespace HtmlLog

open Http Html

/-- `allowed_html_characters`. -/
def allowedHtmlCharacters (c : UInt8) : Bool :=
  c = 9 || c = 10 || c = 13 || 32 ≤ c && c ≤ 126 && c ≠ 38 && c ≠ 60 && c ≠ 62 || 160 ≤ c

/-- `hex`. -/
def hex (digit : UInt8) : UInt8 := if digit < 10 then 48 + digit else 87 + digit

def hexDigits (c : UInt8) : Text := [hex (c / 16), hex (c % 16)]

/-- What `append_html_encoded` appends for a character; `quote` is 0 if there is none. -/
def htmlEncoded (quote c : UInt8) : Text :=
  if allowedHtmlCharacters c || c = quote then [c]
  else if c = 38 then ascii "&amp;"
  else if c = 60 then ascii "&lt;"
  else if c = 62 then [62]  -- the character looked at is the bracket itself
  else if c = 39 then ascii "&#x27;"
  else if c = 34 then ascii "&#x22;"
  else ascii "<span class='invalid_character'>" ++ hexDigits c ++ ascii "</span>"

/-- `append_html_encoded`. -/
def appendHtmlEncoded (text : Text) (quote : UInt8) : Text := text.flatMap (htmlEncoded quote)

/-- `isspace` and `isalnum`, in the C locale. -/
def isCSpace (c : UInt8) : Bool := c = 32 || 9 ≤ c && c ≤ 13

def isAlnum (c : UInt8) : Bool := Html.isDigit c || Html.isLetter c

def http : Text := ascii "http://"

/-- The address at the beginning of the text. -/
def address (text : Text) : Text :=
  (text.takeWhile fun c => !isCSpace c).rdropWhile fun c => !isAlnum c && c ≠ 47

/-- What `try_fill_chunk` appends in one step. -/
inductive Item where
  | opened (level : Text) (stderr : Bool)
  | char (c : UInt8)
  | carriageReturn
  | lineEnd (spans : Nat)
  | link (url : Text)
deriving DecidableEq, Repr

def Item.html : Item → Text
  | .opened level stderr =>
      ascii "<span class='log_" ++ appendHtmlEncoded level 0
        ++ (if stderr then ascii " log_stderr" else []) ++ ascii "'>"
  | .char c => htmlEncoded 0 c
  | .carriageReturn => []
  | .lineEnd spans => (List.replicate spans (ascii "</span>")).flatten ++ [10]
  | .link url =>
      ascii "<a class='log' href='" ++ appendHtmlEncoded url 39 ++ ascii "' target='_blank'>"
        ++ appendHtmlEncoded url 0 ++ ascii "</a>"

/-- The members of `Html_chunk_reader` that go from line to line. -/
structure Encoder where
  inSpan : Nat
  atBeginOfLine : Bool
deriving DecidableEq, Repr

def Encoder.start : Encoder := ⟨0, true⟩

/-- The loop over the characters of a line; those of an address are skipped. -/
def charItems : Text → Nat → Encoder → List Item × Encoder
  | [], _, st => ([], st)
  | _ :: rest, skip + 1, st => charItems rest skip st
  | c :: rest, 0, st =>
      if c = 13 then
        let (items, st) := charItems rest 0 st
        (.carriageReturn :: items, st)
      else if c = 10 then
        let (items, next) := charItems rest 0 ⟨0, true⟩
        (.lineEnd st.inSpan :: items, next)
      else if http.isPrefixOf (c :: rest) then
        let url := address (c :: rest)
        let (items, st) := charItems rest (url.length - 1) st
        (.link url :: items, st)
      else
        let (items, st) := charItems rest 0 st
        (.char c :: items, st)

/-- The text in the first brackets, and whether `[stderr]` follows. -/
def levelOf (line : Text) : Option (Text × Bool) :=
  match line.findIdx? (· = 91), line.findIdx? (· = 93) with
  | some left, some right =>
      if left < right then
        some (lcase ((line.drop (left + 1)).take (right - left - 1)),
          (ascii "[stderr]").isPrefixOf ((line.drop (right + 1)).dropWhile (· = 32)))
      else none
  | _, _ => none

/-- The loop of `try_fill_chunk` with one line. -/
def lineItems (line : Text) (st : Encoder) : List Item × Encoder :=
  match if st.atBeginOfLine then levelOf line else none with
  | some (level, stderr) =>
      let (items, st) := charItems line 0 ⟨st.inSpan + 1, false⟩
      (.opened level stderr :: items, st)
  | none => charItems line 0 { st with atBeginOfLine := false }

def bodyItems : List Text → Encoder → List Item
  | [], _ => []
  | line :: lines, st => (lineItems line st).1 ++ bodyItems lines (lineItems line st).2

/-- The body, for the lines that `try_fill_line` gives. -/
def body (lines : List Text) : Text := (bodyItems lines .start).flatMap Item.html

/-! ## What is meant -/

/-- The characters that are allowed in HTML, some of them as a reference. -/
def known (c : UInt8) : Bool := allowedHtmlCharacters c || c = 38 || c = 60 || c = 62

/-- A character as it is to be seen. -/
def shown (c : UInt8) : Text :=
  if c = 13 then [] else if known c then [c] else hexDigits c

def element (name : String) (attributes : List (Text × Text)) (content : List Token) : List Token :=
  .tag ⟨false, ascii name, attributes⟩ :: content ++ [.tag ⟨true, ascii name, []⟩]

def charTokens (c : UInt8) : List Token :=
  if known c then [.char c]
  else element "span" [(ascii "class", ascii "invalid_character")] ((hexDigits c).map .char)

def Item.tokens : Item → List Token
  | .opened level stderr =>
      [.tag ⟨false, ascii "span", [(ascii "class",
        ascii "log_" ++ level ++ if stderr then ascii " log_stderr" else [])]⟩]
  | .char c => charTokens c
  | .carriageReturn => []
  | .lineEnd spans => List.replicate spans (.tag ⟨true, ascii "span", []⟩) ++ [.char 10]
  | .link url =>
      element "a" [(ascii "class", ascii "log"), (ascii "href", url), (ascii "target", ascii "_blank")]
        (url.flatMap charTokens)

/-- The elements and the characters the reader means to write. -/
def written (lines : List Text) : List Token := (bodyItems lines .start).flatMap Item.tokens

/-- A browser sees the elements the reader means to write, and the text. -/
def Safe (lines : List Text) : Prop :=
  tokenize (body lines) = written lines ∧
    plain (tokenize (body lines)) = lines.flatten.flatMap shown

/-- No quote and no character that is not allowed in an attribute, and no 0. -/
def Item.Clean : Item → Prop
  | .opened level _ => ∀ c ∈ level, c ≠ 39 ∧ (known c = true ∨ c = 0)
  | .char c => c ≠ 0
  | .carriageReturn => True
  | .lineEnd _ => True
  | .link url => ∀ c ∈ url, c ≠ 39 ∧ known c = true

def Clean (lines : List Text) : Prop := ∀ item ∈ bodyItems lines .start, item.Clean

/-! ## The text -/

theorem address_prefix (text : Text) : address text <+: text :=
  (List.rdropWhile_prefix _ _).trans (List.takeWhile_prefix _)

theorem address_ne_nil {text : Text} (h : http.isPrefixOf text = true) : address text ≠ [] := by
  obtain ⟨rest, rfl⟩ := List.isPrefixOf_iff_prefix.mp h
  have hmem : (47 : UInt8) ∈ (http ++ rest).takeWhile fun c => !isCSpace c := by
    rw [List.takeWhile_append_of_pos (forall_mem_of_all (by decide))]
    exact List.mem_append_left _ (by decide)
  intro hnil
  exact absurd (List.rdropWhile_eq_nil_iff.mp hnil 47 hmem) (by decide)

theorem address_noCr (text : Text) : ∀ c ∈ address text, c ≠ 13 := by
  rintro c hc rfl
  have htake := (List.rdropWhile_prefix _ _).subset hc
  exact absurd (List.mem_takeWhile_imp htake) (by decide)

theorem plain_append (tokens more : List Token) :
    plain (tokens ++ more) = plain tokens ++ plain more := List.flatMap_append

theorem plain_charTokens {c : UInt8} (hc : c ≠ 13) : plain (charTokens c) = shown c := by
  rw [charTokens, shown, if_neg hc]
  split
  · rfl
  · rfl

theorem plain_link {url : Text} (h : ∀ c ∈ url, c ≠ 13) :
    plain (Item.link url).tokens = url.flatMap shown := by
  have hurl : plain (url.flatMap charTokens) = url.flatMap shown := by
    induction url with
    | nil => rfl
    | cons c url ih =>
        obtain ⟨hc, hrest⟩ := List.forall_mem_cons.mp h
        rw [List.flatMap_cons, plain_append, plain_charTokens hc, ih hrest, List.flatMap_cons]
  have helement : plain (Item.link url).tokens = plain (url.flatMap charTokens) ++ [] :=
    plain_append _ _
  rw [helement, hurl, List.append_nil]

theorem plain_lineEnd (spans : Nat) : plain (Item.lineEnd spans).tokens = [10] := by
  induction spans with
  | zero => rfl
  | succ spans ih => exact ih

/-- Nothing is lost of a line. -/
theorem plain_charItems (text : Text) (skip : Nat) (st : Encoder) :
    plain ((charItems text skip st).1.flatMap Item.tokens) = (text.drop skip).flatMap shown := by
  induction text generalizing skip st with
  | nil => rw [List.drop_nil]; rfl
  | cons c rest ih =>
      cases skip with
      | succ skip => exact ih skip st
      | zero =>
          rw [charItems, List.drop_zero, List.flatMap_cons]
          by_cases hcr : c = 13
          · rw [if_pos hcr, hcr]
            exact ih 0 st
          · rw [if_neg hcr]
            by_cases hlf : c = 10
            · rw [if_pos hlf, hlf]
              show plain ((Item.lineEnd st.inSpan).tokens ++ (charItems rest 0 _).1.flatMap _) = _
              rw [plain_append, plain_lineEnd, ih]
              rfl
            · rw [if_neg hlf]
              by_cases hhttp : http.isPrefixOf (c :: rest) = true
              · rw [if_pos hhttp]
                show plain ((Item.link (address (c :: rest))).tokens
                  ++ (charItems rest _ st).1.flatMap _) = _
                rw [plain_append, plain_link (address_noCr _), ih, ← List.flatMap_cons]
                obtain ⟨more, hmore⟩ := address_prefix (c :: rest)
                cases haddress : address (c :: rest) with
                | nil => exact absurd haddress (address_ne_nil hhttp)
                | cons d url =>
                    rw [haddress, List.cons_append, List.cons.injEq] at hmore
                    obtain ⟨rfl, rfl⟩ := hmore
                    rw [List.length_cons, Nat.add_sub_cancel, List.drop_left,
                      ← List.flatMap_append, List.cons_append]
              · rw [if_neg hhttp]
                show plain (charTokens c ++ (charItems rest 0 st).1.flatMap _) = _
                rw [plain_append, plain_charTokens hcr, ih, List.drop_zero]

theorem plain_lineItems (line : Text) (st : Encoder) :
    plain ((lineItems line st).1.flatMap Item.tokens) = line.flatMap shown := by
  rw [lineItems]
  split
  · exact plain_charItems line 0 _
  · exact plain_charItems line 0 _

/-- The text is in what the reader means to write. -/
theorem plain_written (lines : List Text) : plain (written lines) = lines.flatten.flatMap shown := by
  have hall (st : Encoder) : plain ((bodyItems lines st).flatMap Item.tokens)
      = lines.flatten.flatMap shown := by
    induction lines generalizing st with
    | nil => rfl
    | cons line lines ih =>
        rw [bodyItems, List.flatMap_append, plain_append, plain_lineItems, ih, List.flatten_cons,
          List.flatMap_append]
  exact hall .start

theorem known_cases {c : UInt8} (h : known c = true) :
    allowedHtmlCharacters c = true ∨ c = 38 ∨ c = 60 ∨ c = 62 := by
  simpa [known, or_assoc] using h

/-! ## A value -/

variable {tag : Tag} {name value text rest : Text} {quote c : UInt8}

theorem run_value_word {word : Text} (hword : ∀ c ∈ word, c ≠ 39 ∧ c ≠ 38) :
    Html.run (.value tag name (some 39) value none) (word ++ rest)
      = Html.run (.value tag name (some 39) (value ++ word) none) rest := by
  induction word generalizing value with
  | nil => rw [List.nil_append, List.append_nil]
  | cons c word ih =>
      obtain ⟨hquote, hamp⟩ := hword c List.mem_cons_self
      rw [List.cons_append, run_value_char hquote hamp,
        ih fun d hd => hword d (List.mem_cons_of_mem c hd), List.append_assoc]
      rfl

theorem allowed_ne_amp (h : allowedHtmlCharacters c = true) : c ≠ 38 := by
  rintro rfl
  exact absurd h (by decide)

/-- A character in a value is read back, if it is not a quote and there is a way to write it. -/
theorem run_value_encoded (hc : c ≠ 39) (hknown : known c = true ∨ c = quote) (hquote : quote ≠ 38) :
    Html.run (.value tag name (some 39) value none) (htmlEncoded quote c ++ rest)
      = Html.run (.value tag name (some 39) (value ++ [c]) none) rest := by
  rw [htmlEncoded]
  by_cases hraw : (allowedHtmlCharacters c || decide (c = quote)) = true
  · rw [if_pos hraw]
    refine run_value_char hc ?_
    rcases Bool.or_eq_true_iff.mp hraw with h | h
    · exact allowed_ne_amp h
    · exact of_decide_eq_true h ▸ hquote
  · rw [if_neg hraw]
    rw [Bool.or_eq_true, decide_eq_true_eq, not_or] at hraw
    rcases known_cases (hknown.resolve_right hraw.2) with h | rfl | rfl | rfl
    · exact absurd h hraw.1
    · rfl
    · rfl
    · exact run_value_char (by decide) (by decide)

theorem run_value_text (htext : ∀ c ∈ text, c ≠ 39 ∧ (known c = true ∨ c = quote))
    (hquote : quote ≠ 38) :
    Html.run (.value tag name (some 39) value none) (appendHtmlEncoded text quote ++ rest)
      = Html.run (.value tag name (some 39) (value ++ text) none) rest := by
  induction text generalizing value with
  | nil => rw [appendHtmlEncoded, List.flatMap_nil, List.nil_append, List.append_nil]
  | cons c text ih =>
      obtain ⟨hc, hknown⟩ := htext c List.mem_cons_self
      rw [appendHtmlEncoded, List.flatMap_cons, List.append_assoc,
        run_value_encoded hc hknown hquote]
      show Html.run _ (appendHtmlEncoded text quote ++ rest) = _
      rw [ih fun d hd => htext d (List.mem_cons_of_mem c hd), List.append_assoc]
      rfl

theorem htmlEncoded_invalid (hknown : known c = false) (hquote : c ≠ quote) :
    htmlEncoded quote c
      = ascii "<span class='invalid_character'>" ++ hexDigits c ++ ascii "</span>" := by
  simp only [known, Bool.or_eq_false_iff, decide_eq_false_iff_not] at hknown
  obtain ⟨⟨⟨hallowed, hamp⟩, hless⟩, hgreater⟩ := hknown
  have hapos : c ≠ 39 := by
    rintro rfl
    exact absurd hallowed (by decide)
  have hquot : c ≠ 34 := by
    rintro rfl
    exact absurd hallowed (by decide)
  rw [htmlEncoded, hallowed, Bool.false_or, if_neg (by simpa using hquote), if_neg hamp,
    if_neg hless, if_neg hgreater, if_neg hapos, if_neg hquot]

/-- A quote ends the value, and so does the element for a character that is not allowed. -/
theorem run_value_ends (hc : ¬(c ≠ 39 ∧ (known c = true ∨ c = quote))) :
    ∃ read left, (∀ more, read ≠ c :: more) ∧
      Html.run (.value tag name (some 39) value none) (htmlEncoded quote c ++ rest)
        = Html.run (.afterValue (tag.add name (value ++ read))) left := by
  by_cases hapos : c = 39
  · subst hapos
    refine ⟨[], rest, fun more => nofun, ?_⟩
    have hraw : htmlEncoded quote 39 = [39] := if_pos rfl
    rw [hraw, List.append_nil]
    exact run_value_quote tag name value rest 39
  · obtain ⟨hknown, hquote⟩ := not_or.mp fun h => hc ⟨hapos, h⟩
    have hknown := Bool.eq_false_iff.mpr hknown
    refine ⟨ascii "<span class=", ascii "invalid_character'>" ++ (hexDigits c
      ++ (ascii "</span>" ++ rest)), ?_, ?_⟩
    · intro more heq
      have hless : (60 : UInt8) = c := (List.cons.inj heq).1
      rw [← hless] at hknown
      exact absurd hknown (by decide)
    · have htext : htmlEncoded quote c ++ rest = ascii "<span class=" ++ 39 ::
          (ascii "invalid_character'>" ++ (hexDigits c ++ (ascii "</span>" ++ rest))) := by
        rw [htmlEncoded_invalid hknown hquote, List.append_assoc, List.append_assoc]
        rfl
      rw [htext, run_value_word (forall_mem_of_all (by decide)), run_value_quote]

/-- Otherwise the value ends too early, and is not a beginning of the text. -/
theorem run_value_broken (htext : ¬∀ c ∈ text, c ≠ 39 ∧ (known c = true ∨ c = quote))
    (hquote : quote ≠ 38) :
    ∃ read left, (∀ more, read ≠ text ++ more) ∧
      Html.run (.value tag name (some 39) value none) (appendHtmlEncoded text quote ++ rest)
        = Html.run (.afterValue (tag.add name (value ++ read))) left := by
  induction text generalizing value with
  | nil => exact absurd (fun _ hc => absurd hc List.not_mem_nil) htext
  | cons c text ih =>
      have hhtml : appendHtmlEncoded (c :: text) quote ++ rest
          = htmlEncoded quote c ++ (appendHtmlEncoded text quote ++ rest) := by
        rw [appendHtmlEncoded, List.flatMap_cons, List.append_assoc]
        rfl
      rw [hhtml]
      by_cases hc : c ≠ 39 ∧ (known c = true ∨ c = quote)
      · obtain ⟨read, left, hread, hrun⟩ := @ih (value ++ [c])
          fun hall => htext (List.forall_mem_cons.mpr ⟨hc, hall⟩)
        refine ⟨c :: read, left, fun more heq => hread more (List.cons.inj heq).2, ?_⟩
        rw [run_value_encoded hc.1 hc.2 hquote, hrun, List.append_assoc]
        rfl
      · obtain ⟨read, left, hread, hrun⟩ := run_value_ends hc
        exact ⟨read, left, fun more => hread (text ++ more), hrun⟩

/-! ## The items -/

theorem toNat_hex {digit : UInt8} (h : digit < 16) :
    (hex digit).toNat = if digit < 10 then 48 + digit.toNat else 87 + digit.toNat := by
  have hlt : digit.toNat < 16 := UInt8.lt_iff_toNat_lt.mp h
  rw [hex]
  split
  · rw [UInt8.toNat_add]
    exact Nat.mod_eq_of_lt (show 48 + digit.toNat < 256 by omega)
  · rw [UInt8.toNat_add]
    exact Nat.mod_eq_of_lt (show 87 + digit.toNat < 256 by omega)

theorem hex_data {digit : UInt8} (h : digit < 16) : hex digit ≠ 60 ∧ hex digit ≠ 38 := by
  have hnat := toNat_hex h
  have hne : (hex digit).toNat ≠ 60 ∧ (hex digit).toNat ≠ 38 := by
    rw [hnat]
    split
    · rename_i hlow
      have hlow : digit.toNat < 10 := UInt8.lt_iff_toNat_lt.mp hlow
      omega
    · omega
  exact ⟨fun heq => hne.1 (congrArg UInt8.toNat heq), fun heq => hne.2 (congrArg UInt8.toNat heq)⟩

theorem run_data (hless : c ≠ 60) (hamp : c ≠ 38) :
    Html.run (.data none) (c :: rest) = .char c :: Html.run (.data none) rest := by
  have hstep : step (.data none) c = ([.char c], .data none) := by
    show stepData c = _
    rw [stepData, if_neg hless, if_neg hamp]
  rw [Html.run, hstep]
  rfl

/-- The element for a character that is not allowed. -/
theorem run_invalid (c : UInt8) :
    Html.run (.data none)
        (ascii "<span class='invalid_character'>" ++ hexDigits c ++ ascii "</span>" ++ rest)
      = element "span" [(ascii "class", ascii "invalid_character")] ((hexDigits c).map .char)
        ++ Html.run (.data none) rest := by
  have hhigh : c / 16 < 16 := by
    rw [UInt8.lt_iff_toNat_lt, UInt8.toNat_div]
    exact Nat.div_lt_of_lt_mul c.toNat_lt
  have hlow : c % 16 < 16 := by
    rw [UInt8.lt_iff_toNat_lt, UInt8.toNat_mod]
    exact Nat.mod_lt _ (by decide)
  obtain ⟨hless, hamp⟩ := hex_data hhigh
  obtain ⟨hless', hamp'⟩ := hex_data hlow
  have hopen : Html.run (.data none)
      (ascii "<span class='invalid_character'>" ++ hexDigits c ++ ascii "</span>" ++ rest)
        = .tag ⟨false, ascii "span", [(ascii "class", ascii "invalid_character")]⟩
          :: Html.run (.data none) (hex (c / 16) :: hex (c % 16) :: (ascii "</span>" ++ rest)) := rfl
  have hclose : Html.run (.data none) (ascii "</span>" ++ rest)
      = .tag ⟨true, ascii "span", []⟩ :: Html.run (.data none) rest := rfl
  rw [hopen, run_data hless hamp, run_data hless' hamp', hclose]
  rfl

/-- A character of the text. -/
theorem run_char (hc : c ≠ 0) :
    Html.run (.data none) (htmlEncoded 0 c ++ rest)
      = charTokens c ++ Html.run (.data none) rest := by
  by_cases hknown : known c = true
  · rw [charTokens, if_pos hknown]
    rcases known_cases hknown with hallowed | rfl | rfl | rfl
    · have hless : c ≠ 60 := by
        rintro rfl
        exact absurd hallowed (by decide)
      rw [htmlEncoded, hallowed, if_pos (Bool.true_or _)]
      exact run_data hless (allowed_ne_amp hallowed)
    · rfl
    · rfl
    · rfl
  · have hknown' := Bool.eq_false_iff.mpr hknown
    rw [charTokens, if_neg hknown, htmlEncoded_invalid hknown' hc]
    exact run_invalid c

theorem run_text (htext : ∀ c ∈ text, c ≠ 0) :
    Html.run (.data none) (appendHtmlEncoded text 0 ++ rest)
      = text.flatMap charTokens ++ Html.run (.data none) rest := by
  induction text with
  | nil => rfl
  | cons c text ih =>
      rw [appendHtmlEncoded, List.flatMap_cons, List.append_assoc,
        run_char (htext c List.mem_cons_self), List.flatMap_cons, List.append_assoc]
      exact congrArg _ (ih fun d hd => htext d (List.mem_cons_of_mem c hd))

theorem run_spans (spans : Nat) (rest : Text) :
    Html.run (.data none) ((List.replicate spans (ascii "</span>")).flatten ++ rest)
      = List.replicate spans (.tag ⟨true, ascii "span", []⟩) ++ Html.run (.data none) rest := by
  induction spans with
  | zero => rfl
  | succ spans ih =>
      rw [List.replicate_succ, List.flatten_cons, List.append_assoc, List.replicate_succ,
        List.cons_append, ← ih]
      rfl

/-- The level is read as a value. -/
theorem run_opened (level : Text) (stderr : Bool) (rest : Text) :
    Html.run (.data none) ((Item.opened level stderr).html ++ rest)
      = Html.run (.value ⟨false, ascii "span", []⟩ (ascii "class") (some 39) (ascii "log_") none)
        (appendHtmlEncoded level 0 ++ ((if stderr then ascii " log_stderr" else [])
          ++ (ascii "'>" ++ rest))) := by
  simp only [Item.html, List.append_assoc]
  rfl

/-- And so is an address. -/
theorem run_link (url rest : Text) :
    Html.run (.data none) ((Item.link url).html ++ rest)
      = Html.run (.value ⟨false, ascii "a", [(ascii "class", ascii "log")]⟩ (ascii "href")
          (some 39) [] none)
        (appendHtmlEncoded url 39 ++ (ascii "' target='_blank'>"
          ++ (appendHtmlEncoded url 0 ++ (ascii "</a>" ++ rest)))) := by
  simp only [Item.html, List.append_assoc]
  rfl

/-- What the reader means to write is read. -/
theorem run_clean {item : Item} (h : item.Clean) (rest : Text) :
    Html.run (.data none) (item.html ++ rest) = item.tokens ++ Html.run (.data none) rest := by
  cases item with
  | opened level stderr =>
      have hstderr : ∀ c ∈ if stderr then ascii " log_stderr" else [], c ≠ 39 ∧ c ≠ 38 := by
        cases stderr <;> exact forall_mem_of_all (by decide)
      rw [run_opened, run_value_text h (by decide), run_value_word hstderr]
      show Html.run _ (39 :: 62 :: rest) = _
      rw [run_value_quote, List.append_assoc]
      rfl
  | char c => exact run_char h
  | carriageReturn => rfl
  | lineEnd spans =>
      show Html.run _ ((List.replicate spans (ascii "</span>")).flatten ++ [10] ++ rest) = _
      rw [List.append_assoc, run_spans]
      show _ = List.replicate spans _ ++ [Token.char 10] ++ _
      rw [List.append_assoc]
      rfl
  | link url =>
      have hurl : ∀ c ∈ url, c ≠ 39 ∧ (known c = true ∨ c = 39) :=
        fun c hc => ⟨(h c hc).1, .inl (h c hc).2⟩
      have hzero : ∀ c ∈ url, c ≠ 0 := by
        rintro c hc rfl
        exact absurd (h 0 hc).2 (by decide)
      have hopen : Html.run (.value ⟨false, ascii "a", [(ascii "class", ascii "log")]⟩ (ascii "href")
          (some 39) ([] ++ url) none) (ascii "' target='_blank'>"
            ++ (appendHtmlEncoded url 0 ++ (ascii "</a>" ++ rest)))
          = .tag ⟨false, ascii "a", [(ascii "class", ascii "log"), (ascii "href", url),
              (ascii "target", ascii "_blank")]⟩
            :: Html.run (.data none) (appendHtmlEncoded url 0 ++ (ascii "</a>" ++ rest)) := rfl
      rw [run_link, run_value_text hurl (by decide), hopen, run_text hzero]
      show _ :: (_ ++ .tag ⟨true, ascii "a", []⟩ :: Html.run (.data none) rest) = _
      rw [Item.tokens, element, List.append_assoc]
      rfl

theorem prefix_attributes {state : State} {attributes : List (Text × Text)} {tokens : List Token}
    (hhas : state.Has attributes) (hpre : .tag tag :: tokens <+: Html.run state text) :
    attributes <+: tag.attributes := by
  rcases run_has hhas text with hnone | ⟨tag', tokens', hrun, hattributes⟩
  · rw [hnone] at hpre
    exact absurd (List.prefix_nil.mp hpre) (List.cons_ne_nil _ _)
  · rw [hrun] at hpre
    have heq := Token.tag.inj (List.cons_prefix_cons.mp hpre).1
    rw [heq]
    exact hattributes

/-- What goes wrong is not read as it is meant. -/
theorem not_prefix_of_not_clean {item : Item} (h : ¬item.Clean) (rest : Text) :
    ¬item.tokens <+: Html.run (.data none) (item.html ++ rest) := by
  intro hpre
  cases item with
  | opened level stderr =>
      rw [run_opened] at hpre
      obtain ⟨read, left, hread, hrun⟩ := run_value_broken h (by decide)
      rw [hrun] at hpre
      have hhas : (State.afterValue (Tag.add ⟨false, ascii "span", []⟩ (ascii "class")
          (ascii "log_" ++ read))).Has [(ascii "class", ascii "log_" ++ read)] := List.prefix_refl _
      have hattributes := prefix_attributes hhas hpre
      have heq := (Prod.mk.inj (List.cons_prefix_cons.mp hattributes).1).2
      rw [List.append_assoc] at heq
      exact hread _ (List.append_cancel_left heq)
  | char c =>
      have hzero : c = 0 := not_not.mp h
      subst hzero
      exact absurd (List.cons_prefix_cons.mp hpre).1 nofun
  | carriageReturn => exact h trivial
  | lineEnd spans => exact h trivial
  | link url =>
      have hurl : ¬∀ c ∈ url, c ≠ 39 ∧ (known c = true ∨ c = 39) :=
        fun hall => h fun c hc => ⟨(hall c hc).1, (hall c hc).2.resolve_right (hall c hc).1⟩
      rw [run_link] at hpre
      obtain ⟨read, left, hread, hrun⟩ := run_value_broken hurl (by decide)
      rw [hrun] at hpre
      have hhas : (State.afterValue (Tag.add ⟨false, ascii "a", [(ascii "class", ascii "log")]⟩
          (ascii "href") read)).Has [(ascii "class", ascii "log"), (ascii "href", read)] :=
        List.prefix_refl _
      have hattributes := prefix_attributes hhas hpre
      have heq := (Prod.mk.inj (List.cons_prefix_cons.mp (List.cons_prefix_cons.mp hattributes).2).1).2
      exact hread [] (heq.trans (List.append_nil url).symm)

/-! ## The body -/

/-- All items are read as they are meant, if and only if all are clean. -/
theorem run_items (items : List Item) :
    tokenize (items.flatMap Item.html) = items.flatMap Item.tokens ↔ ∀ item ∈ items, item.Clean := by
  induction items with
  | nil => exact ⟨fun _ => nofun, fun _ => rfl⟩
  | cons item items ih =>
      rw [List.flatMap_cons, List.flatMap_cons, List.forall_mem_cons, tokenize]
      by_cases hclean : item.Clean
      · rw [run_clean hclean, List.append_cancel_left_eq, and_iff_right hclean]
        exact ih
      · constructor
        · intro heq
          exact absurd ⟨_, heq.symm⟩ (not_prefix_of_not_clean hclean _)
        · exact fun hall => absurd hall.1 hclean

/-- A browser sees what the reader means to write, if and only if there is no 0 in the
    text, and no quote and no character that is not allowed in a level or an address. -/
theorem safe_iff_clean (lines : List Text) : Safe lines ↔ Clean lines := by
  constructor
  · exact fun hsafe => (run_items _).mp hsafe.1
  · intro hclean
    have hread : tokenize (body lines) = written lines := (run_items _).mpr hclean
    refine ⟨hread, ?_⟩
    rw [hread, plain_written]

/-- An address with a quote becomes an attribute of its own. -/
theorem not_safe_quote : ¬∀ lines : List Text, Safe lines := by
  intro h
  have hsafe := (h [ascii "http://x'onclick='f()\n"]).1
  exact absurd hsafe (by decide)

end HtmlLog
