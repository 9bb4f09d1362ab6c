import Mathlib.Algebra.Ring.Int.Defs
import Mathlib.Data.List.Sort

/-! # Sets of ranges

    `RangeSet`: the order numbers of a job chain are given as a list of ranges,
    written as `1..3 5`.  Overlapping ranges are refused. -/

namespace JobchainRange

/-! ## The ranges -/

/-- The exceptions: `IllegalArgumentException`, `DuplicateKeyException`,
    `NumberFormatException`. -/
inductive RangeError where
  | reverse (from_ to_ : Int32)
  | overlapping (from₁ to₁ from₂ to₂ : Int32)
  | numberFormat (string : List Char)
deriving DecidableEq, Repr

structure InclusiveRange where
  from_ : Int32
  to_ : Int32
  le : from_ ≤ to_
deriving DecidableEq, Repr

namespace InclusiveRange

def contains (r : InclusiveRange) (i : Int32) : Bool := r.from_ ≤ i && i ≤ r.to_

/-- The constructor. -/
def make (from_ to_ : Int32) : Except RangeError InclusiveRange :=
  if h : from_ ≤ to_ then .ok ⟨from_, to_, h⟩ else .error (.reverse from_ to_)

/-- The range ends before the other one begins. -/
def Before (a b : InclusiveRange) : Prop := a.to_ < b.from_

/-- The ranges have no number in common. -/
def Apart (a b : InclusiveRange) : Prop := ∀ i, ¬(a.contains i = true ∧ b.contains i = true)

end InclusiveRange

/-! ## `RangeSet` -/

/-- The loop over `sliding 2`; a single range is no pair. -/
def checkSorted : List InclusiveRange → Except RangeError Unit
  | a :: b :: rest =>
      if b.from_ ≤ a.to_ then .error (.overlapping a.from_ a.to_ b.from_ b.to_)
      else checkSorted (b :: rest)
  | _ => .ok ()

def sortByFrom (l : List InclusiveRange) : List InclusiveRange :=
  l.mergeSort fun a b => a.from_ ≤ b.from_

structure RangeSet where
  inclusiveRanges : List InclusiveRange
  checked : checkSorted (sortByFrom inclusiveRanges) = .ok ()

namespace RangeSet

/-- The constructor. -/
def ofRanges (l : List InclusiveRange) : Except RangeError RangeSet :=
  match h : checkSorted (sortByFrom l) with
  | .ok () => .ok ⟨l, h⟩
  | .error e => .error e

def contains (s : RangeSet) (i : Int32) : Bool := s.inclusiveRanges.any fun r => r.contains i

/-- The ranges are constructed before the set is. -/
def ofPairs (l : List (Int32 × Int32)) : Except RangeError RangeSet := do
  let ranges ← l.mapM fun p => InclusiveRange.make p.1 p.2
  ofRanges ranges

end RangeSet

/-! ## Strings -/

/-- `Int.toString`. -/
def decimal (i : Int32) : List Char :=
  if i.toInt < 0 then '-' :: Nat.toDigits 10 i.toInt.natAbs else Nat.toDigits 10 i.toInt.natAbs

def InclusiveRange.toString (r : InclusiveRange) : List Char :=
  if r.from_ = r.to_ then decimal r.from_ else decimal r.from_ ++ '.' :: '.' :: decimal r.to_

/-- `mkString " "`. -/
def mkString : List (List Char) → List Char
  | [] => []
  | [s] => s
  | s :: rest => s ++ ' ' :: mkString rest

def RangeSet.toString (s : RangeSet) : List Char :=
  mkString (s.inclusiveRanges.map InclusiveRange.toString)

/-- `String.trim` takes the control characters as blanks, too. -/
def trim (s : List Char) : List Char :=
  ((s.dropWhile fun c => c.toNat ≤ 32).reverse.dropWhile fun c => c.toNat ≤ 32).reverse

/-- What stands between the runs of blanks; `inRun` after a blank. -/
def pieces : List Char → Bool → List Char → List (List Char)
  | word, _, [] => [word]
  | word, inRun, c :: rest =>
      if c = ' ' then
        if inRun then pieces word true rest else word :: pieces [] true rest
      else pieces (word ++ [c]) false rest

/-- `split " +"`: the empty strings at the end are dropped, unless nothing was split. -/
def split (s : List Char) : List (List Char) :=
  if ' ' ∈ s then ((pieces [] false s).reverse.dropWhile List.isEmpty).reverse else [s]

/-- `indexOf ".."`, with what stands before and after it. -/
def cutSeparator : List Char → Option (List Char × List Char)
  | '.' :: '.' :: rest => some ([], rest)
  | c :: rest => (cutSeparator rest).map fun p => (c :: p.1, p.2)
  | [] => none

section Parser

-- `Character.digit`, with the digits of all scripts
variable (digit : Char → Option Nat)

def digitsValue : Nat → List Char → Option Nat
  | value, [] => some value
  | value, c :: rest => (digit c).bind fun d => digitsValue (10 * value + d) rest

/-- A sign is followed by a digit. -/
def signedValue : List Char → Option Int
  | '-' :: c :: rest => (digitsValue digit 0 (c :: rest)).map fun n : Nat => -(n : Int)
  | '+' :: c :: rest => (digitsValue digit 0 (c :: rest)).map fun n : Nat => (n : Int)
  | c :: rest => (digitsValue digit 0 (c :: rest)).map fun n : Nat => (n : Int)
  | [] => none

/-- `Integer.parseInt`. -/
def toInt (s : List Char) : Except RangeError Int32 :=
  match signedValue digit s with
  | some i => if -2 ^ 31 ≤ i ∧ i < 2 ^ 31 then .ok (Int32.ofInt i) else .error (.numberFormat s)
  | none => .error (.numberFormat s)

def InclusiveRange.parse (o : List Char) : Except RangeError InclusiveRange :=
  match cutSeparator o with
  | none => do
      let i ← toInt digit o
      InclusiveRange.make i i
  | some (a, b) => do
      let from_ ← toInt digit a
      let to_ ← toInt digit b
      InclusiveRange.make from_ to_

def RangeSet.parse (string : List Char) : Except RangeError RangeSet := do
  let ranges ← (split (trim string)).mapM (InclusiveRange.parse digit)
  RangeSet.ofRanges ranges

end Parser

/-! ## Acceptance -/

variable {a b r : InclusiveRange} {l : List InclusiveRange} {s : RangeSet} {i : Int32}

namespace InclusiveRange

theorem contains_iff : r.contains i = true ↔ r.from_ ≤ i ∧ i ≤ r.to_ := by
  rw [contains, Bool.and_eq_true, decide_eq_true_eq, decide_eq_true_eq]

theorem make_of_le {from_ to_ : Int32} (h : from_ ≤ to_) : make from_ to_ = .ok ⟨from_, to_, h⟩ :=
  dif_pos h

theorem Before.trans {c : InclusiveRange} (h : Before a b) (h' : Before b c) : Before a c := by
  have hb := b.le
  rw [Before, Int32.lt_iff_toInt_lt] at *
  rw [Int32.le_iff_toInt_le] at hb
  omega

theorem Before.apart (h : Before a b) : Apart a b := by
  rintro i ⟨ha, hb⟩
  rw [contains_iff] at ha hb
  rw [Before, Int32.lt_iff_toInt_lt] at h
  have h1 := Int32.le_iff_toInt_le.mp ha.2
  have h2 := Int32.le_iff_toInt_le.mp hb.1
  omega

theorem Apart.symm (h : Apart a b) : Apart b a := fun i hi => h i hi.symm

/-- Of two ranges without a common number, the one that begins first ends first. -/
theorem Apart.before (h : Apart a b) (hle : a.from_ ≤ b.from_) : Before a b := by
  rw [Before, ← Int32.not_le]
  intro hto
  exact h b.from_ ⟨contains_iff.mpr ⟨hle, hto⟩, contains_iff.mpr ⟨Int32.le_refl _, b.le⟩⟩

end InclusiveRange

open InclusiveRange

/-- The neighbours tell about all pairs, since each range ends after its begin. -/
theorem checkSorted_iff : checkSorted l = .ok () ↔ l.Pairwise Before := by
  induction l with
  | nil => exact iff_of_true rfl List.Pairwise.nil
  | cons a l ih =>
      cases l with
      | nil => exact iff_of_true rfl (List.pairwise_singleton _ _)
      | cons b l =>
          rw [checkSorted]
          by_cases hle : b.from_ ≤ a.to_
          · rw [if_pos hle]
            refine iff_of_false (fun h => by cases h) fun h => ?_
            have hab : Before a b := (List.pairwise_cons.mp h).1 b List.mem_cons_self
            exact Int32.not_le.mpr hab hle
          · rw [if_neg hle, ih]
            have hab : Before a b := Int32.not_le.mp hle
            constructor
            · intro h
              refine List.pairwise_cons.mpr ⟨?_, h⟩
              intro c hc
              rcases List.mem_cons.mp hc with rfl | hc
              · exact hab
              · exact hab.trans ((List.pairwise_cons.mp h).1 c hc)
            · exact fun h => (List.pairwise_cons.mp h).2

theorem byFrom_trans (a b c : InclusiveRange) (hab : decide (a.from_ ≤ b.from_) = true)
    (hbc : decide (b.from_ ≤ c.from_) = true) : decide (a.from_ ≤ c.from_) = true :=
  decide_eq_true (Int32.le_trans (of_decide_eq_true hab) (of_decide_eq_true hbc))

theorem byFrom_total (a b : InclusiveRange) :
    (decide (a.from_ ≤ b.from_) || decide (b.from_ ≤ a.from_)) = true := by
  rw [Bool.or_eq_true, decide_eq_true_eq, decide_eq_true_eq]
  exact Int32.le_total _ _

theorem sorted_sortByFrom (l : List InclusiveRange) :
    (sortByFrom l).Pairwise fun a b => a.from_ ≤ b.from_ :=
  (List.pairwise_mergeSort byFrom_trans byFrom_total l).imp fun h => of_decide_eq_true h

/-- The check accepts ranges that have no number in common, in any order. -/
theorem check_iff_apart : checkSorted (sortByFrom l) = .ok () ↔ l.Pairwise Apart := by
  have hperm : (sortByFrom l).Perm l := List.mergeSort_perm l _
  rw [checkSorted_iff, ← hperm.pairwise_iff fun h => Apart.symm h]
  constructor
  · exact fun h => h.imp fun hab => hab.apart
  · intro h
    exact ((sorted_sortByFrom l).and h).imp fun hab => hab.2.before hab.1

theorem ofRanges_ok (l : List InclusiveRange) (h : checkSorted (sortByFrom l) = .ok ()) :
    RangeSet.ofRanges l = .ok ⟨l, h⟩ := by
  rw [RangeSet.ofRanges]
  split
  · rfl
  · rename_i e he
    rw [h] at he
    cases he

/-! ## Numbers as strings -/

section RoundTrip

variable {digit : Char → Option Nat}

theorem digitsValue_append (value : Nat) (s t : List Char) :
    digitsValue digit value (s ++ t)
      = (digitsValue digit value s).bind fun v => digitsValue digit v t := by
  induction s generalizing value with
  | nil => rfl
  | cons c s ih =>
      rw [List.cons_append, digitsValue, digitsValue]
      cases digit c with
      | none => rfl
      | some d => exact ih _

theorem digitsValue_toDigits (hdigit : ∀ d < 10, digit d.digitChar = some d) (n : Nat) :
    digitsValue digit 0 (Nat.toDigits 10 n) = some n := by
  induction n using Nat.strongRecOn with
  | ind n ih =>
      by_cases hlt : n < 10
      · rw [Nat.toDigits_of_lt_base hlt, digitsValue, hdigit n hlt]
        show some (10 * 0 + n) = some n
        rw [Nat.mul_zero, Nat.zero_add]
      · have hmod : n % 10 < 10 := Nat.mod_lt n (by decide)
        rw [Nat.toDigits_of_base_le (by decide) (Nat.le_of_not_lt hlt), digitsValue_append,
          ih (n / 10) (by omega)]
        show digitsValue digit (n / 10) [(n % 10).digitChar] = some n
        rw [digitsValue, hdigit _ hmod]
        show some (10 * (n / 10) + n % 10) = some n
        rw [Nat.div_add_mod]

/-- The characters of a number. -/
theorem mem_decimal {c : Char} (h : c ∈ decimal i) : c.isDigit = true ∨ c = '-' := by
  rw [decimal] at h
  split at h
  · rcases List.mem_cons.mp h with rfl | h
    · exact Or.inr rfl
    · exact Or.inl (Nat.isDigit_of_mem_toDigits (by decide) (by decide) h)
  · exact Or.inl (Nat.isDigit_of_mem_toDigits (by decide) (by decide) h)

theorem decimal_ne_nil : decimal i ≠ [] := by
  rw [decimal]
  split
  · exact List.cons_ne_nil _ _
  · exact Nat.toDigits_ne_nil

theorem toInt_decimal (hdigit : ∀ d < 10, digit d.digitChar = some d) (i : Int32) :
    toInt digit (decimal i) = .ok i := by
  have b1 := i.le_toInt
  have b2 := i.toInt_lt
  have hval := digitsValue_toDigits hdigit i.toInt.natAbs
  obtain ⟨c, rest, hc⟩ := List.exists_cons_of_ne_nil
    (Nat.toDigits_ne_nil (n := i.toInt.natAbs) (b := 10))
  have hd : c.isDigit = true := by
    refine Nat.isDigit_of_mem_toDigits (b := 10) (n := i.toInt.natAbs) (by decide) (by decide) ?_
    rw [hc]
    exact List.mem_cons_self
  have hsigned : signedValue digit (decimal i) = some i.toInt := by
    rw [hc] at hval
    rw [decimal, hc]
    by_cases hneg : i.toInt < 0
    · rw [if_pos hneg, signedValue, hval, Option.map_some]
      congr 1
      omega
    · rw [if_neg hneg, signedValue, hval, Option.map_some]
      · congr 1
        omega
      · rintro c' rest' rfl -
        exact absurd hd (by decide)
      · rintro c' rest' rfl -
        exact absurd hd (by decide)
  rw [toInt, hsigned]
  show (if -2 ^ 31 ≤ i.toInt ∧ i.toInt < 2 ^ 31 then _ else _) = _
  rw [if_pos ⟨b1, b2⟩, Int32.ofInt_toInt]

/-! ## Ranges as strings -/

theorem cutSeparator_append {s t : List Char} (hs : '.' ∉ s) :
    cutSeparator (s ++ '.' :: '.' :: t) = some (s, t) := by
  induction s with
  | nil => rw [List.nil_append, cutSeparator]
  | cons c s ih =>
      rw [List.mem_cons, not_or] at hs
      rw [List.cons_append, cutSeparator, ih hs.2]
      · rfl
      · rintro rest rfl -
        exact hs.1 rfl

theorem cutSeparator_eq_none {s : List Char} (hs : '.' ∉ s) : cutSeparator s = none := by
  induction s with
  | nil => rw [cutSeparator]
  | cons c s ih =>
      rw [List.mem_cons, not_or] at hs
      rw [cutSeparator, ih hs.2]
      · rfl
      · rintro rest rfl -
        exact hs.1 rfl

theorem dot_notMem_decimal (i : Int32) : '.' ∉ decimal i := by
  intro h
  rcases mem_decimal h with hd | hd
  · exact absurd hd (by decide)
  · exact absurd hd (by decide)

theorem parse_toString (hdigit : ∀ d < 10, digit d.digitChar = some d) (r : InclusiveRange) :
    InclusiveRange.parse digit r.toString = .ok r := by
  rw [InclusiveRange.toString]
  by_cases heq : r.from_ = r.to_
  · rw [if_pos heq, InclusiveRange.parse, cutSeparator_eq_none (dot_notMem_decimal _)]
    show (toInt digit (decimal r.from_) >>= fun i => make i i) = _
    rw [toInt_decimal hdigit]
    show make r.from_ r.from_ = _
    rw [make_of_le (Int32.le_refl _)]
    obtain ⟨from_, to_, h⟩ := r
    obtain rfl : from_ = to_ := heq
    rfl
  · rw [if_neg heq, InclusiveRange.parse, cutSeparator_append (dot_notMem_decimal _)]
    show (toInt digit (decimal r.from_) >>= fun i => toInt digit (decimal r.to_) >>= fun j =>
      make i j) = _
    rw [toInt_decimal hdigit, toInt_decimal hdigit]
    exact make_of_le r.le

/-- The characters of a range are no blanks. -/
theorem visible_of_mem {c : Char} (h : c ∈ r.toString) : 32 < c.toNat := by
  have hdecimal : ∀ {j : Int32}, c ∈ decimal j → 32 < c.toNat := by
    intro j hj
    rcases mem_decimal hj with hd | rfl
    · rw [Char.isDigit, Bool.and_eq_true, decide_eq_true_eq] at hd
      have h48 : 48 ≤ c.toNat := hd.1
      omega
    · decide
  rw [InclusiveRange.toString] at h
  split at h
  · exact hdecimal h
  · rcases List.mem_append.mp h with h | h
    · exact hdecimal h
    · rcases List.mem_cons.mp h with rfl | h
      · decide
      · rcases List.mem_cons.mp h with rfl | h
        · decide
        · exact hdecimal h

theorem toString_ne_nil (r : InclusiveRange) : r.toString ≠ [] := by
  rw [InclusiveRange.toString]
  split
  · exact decimal_ne_nil
  · exact List.append_ne_nil_of_left_ne_nil decimal_ne_nil _

/-! ## Words -/

/-- Words that are written with blanks between them. -/
def Words (l : List (List Char)) : Prop := ∀ s ∈ l, s ≠ [] ∧ ∀ c ∈ s, 32 < c.toNat

theorem mkString_cons_cons (s t : List Char) (l : List (List Char)) :
    mkString (s :: t :: l) = s ++ ' ' :: mkString (t :: l) := rfl

theorem pieces_append {s t word : List Char} {inRun : Bool} (hs : s ≠ [])
    (hv : ∀ c ∈ s, 32 < c.toNat) : pieces word inRun (s ++ t) = pieces (word ++ s) false t := by
  induction s generalizing word inRun with
  | nil => exact absurd rfl hs
  | cons c s ih =>
      have hc : ¬c = ' ' := by
        rintro rfl
        exact absurd (hv ' ' List.mem_cons_self) (by decide)
      rw [List.cons_append, pieces, if_neg hc]
      cases s with
      | nil => rw [List.nil_append]
      | cons d s =>
          rw [ih (List.cons_ne_nil _ _) fun c hc => hv c (List.mem_cons_of_mem _ hc),
            List.append_assoc]
          rfl

theorem pieces_mkString {l : List (List Char)} {inRun : Bool} (hl : l ≠ []) (hw : Words l) :
    pieces [] inRun (mkString l) = l := by
  induction l generalizing inRun with
  | nil => exact absurd rfl hl
  | cons s l ih =>
      obtain ⟨hs, hv⟩ := hw s List.mem_cons_self
      cases l with
      | nil =>
          have h : pieces [] inRun (s ++ []) = pieces ([] ++ s) false [] := pieces_append hs hv
          rw [List.append_nil, List.nil_append] at h
          exact h
      | cons t l =>
          rw [mkString_cons_cons, pieces_append hs hv, List.nil_append, pieces, if_pos rfl, if_neg Bool.false_ne_true,
            ih (List.cons_ne_nil _ _) fun u hu => hw u (List.mem_cons_of_mem _ hu)]

/-- Written words begin and end with visible characters. -/
theorem mkString_ends {l : List (List Char)} (hw : Words l) :
    (∀ c ∈ (mkString l).head?, 32 < c.toNat) ∧ ∀ c ∈ (mkString l).getLast?, 32 < c.toNat := by
  induction l with
  | nil =>
      constructor
      · intro c hc
        cases hc
      · intro c hc
        cases hc
  | cons s l ih =>
      obtain ⟨hs, hv⟩ := hw s List.mem_cons_self
      cases l with
      | nil =>
          exact ⟨fun c hc => hv c (List.mem_of_mem_head? hc),
            fun c hc => hv c (List.mem_of_mem_getLast? hc)⟩
      | cons t l =>
          obtain ⟨-, hlast⟩ := ih fun u hu => hw u (List.mem_cons_of_mem _ hu)
          have hne : mkString (t :: l) ≠ [] := by
            have ht := (hw t (List.mem_cons_of_mem _ List.mem_cons_self)).1
            cases l with
            | nil => exact ht
            | cons u l => exact List.append_ne_nil_of_left_ne_nil ht _
          constructor
          · intro c hc
            rw [mkString_cons_cons, List.head?_append_of_ne_nil _ hs] at hc
            exact hv c (List.mem_of_mem_head? hc)
          · intro c hc
            rw [mkString_cons_cons, List.getLast?_append_of_ne_nil _ (List.cons_ne_nil _ _),
              List.getLast?_cons_of_ne_nil hne] at hc
            exact hlast c hc

theorem trim_mkString {l : List (List Char)} (hw : Words l) : trim (mkString l) = mkString l := by
  have hdrop : ∀ s : List Char, (∀ c ∈ s.head?, 32 < c.toNat) →
      (s.dropWhile fun c => decide (c.toNat ≤ 32)) = s := by
    intro s hs
    cases s with
    | nil => rfl
    | cons c s =>
        have := hs c rfl
        exact List.dropWhile_cons_of_neg (by rw [decide_eq_true_eq]; omega)
  obtain ⟨hhead, hlast⟩ := mkString_ends hw
  rw [trim, hdrop _ hhead, hdrop _ (by rw [List.head?_reverse]; exact hlast), List.reverse_reverse]

theorem split_mkString {l : List (List Char)} (hl : l ≠ []) (hw : Words l) :
    split (mkString l) = l := by
  have hpieces : pieces [] false (mkString l) = l := pieces_mkString hl hw
  rw [split]
  by_cases hmem : ' ' ∈ mkString l
  · rw [if_pos hmem, hpieces]
    have hrev : l.reverse.dropWhile List.isEmpty = l.reverse := by
      cases hr : l.reverse with
      | nil => rfl
      | cons s r =>
          refine List.dropWhile_cons_of_neg ?_
          have hs := (hw s (List.mem_reverse.mp (by rw [hr]; exact List.mem_cons_self))).1
          rw [List.isEmpty_iff]
          exact hs
    rw [hrev, List.reverse_reverse]
  · rw [if_neg hmem]
    cases l with
    | nil => exact absurd rfl hl
    | cons s l =>
        cases l with
        | nil => rfl
        | cons t l =>
            refine absurd ?_ hmem
            rw [mkString_cons_cons]
            simp

/-! ## The round trip -/

theorem mapM_parse (hdigit : ∀ d < 10, digit d.digitChar = some d) (l : List InclusiveRange) :
    (l.map InclusiveRange.toString).mapM (InclusiveRange.parse digit) = .ok l := by
  induction l with
  | nil => rfl
  | cons r l ih =>
      rw [List.map_cons, List.mapM_cons, parse_toString hdigit, ih]
      rfl

/-- The string of a set that is not empty is read as that set. -/
theorem parse_rangeSet (hdigit : ∀ d < 10, digit d.digitChar = some d)
    (hne : s.inclusiveRanges ≠ []) : RangeSet.parse digit s.toString = .ok s := by
  have hwords : Words (s.inclusiveRanges.map InclusiveRange.toString) := by
    intro t ht
    obtain ⟨r, -, rfl⟩ := List.mem_map.mp ht
    exact ⟨toString_ne_nil r, fun c hc => visible_of_mem hc⟩
  have hne' : s.inclusiveRanges.map InclusiveRange.toString ≠ [] := by
    rwa [ne_eq, List.map_eq_nil_iff]
  rw [RangeSet.parse, RangeSet.toString, trim_mkString hwords, split_mkString hne' hwords,
    mapM_parse hdigit]
  exact ofRanges_ok _ s.checked

/-- Nothing is no string form: the string of the empty set is refused. -/
theorem parse_empty : RangeSet.parse digit [] = .error (.numberFormat []) := rfl

theorem ofRanges_eq_ok {l : List InclusiveRange} (h : RangeSet.ofRanges l = .ok s) :
    s.inclusiveRanges = l := by
  rw [RangeSet.ofRanges] at h
  split at h
  · cases h
    rfl
  · cases h

/-! ## The laws -/

/-- The number lies in the range. -/
def Between (p : Int32 × Int32) (i : Int32) : Prop := p.1 ≤ i ∧ i ≤ p.2

/-- All ranges can be constructed, if each has its ends in order. -/
theorem mapM_make_iff {l : List (Int32 × Int32)} {rs : List InclusiveRange} :
    (l.mapM fun p => InclusiveRange.make p.1 p.2) = .ok rs ↔
      l = rs.map fun r => (r.from_, r.to_) := by
  induction l generalizing rs with
  | nil =>
      cases rs with
      | nil => exact iff_of_true rfl rfl
      | cons r rs => exact iff_of_false (fun h => by cases h) fun h => by cases h
  | cons p l ih =>
      obtain ⟨from_, to_⟩ := p
      rw [List.mapM_cons]
      by_cases hle : from_ ≤ to_
      · rw [make_of_le hle]
        show ((l.mapM fun p => InclusiveRange.make p.1 p.2) >>= fun rs' => _) = _ ↔ _
        cases hl : (l.mapM fun p => InclusiveRange.make p.1 p.2) with
        | error e =>
            refine iff_of_false (fun h => by cases h) fun h => ?_
            cases rs with
            | nil => cases h
            | cons r rs =>
                have := ih.mpr (List.cons.inj h).2
                rw [hl] at this
                cases this
        | ok rs' =>
            have hl' := ih.mp hl
            constructor
            · intro h
              cases h
              rw [hl']
              rfl
            · intro h
              cases rs with
              | nil => cases h
              | cons r rs =>
                  obtain ⟨h1, h2⟩ := List.cons.inj h
                  have := ih.mpr h2
                  rw [hl] at this
                  cases this
                  obtain ⟨f, t, hr⟩ := r
                  cases h1
                  rfl
      · refine iff_of_false (fun h => ?_) fun h => ?_
        · rw [InclusiveRange.make, dif_neg hle] at h
          cases h
        · cases rs with
          | nil => cases h
          | cons r rs =>
              obtain ⟨h1, -⟩ := List.cons.inj h
              cases h1
              exact hle r.le

/-- A list is accepted if and only if its ranges have their ends in order and no
    number in common. -/
theorem ofPairs_iff {l : List (Int32 × Int32)} :
    (∃ s, RangeSet.ofPairs l = .ok s) ↔
      (∀ p ∈ l, p.1 ≤ p.2) ∧ l.Pairwise fun p q => ∀ i, ¬(Between p i ∧ Between q i) := by
  have hmap : ∀ rs : List InclusiveRange,
      (rs.map fun r => (r.from_, r.to_)).Pairwise (fun p q => ∀ i, ¬(Between p i ∧ Between q i)) ↔
        rs.Pairwise Apart := by
    intro rs
    have hiff : ∀ a b : InclusiveRange, Apart a b ↔
        ∀ i, ¬(Between (a.from_, a.to_) i ∧ Between (b.from_, b.to_) i) := by
      intro a b
      refine forall_congr' fun i => ?_
      rw [contains_iff, contains_iff]
      rfl
    rw [List.pairwise_map]
    constructor
    · exact fun h => h.imp fun hab => (hiff _ _).mpr hab
    · exact fun h => h.imp fun hab => (hiff _ _).mp hab
  constructor
  · rintro ⟨s, hs⟩
    rw [RangeSet.ofPairs] at hs
    cases hl : (l.mapM fun p => InclusiveRange.make p.1 p.2) with
    | error e =>
        rw [hl] at hs
        cases hs
    | ok rs =>
        rw [hl] at hs
        obtain rfl := ofRanges_eq_ok hs
        obtain rfl := mapM_make_iff.mp hl
        refine ⟨?_, (hmap _).mpr (check_iff_apart.mp s.checked)⟩
        intro p hp
        obtain ⟨r, -, rfl⟩ := List.mem_map.mp hp
        exact r.le
  · rintro ⟨hle, hapart⟩
    obtain ⟨rs, rfl⟩ : ∃ rs : List InclusiveRange, l = rs.map fun r => (r.from_, r.to_) :=
      ⟨l.attach.map fun p => ⟨p.1.1, p.1.2, hle p.1 p.2⟩, by
        rw [List.map_map]
        exact l.attach_map_subtype_val.symm⟩
    have hcheck := check_iff_apart.mpr ((hmap _).mp hapart)
    refine ⟨⟨rs, hcheck⟩, ?_⟩
    rw [RangeSet.ofPairs, mapM_make_iff.mpr rfl]
    exact ofRanges_ok _ hcheck

theorem contains_rangeSet_iff :
    s.contains i = true ↔ ∃ r ∈ s.inclusiveRanges, Between (r.from_, r.to_) i := by
  rw [RangeSet.contains, List.any_eq_true]
  refine exists_congr fun r => and_congr_right fun _ => ?_
  exact contains_iff

/-- Acceptance, membership and the string form. -/
theorem rangeSet_laws (hdigit : ∀ d < 10, digit d.digitChar = some d) :
    (∀ l : List (Int32 × Int32), (∃ s, RangeSet.ofPairs l = .ok s) ↔
      (∀ p ∈ l, p.1 ≤ p.2) ∧ l.Pairwise fun p q => ∀ i, ¬(Between p i ∧ Between q i)) ∧
    (∀ (s : RangeSet) i, s.contains i = true ↔
      ∃ r ∈ s.inclusiveRanges, Between (r.from_, r.to_) i) ∧
    (∀ s : RangeSet, RangeSet.parse digit s.toString = .ok s ↔ s.inclusiveRanges ≠ []) := by
  refine ⟨fun l => ofPairs_iff, fun s i => contains_rangeSet_iff, fun s => ?_⟩
  constructor
  · intro h hnil
    have hstring : s.toString = [] := by
      rw [RangeSet.toString, hnil]
      rfl
    rw [hstring, parse_empty] at h
    cases h
  · exact fun hne => parse_rangeSet hdigit hne

end RoundTrip

/-! ## The empty set -/

/-- `Character.digit` of the Latin digits. -/
def latinDigit (c : Char) : Option Nat := if c.isDigit then some (c.toNat - 48) else none

theorem rangeSet_laws_latin :
    (∀ l : List (Int32 × Int32), (∃ s, RangeSet.ofPairs l = .ok s) ↔
      (∀ p ∈ l, p.1 ≤ p.2) ∧ l.Pairwise fun p q => ∀ i, ¬(Between p i ∧ Between q i)) ∧
    (∀ (s : RangeSet) i, s.contains i = true ↔
      ∃ r ∈ s.inclusiveRanges, Between (r.from_, r.to_) i) ∧
    (∀ s : RangeSet, RangeSet.parse latinDigit s.toString = .ok s ↔ s.inclusiveRanges ≠ []) :=
  rangeSet_laws (by decide)

/-- The empty list is accepted, and its string is refused. -/
theorem empty_not_parsed :
    ∃ s, RangeSet.ofPairs [] = .ok s ∧ s.toString = [] ∧
      RangeSet.parse latinDigit s.toString = .error (.numberFormat []) :=
  ⟨⟨[], check_iff_apart.mpr List.Pairwise.nil⟩, ofRanges_ok [] _, rfl, rfl⟩

end JobchainRange
