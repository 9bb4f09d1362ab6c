import Mathlib.Algebra.GroupWithZero.Nat
import Mathlib.Data.List.Sort
import SchedulerEngine.OrderedMapProofs

/-! # The queue of timers

    `TreeMapOrderedQueue` keeps a buffer of entries for each key.  What it answers
    is what one list answers that is sorted by the keys, and by the order of the
    insertions among equal keys. -/

namespace TimerQueue

open OrderedMap

variable {K V : Type} {toKey : V → K} {key : K} {value : V}

/-! ## The queue -/

inductive Failure where
  | noSuchElement
  | nullPointer
  | indexOutOfBounds
  | assertion (message : String)
deriving DecidableEq, Repr

/-- `treeMap`: the keys in their order, each with its `ListBuffer`. -/
abbrev TreeMap (K V : Type) := List (K × List V)

namespace TreeMap

def isEmpty (m : TreeMap K V) : Bool := List.isEmpty m

def size (m : TreeMap K V) : Nat := (m.map fun e => e.2.length).sum

def toSeq (m : TreeMap K V) : List V := m.flatMap Prod.snd

/-- `ListBuffer.head`. -/
def bufferHead : List V → Except Failure V
  | [] => .error .noSuchElement
  | v :: _ => .ok v

/-- `ListBuffer.last`. -/
def bufferLast (buffer : List V) : Except Failure V :=
  match buffer.getLast? with
  | none => .error .noSuchElement
  | some v => .ok v

def headOption (m : TreeMap K V) : Except Failure (Option V) :=
  match m.head? with
  | none => .ok none
  | some e => (bufferHead e.2).map some

def lastOption (m : TreeMap K V) : Except Failure (Option V) :=
  match m.getLast? with
  | none => .ok none
  | some e => (bufferLast e.2).map some

def head (m : TreeMap K V) : Except Failure V := do
  match ← headOption m with
  | none => .error .noSuchElement
  | some v => .ok v

variable [LinearOrder K] [BEq V]

def add (toKey : V → K) (value : V) (m : TreeMap K V) : Except Failure (TreeMap K V) :=
  match find (toKey value) m with
  | some buffer => .ok (assign (toKey value) (buffer ++ [value]) m)
  | none =>
      -- `put` returns what was there under the key
      if (find (toKey value) m).isSome then .error (.assertion "Concurrent TreeMapOrderedQueue.add")
      else .ok (assign (toKey value) [value] m)

def remove (key : K) (value : V) (m : TreeMap K V) : Except Failure (Bool × TreeMap K V) :=
  match find key m with
  | none => .ok (false, m)
  | some buffer =>
      match buffer.findIdx? fun v => value == v with
      | none => .ok (false, m)
      | some i =>
          let m := assign key (buffer.eraseIdx i) m
          if (buffer.eraseIdx i).isEmpty then
            if ((find key m).getD []).isEmpty then .ok (true, erase key m)
            else .error (.assertion "Concurrent access during TreeMapOrderedQueue.remove")
          else .ok (true, m)

def removeHead (m : TreeMap K V) : Except Failure (V × TreeMap K V) :=
  match m.head? with
  | none => .error .nullPointer
  | some (k, buffer) =>
      match buffer with
      | [] => .error .indexOutOfBounds
      | v :: buffer =>
          let m := assign k buffer m
          .ok (v, if buffer.isEmpty then erase k m else m)

/-- `OrderedQueue.Implement.popNext`: the key of the head, or the head itself. -/
def popNext (toKey : V → K) (untilIncluding : K) (m : TreeMap K V) :
    Except Failure ((K ⊕ V) × TreeMap K V) := do
  let value ← head m
  if untilIncluding < toKey value then return (.inl (toKey value), m)
  let (result, m) ← removeHead m
  if result == value then return (.inr result, m)
  throw (.assertion "ensuring")

end TreeMap

/-! ## The sorted list -/

section Runs

variable [LinearOrder K] [BEq V]

/-- Insertion behind everything whose key is not greater. -/
def insert (toKey : V → K) (value : V) (l : List V) : List V :=
  l.orderedInsert (fun a b => toKey a < toKey b) value

/-- The entry is the one looked for under a key. -/
def isEntry (toKey : V → K) (key : K) (value v : V) : Bool := toKey v = key && value == v

def popNext (toKey : V → K) (untilIncluding : K) : List V → Except Failure ((K ⊕ V) × List V)
  | [] => .error .noSuchElement
  | v :: l => .ok (if untilIncluding < toKey v then (.inl (toKey v), v :: l) else (.inr v, l))

/-! ## Runs -/

inductive Op (K V : Type) where
  | add (value : V)
  | remove (key : K) (value : V)
  | popNext (untilIncluding : K)
  | head
  | headOption
  | lastOption
  | isEmpty
  | size
  | toSeq
  | clear

inductive Answer (K V : Type) where
  | done
  | bool (b : Bool)
  | number (n : Nat)
  | entry (v : V)
  | entryOrNot (v : Option V)
  | keyOrEntry (x : K ⊕ V)
  | entries (l : List V)

/-- An operation on the queue; one that fails leaves it as it is. -/
def perform (toKey : V → K) (m : TreeMap K V) :
    Op K V → Except Failure (Answer K V) × TreeMap K V
  | .add value =>
      match m.add toKey value with
      | .ok m => (.ok .done, m)
      | .error e => (.error e, m)
  | .remove key value =>
      match m.remove key value with
      | .ok (b, m) => (.ok (.bool b), m)
      | .error e => (.error e, m)
  | .popNext untilIncluding =>
      match m.popNext toKey untilIncluding with
      | .ok (x, m) => (.ok (.keyOrEntry x), m)
      | .error e => (.error e, m)
  | .head => (m.head.map .entry, m)
  | .headOption => (m.headOption.map .entryOrNot, m)
  | .lastOption => (m.lastOption.map .entryOrNot, m)
  | .isEmpty => (.ok (.bool m.isEmpty), m)
  | .size => (.ok (.number m.size), m)
  | .toSeq => (.ok (.entries m.toSeq), m)
  | .clear => (.ok .done, [])

/-- The same operation on the sorted list. -/
def performSorted (toKey : V → K) (l : List V) :
    Op K V → Except Failure (Answer K V) × List V
  | .add value => (.ok .done, insert toKey value l)
  | .remove key value =>
      (.ok (.bool (l.any (isEntry toKey key value))), l.eraseP (isEntry toKey key value))
  | .popNext untilIncluding =>
      match popNext toKey untilIncluding l with
      | .ok (x, l) => (.ok (.keyOrEntry x), l)
      | .error e => (.error e, l)
  | .head =>
      (match l.head? with
        | none => .error .noSuchElement
        | some v => .ok (.entry v), l)
  | .headOption => (.ok (.entryOrNot l.head?), l)
  | .lastOption => (.ok (.entryOrNot l.getLast?), l)
  | .isEmpty => (.ok (.bool l.isEmpty), l)
  | .size => (.ok (.number l.length), l)
  | .toSeq => (.ok (.entries l), l)
  | .clear => (.ok .done, [])

/-- What is answered to a sequence of operations, and what is left. -/
def performAll {σ α ω : Type} (perform : σ → ω → α × σ) : σ → List ω → List α × σ
  | s, [] => ([], s)
  | s, o :: os =>
      let (a, s) := perform s o
      let (answers, s) := performAll perform s os
      (a :: answers, s)

end Runs

/-! ## The invariant -/

theorem eraseP_congr {p q : V → Bool} {l : List V} (h : ∀ v ∈ l, p v = q v) :
    l.eraseP p = l.eraseP q := by
  induction l with
  | nil => rfl
  | cons v l ih =>
      rw [List.eraseP_cons, List.eraseP_cons, h v List.mem_cons_self,
        ih fun u hu => h u (List.mem_cons_of_mem v hu)]

/-- One entry is taken out, the first that is looked for, or none is there. -/
def TakesOne (p : V → Bool) (l : List V) (removed : Bool) (l' : List V) : Prop :=
  (removed = true ∧ ∃ before v after, l = before ++ v :: after ∧ p v = true ∧
      (∀ u ∈ before, p u = false) ∧ l' = before ++ after) ∨
    (removed = false ∧ (∀ u ∈ l, p u = false) ∧ l' = l)

theorem takesOne_eraseP (p : V → Bool) (l : List V) : TakesOne p l (l.any p) (l.eraseP p) := by
  cases hany : l.any p with
  | true =>
      obtain ⟨v, hv, hp⟩ := List.any_eq_true.mp hany
      obtain ⟨u, before, after, hbefore, hu, hl, herase⟩ := List.exists_of_eraseP hv hp
      exact Or.inl ⟨rfl, before, u, after, hl, hu,
        fun x hx => Bool.eq_false_iff.mpr (hbefore x hx), herase⟩
  | false =>
      have hnone := List.any_eq_false.mp hany
      exact Or.inr ⟨rfl, fun u hu => Bool.eq_false_iff.mpr (hnone u hu),
        List.eraseP_of_forall_not hnone⟩

theorem toSeq_append (m m' : TreeMap K V) :
    TreeMap.toSeq (m ++ m') = TreeMap.toSeq m ++ TreeMap.toSeq m' := List.flatMap_append

theorem toSeq_cons (e : K × List V) (m : TreeMap K V) :
    TreeMap.toSeq (e :: m) = e.2 ++ TreeMap.toSeq m := List.flatMap_cons

theorem size_eq (m : TreeMap K V) : m.size = (TreeMap.toSeq m).length := by
  rw [TreeMap.size, TreeMap.toSeq, List.length_flatMap]

/-- Where the keys are, there are the entries. -/
theorem key_of_mem_toSeq {m : TreeMap K V} (P : K → Prop)
    (hkey : ∀ e ∈ m, ∀ v ∈ e.2, toKey v = e.1) (hP : ∀ e ∈ m, P e.1) :
    ∀ v ∈ TreeMap.toSeq m, P (toKey v) := by
  intro v hv
  obtain ⟨e, he, hve⟩ := List.mem_flatMap.mp hv
  rw [hkey e he v hve]
  exact hP e he

variable [LinearOrder K]

/-- No buffer is empty, and the entries of a buffer have its key. -/
structure Consistent (toKey : V → K) (m : TreeMap K V) : Prop where
  sorted : Sorted m
  nonEmpty : ∀ e ∈ m, e.2 ≠ []
  key_eq : ∀ e ∈ m, ∀ v ∈ e.2, toKey v = e.1

theorem consistent_nil : Consistent toKey ([] : TreeMap K V) :=
  ⟨List.Pairwise.nil, fun _ he => absurd he List.not_mem_nil, fun _ he => absurd he List.not_mem_nil⟩

theorem Consistent.assign {buffer : List V} {m : TreeMap K V} (h : Consistent toKey m)
    (hne : buffer ≠ []) (hkey : ∀ v ∈ buffer, toKey v = key) :
    Consistent toKey (assign key buffer m) := by
  refine ⟨h.sorted.assign, ?_, ?_⟩
  · intro e he
    rcases (mem_assign h.sorted).mp he with rfl | ⟨he, -⟩
    · exact hne
    · exact h.nonEmpty e he
  · intro e he
    rcases (mem_assign h.sorted).mp he with rfl | ⟨he, -⟩
    · exact hkey
    · exact h.key_eq e he

theorem Consistent.erase {m : TreeMap K V} (key : K) (h : Consistent toKey m) :
    Consistent toKey (erase key m) :=
  ⟨h.sorted.erase, fun e he => h.nonEmpty e (mem_erase.mp he).1,
    fun e he => h.key_eq e (mem_erase.mp he).1⟩

/-- Without empty buffers there is an entry if there is a key. -/
theorem Consistent.isEmpty_eq {m : TreeMap K V} (h : Consistent toKey m) :
    m.isEmpty = (TreeMap.toSeq m).isEmpty := by
  cases m with
  | nil => rfl
  | cons e m =>
      rw [toSeq_cons]
      cases hb : e.2 with
      | nil => exact absurd hb (h.nonEmpty e List.mem_cons_self)
      | cons v buffer => rfl

theorem Consistent.headOption_eq {m : TreeMap K V} (h : Consistent toKey m) :
    m.headOption = .ok (TreeMap.toSeq m).head? := by
  cases m with
  | nil => rfl
  | cons e m =>
      rw [toSeq_cons, TreeMap.headOption, List.head?_cons]
      cases hb : e.2 with
      | nil => exact absurd hb (h.nonEmpty e List.mem_cons_self)
      | cons v buffer =>
          simp only [hb]
          rfl

theorem Consistent.lastOption_eq {m : TreeMap K V} (h : Consistent toKey m) :
    m.lastOption = .ok (TreeMap.toSeq m).getLast? := by
  rcases List.eq_nil_or_concat m with rfl | ⟨m, e, rfl⟩
  · rfl
  · have hne := h.nonEmpty e (by simp)
    have hlast : TreeMap.toSeq [e] = e.2 := List.append_nil _
    obtain ⟨v, hv⟩ := Option.ne_none_iff_exists'.mp fun hn => hne (List.getLast?_eq_none_iff.mp hn)
    rw [List.concat_eq_append, toSeq_append, hlast, TreeMap.lastOption, List.getLast?_concat,
      List.getLast?_append_of_ne_nil _ hne]
    show (TreeMap.bufferLast e.2).map some = _
    simp only [TreeMap.bufferLast, hv]
    rfl

theorem Consistent.head_eq {m : TreeMap K V} (h : Consistent toKey m) :
    m.head = match (TreeMap.toSeq m).head? with
      | none => .error .noSuchElement
      | some v => .ok v := by
  rw [TreeMap.head, h.headOption_eq]
  rfl

/-! ## The operations that change the queue -/

/-- An entry goes behind those whose keys are not greater. -/
theorem insert_append {l l' : List V} (hl : ∀ v ∈ l, ¬toKey value < toKey v) :
    insert toKey value (l ++ l') = l ++ insert toKey value l' := by
  induction l with
  | nil => rfl
  | cons v l ih =>
      have hrest := ih fun u hu => hl u (List.mem_cons_of_mem v hu)
      show List.orderedInsert (fun a b => toKey a < toKey b) value (v :: (l ++ l')) = _
      rw [List.orderedInsert_cons, if_neg (hl v List.mem_cons_self)]
      exact congrArg (v :: ·) hrest

theorem insert_of_lt {l : List V} (hl : ∀ v ∈ l, toKey value < toKey v) :
    insert toKey value l = value :: l := by
  cases l with
  | nil => rfl
  | cons v l =>
      show List.orderedInsert (fun a b => toKey a < toKey b) value (v :: l) = _
      rw [List.orderedInsert_cons, if_pos (hl v List.mem_cons_self)]

/-- The keys of a list in their order. -/
def InOrder (toKey : V → K) (l : List V) : Prop := l.Pairwise fun a b => toKey a ≤ toKey b

/-- An insertion splits the list behind the last key that is not greater. -/
theorem insert_split {l : List V} (hl : InOrder toKey l) (value : V) :
    ∃ before after, l = before ++ after ∧ insert toKey value l = before ++ value :: after ∧
      (∀ v ∈ before, toKey v ≤ toKey value) ∧ ∀ v ∈ after, toKey value < toKey v := by
  induction l with
  | nil => exact ⟨[], [], rfl, rfl, by simp, by simp⟩
  | cons v l ih =>
      obtain ⟨hv, hl⟩ := List.pairwise_cons.mp hl
      by_cases hlt : toKey value < toKey v
      · have hall : ∀ u ∈ v :: l, toKey value < toKey u := by
          intro u hu
          rcases List.mem_cons.mp hu with rfl | hu
          · exact hlt
          · exact lt_of_lt_of_le hlt (hv u hu)
        exact ⟨[], v :: l, rfl, insert_of_lt hall, by simp, hall⟩
      · obtain ⟨before, after, rfl, hinsert, hbefore, hafter⟩ := ih hl
        refine ⟨v :: before, after, rfl, ?_, ?_, hafter⟩
        · have hpass := @insert_append _ _ toKey value _ [v] (before ++ after)
            (fun u hu => by rwa [List.mem_singleton.mp hu])
          rw [List.singleton_append, hinsert] at hpass
          exact hpass
        · intro u hu
          rcases List.mem_cons.mp hu with rfl | hu
          · exact le_of_not_gt hlt
          · exact hbefore u hu

theorem InOrder.insert {l : List V} (hl : InOrder toKey l) (value : V) :
    InOrder toKey (TimerQueue.insert toKey value l) := by
  obtain ⟨before, after, rfl, hinsert, hbefore, hafter⟩ := insert_split hl value
  obtain ⟨h1, h2, h3⟩ := List.pairwise_append.mp hl
  rw [hinsert]
  refine List.pairwise_append.mpr ⟨h1, List.pairwise_cons.mpr
    ⟨fun v hv => le_of_lt (hafter v hv), h2⟩, ?_⟩
  intro u hu v hv
  rcases List.mem_cons.mp hv with rfl | hv
  · exact hbefore u hu
  · exact h3 u hu v hv

theorem Consistent.add_spec {m : TreeMap K V} (h : Consistent toKey m) (value : V) :
    ∃ m', m.add toKey value = .ok m' ∧ Consistent toKey m' ∧
      TreeMap.toSeq m' = insert toKey value (TreeMap.toSeq m) := by
  obtain ⟨pre, post, hpre, hpost, hcase⟩ := Sorted.exists_split h.sorted (toKey value)
  have hkeys := h.key_eq
  rcases hcase with ⟨hfind, rfl⟩ | ⟨buffer, hfind, rfl⟩
  · have hbefore := key_of_mem_toSeq (fun k => k < toKey value) (fun e he => hkeys e (List.mem_append_left _ he)) hpre
    have hafter := key_of_mem_toSeq (fun k => toKey value < k) (fun e he => hkeys e (List.mem_append_right _ he)) hpost
    refine ⟨OrderedMap.assign (toKey value) [value] (pre ++ post), ?_, ?_, ?_⟩
    · rw [TreeMap.add, hfind]
      rfl
    · refine h.assign (List.cons_ne_nil value []) ?_
      intro v hv
      rw [List.mem_singleton.mp hv]
    · rw [assign_append hpre, assign_of_lt hpost, toSeq_append, toSeq_append, toSeq_cons,
        insert_append fun v hv => not_lt_of_gt (hbefore v hv), insert_of_lt hafter]
      rfl
  · have hbefore := key_of_mem_toSeq (fun k => k < toKey value) (fun e he => hkeys e (List.mem_append_left _ he)) hpre
    have hafter := key_of_mem_toSeq (fun k => toKey value < k)
      (fun e he => hkeys e (List.mem_append_right _ (List.mem_cons_of_mem _ he))) hpost
    have hsame := hkeys (toKey value, buffer) (by simp)
    refine ⟨OrderedMap.assign (toKey value) (buffer ++ [value]) (pre ++ (toKey value, buffer) :: post),
      ?_, ?_, ?_⟩
    · rw [TreeMap.add, hfind]
    · refine h.assign (by simp) ?_
      intro v hv
      rcases List.mem_append.mp hv with hv | hv
      · exact hsame v hv
      · rw [List.mem_singleton.mp hv]
    · -- the entry goes to the end of the buffer, before the greater keys
      rw [assign_append hpre, assign_self, toSeq_append, toSeq_append, toSeq_cons, toSeq_cons,
        insert_append fun v hv => not_lt_of_gt (hbefore v hv),
        insert_append fun v hv => not_lt_of_ge (le_of_eq (hsame v hv)), insert_of_lt hafter]
      simp only [List.append_assoc, List.singleton_append]

variable [BEq V]

/-- The entries of other keys are not looked for. -/
theorem not_isEntry_of_ne {l : List V} (hl : ∀ v ∈ l, toKey v ≠ key) :
    ∀ v ∈ l, ¬isEntry toKey key value v = true := by
  intro v hv
  rw [isEntry, decide_eq_false (hl v hv), Bool.false_and]
  exact Bool.false_ne_true

theorem isEntry_of_eq {l : List V} (value : V) (hl : ∀ v ∈ l, toKey v = key) :
    ∀ v ∈ l, isEntry toKey key value v = (value == v) := by
  intro v hv
  rw [isEntry, decide_eq_true (hl v hv), Bool.true_and]

theorem Consistent.remove_spec {m : TreeMap K V} (h : Consistent toKey m) (key : K) (value : V) :
    ∃ m', m.remove key value = .ok ((TreeMap.toSeq m).any (isEntry toKey key value), m') ∧
      Consistent toKey m' ∧
      TreeMap.toSeq m' = (TreeMap.toSeq m).eraseP (isEntry toKey key value) := by
  obtain ⟨pre, post, hpre, hpost, hcase⟩ := Sorted.exists_split h.sorted key
  have hkeys := h.key_eq
  rcases hcase with ⟨hfind, rfl⟩ | ⟨buffer, hfind, rfl⟩
  · have hnone : ∀ v ∈ TreeMap.toSeq (pre ++ post), ¬isEntry toKey key value v = true := by
      refine not_isEntry_of_ne (key_of_mem_toSeq (fun k => k ≠ key) hkeys ?_)
      intro e he
      rcases List.mem_append.mp he with he | he
      · exact ne_of_lt (hpre e he)
      · exact ne_of_gt (hpost e he)
    refine ⟨pre ++ post, ?_, h, (List.eraseP_of_forall_not hnone).symm⟩
    rw [TreeMap.remove, hfind, List.any_eq_false.mpr hnone]
  · have hbefore : ∀ v ∈ TreeMap.toSeq pre, ¬isEntry toKey key value v = true := by
      refine not_isEntry_of_ne (key_of_mem_toSeq (fun k => k ≠ key) ?_ ?_)
      · exact fun e he => hkeys e (List.mem_append_left _ he)
      · exact fun e he => ne_of_lt (hpre e he)
    have hafter : ∀ v ∈ TreeMap.toSeq post, ¬isEntry toKey key value v = true := by
      refine not_isEntry_of_ne (key_of_mem_toSeq (fun k => k ≠ key) ?_ ?_)
      · exact fun e he => hkeys e (List.mem_append_right _ (List.mem_cons_of_mem _ he))
      · exact fun e he => ne_of_gt (hpost e he)
    have hsame := hkeys (key, buffer) (by simp)
    have hwithin := isEntry_of_eq value hsame
    rw [TreeMap.remove, hfind, toSeq_append, toSeq_cons]
    cases hi : buffer.findIdx? fun v => value == v with
    | none =>
        have hnot : ∀ v ∈ buffer, ¬isEntry toKey key value v = true := by
          intro v hv
          rw [hwithin v hv, List.findIdx?_eq_none_iff.mp hi v hv]
          exact Bool.false_ne_true
        have hnone : ∀ v ∈ TreeMap.toSeq pre ++ (buffer ++ TreeMap.toSeq post),
            ¬isEntry toKey key value v = true := by
          intro v hv
          rcases List.mem_append.mp hv with hv | hv
          · exact hbefore v hv
          · exact (List.mem_append.mp hv).elim (hnot v) (hafter v)
        refine ⟨pre ++ (key, buffer) :: post, ?_, h, ?_⟩
        · simp only [hi, List.any_eq_false.mpr hnone]
        · rw [List.eraseP_of_forall_not hnone, toSeq_append, toSeq_cons]
    | some i =>
        -- the entry is taken out of its buffer
        have hany : (buffer.any fun v => value == v) = true := by
          rw [← List.findIdx?_isSome, hi]
          rfl
        obtain ⟨v, hv, hval⟩ := List.any_eq_true.mp hany
        have hentry := (hwithin v hv).trans hval
        have hrest : buffer.eraseIdx i = buffer.eraseP (isEntry toKey key value) := by
          rw [eraseP_congr hwithin, List.eraseP_eq_eraseIdx, hi]
        have hall : (TreeMap.toSeq pre ++ (buffer ++ TreeMap.toSeq post)).any
            (isEntry toKey key value) = true :=
          List.any_eq_true.mpr ⟨v, by simp [hv], hentry⟩
        have herase : (TreeMap.toSeq pre ++ (buffer ++ TreeMap.toSeq post)).eraseP
              (isEntry toKey key value)
            = TreeMap.toSeq pre ++ (buffer.eraseIdx i ++ TreeMap.toSeq post) := by
          rw [List.eraseP_append_right _ hbefore, List.eraseP_append_left hentry _ hv, hrest]
        rw [hall, herase]
        cases hb : buffer.eraseIdx i with
        | nil =>
            refine ⟨OrderedMap.erase key (OrderedMap.assign key [] (pre ++ (key, buffer) :: post)), ?_, ?_, ?_⟩
            · simp only [hi, hb, find_assign h.sorted, if_true, Option.getD_some, List.isEmpty_nil]
            · rw [assign_append hpre, assign_self, erase_split hpre hpost]
              have herased := h.erase key
              rwa [erase_split hpre hpost] at herased
            · rw [assign_append hpre, assign_self, erase_split hpre hpost, toSeq_append]
              rfl
        | cons u us =>
            refine ⟨OrderedMap.assign key (u :: us) (pre ++ (key, buffer) :: post), ?_, ?_, ?_⟩
            · simp only [hi, hb, List.isEmpty_cons, Bool.false_eq_true, if_false]
            · refine h.assign (List.cons_ne_nil u us) ?_
              intro x hx
              rw [← hb] at hx
              exact hsame x (List.mem_of_mem_eraseIdx hx)
            · rw [assign_append hpre, assign_self, toSeq_append, toSeq_cons]

theorem Consistent.popNext_spec [ReflBEq V] {m : TreeMap K V} (h : Consistent toKey m)
    (untilIncluding : K) :
    (TreeMap.toSeq m = [] ∧ m.popNext toKey untilIncluding = .error .noSuchElement) ∨
      ∃ x m', m.popNext toKey untilIncluding = .ok (x, m') ∧ Consistent toKey m' ∧
        popNext toKey untilIncluding (TreeMap.toSeq m) = .ok (x, TreeMap.toSeq m') := by
  have hhead := h.head_eq
  cases m with
  | nil =>
      refine Or.inl ⟨rfl, ?_⟩
      rw [TreeMap.popNext, hhead]
      rfl
  | cons e m =>
      obtain ⟨k, buffer⟩ := e
      cases buffer with
      | nil => exact absurd rfl (h.nonEmpty _ List.mem_cons_self)
      | cons v buffer =>
          have hkey : toKey v = k := h.key_eq _ List.mem_cons_self v List.mem_cons_self
          have hpost : ∀ e ∈ m, k < e.1 := (List.pairwise_cons.mp h.sorted).1
          refine Or.inr ?_
          rw [TreeMap.popNext, hhead, toSeq_cons, List.cons_append, popNext]
          by_cases hlt : untilIncluding < toKey v
          · refine ⟨.inl (toKey v), (k, v :: buffer) :: m, ?_, h, ?_⟩
            · show (if untilIncluding < toKey v then _ else _) = _
              rw [if_pos hlt]
              rfl
            · rw [if_pos hlt]
              rfl
          · have hremove : ∃ m', TreeMap.removeHead ((k, v :: buffer) :: m) = .ok (v, m') ∧
                Consistent toKey m' ∧ TreeMap.toSeq m' = buffer ++ TreeMap.toSeq m := by
              cases buffer with
              | nil =>
                  have herase : OrderedMap.erase k (OrderedMap.assign k [] ((k, [v]) :: m)) = m := by
                    rw [assign_self]
                    exact @erase_split _ _ _ _ _ [] _ (fun e he => absurd he List.not_mem_nil) hpost
                  refine ⟨m, ?_, ?_, rfl⟩
                  · rw [TreeMap.removeHead]
                    exact congrArg (fun m' => Except.ok (v, m')) herase
                  · exact ⟨(List.pairwise_cons.mp h.sorted).2,
                      fun e he => h.nonEmpty e (List.mem_cons_of_mem _ he),
                      fun e he => h.key_eq e (List.mem_cons_of_mem _ he)⟩
              | cons u us =>
                  refine ⟨OrderedMap.assign k (u :: us) ((k, v :: u :: us) :: m), rfl, ?_, ?_⟩
                  · refine h.assign (List.cons_ne_nil u us) ?_
                    intro x hx
                    exact h.key_eq _ List.mem_cons_self x (List.mem_cons_of_mem v hx)
                  · rw [assign_self, toSeq_cons]
            obtain ⟨m', hrun, hcon, hseq⟩ := hremove
            refine ⟨.inr v, m', ?_, hcon, ?_⟩
            · show (if untilIncluding < toKey v then _ else _) = _
              rw [if_neg hlt, hrun]
              show (if v == v then _ else _) = _
              rw [if_pos (beq_self_eq_true v)]
              rfl
            · rw [if_neg hlt, hseq]

/-! ## The refinement -/

/-- The queue holds the entries of the list. -/
structure Represents (toKey : V → K) (m : TreeMap K V) (l : List V) : Prop where
  consistent : Consistent toKey m
  toSeq_eq : TreeMap.toSeq m = l

/-- An operation is answered as by the list, and the queue holds the list again. -/
theorem Represents.perform [ReflBEq V] {m : TreeMap K V} {l : List V} (h : Represents toKey m l)
    (op : Op K V) :
    (TimerQueue.perform toKey m op).1 = (performSorted toKey l op).1 ∧
      Represents toKey (TimerQueue.perform toKey m op).2 (performSorted toKey l op).2 := by
  obtain ⟨hm, rfl⟩ := h
  cases op with
  | add value =>
      obtain ⟨m', hrun, hcon, hseq⟩ := hm.add_spec value
      rw [TimerQueue.perform, hrun]
      exact ⟨rfl, hcon, hseq⟩
  | remove key value =>
      obtain ⟨m', hrun, hcon, hseq⟩ := hm.remove_spec key value
      rw [TimerQueue.perform, hrun]
      exact ⟨rfl, hcon, hseq⟩
  | popNext untilIncluding =>
      rw [TimerQueue.perform, performSorted]
      rcases hm.popNext_spec untilIncluding with ⟨hnil, hrun⟩ | ⟨x, m', hrun, hcon, hspec⟩
      · rw [hrun, hnil]
        exact ⟨rfl, hm, hnil⟩
      · rw [hrun, hspec]
        exact ⟨rfl, hcon, rfl⟩
  | head =>
      rw [TimerQueue.perform, performSorted, hm.head_eq]
      refine ⟨?_, hm, rfl⟩
      cases (TreeMap.toSeq m).head? with
      | none => rfl
      | some v => rfl
  | headOption =>
      rw [TimerQueue.perform, hm.headOption_eq]
      exact ⟨rfl, hm, rfl⟩
  | lastOption =>
      rw [TimerQueue.perform, hm.lastOption_eq]
      exact ⟨rfl, hm, rfl⟩
  | isEmpty =>
      rw [TimerQueue.perform, hm.isEmpty_eq]
      exact ⟨rfl, hm, rfl⟩
  | size =>
      rw [TimerQueue.perform, size_eq]
      exact ⟨rfl, hm, rfl⟩
  | toSeq => exact ⟨rfl, hm, rfl⟩
  | clear => exact ⟨rfl, consistent_nil, rfl⟩

theorem performAll_cons {σ α ω : Type} (perform : σ → ω → α × σ) (s : σ) (o : ω) (os : List ω) :
    performAll perform s (o :: os)
      = ((perform s o).1 :: (performAll perform (perform s o).2 os).1,
          (performAll perform (perform s o).2 os).2) := rfl

theorem Represents.performAll [ReflBEq V] {m : TreeMap K V} {l : List V}
    (h : Represents toKey m l) (ops : List (Op K V)) :
    (TimerQueue.performAll (TimerQueue.perform toKey) m ops).1
        = (TimerQueue.performAll (performSorted toKey) l ops).1 ∧
      Represents toKey (TimerQueue.performAll (TimerQueue.perform toKey) m ops).2
        (TimerQueue.performAll (performSorted toKey) l ops).2 := by
  induction ops generalizing m l with
  | nil => exact ⟨rfl, h⟩
  | cons op ops ih =>
      obtain ⟨hanswer, hnext⟩ := h.perform op
      obtain ⟨hanswers, hlast⟩ := ih hnext
      rw [performAll_cons, performAll_cons, hanswer, hanswers]
      exact ⟨rfl, hlast⟩

/-- The list stays sorted. -/
theorem InOrder.performSorted {l : List V} (hl : InOrder toKey l) (op : Op K V) :
    InOrder toKey (TimerQueue.performSorted toKey l op).2 := by
  cases op with
  | add value => exact hl.insert value
  | remove key value => exact hl.sublist List.eraseP_sublist
  | popNext untilIncluding =>
      cases l with
      | nil => exact hl
      | cons v l =>
          rw [TimerQueue.performSorted, TimerQueue.popNext]
          by_cases hlt : untilIncluding < toKey v
          · rw [if_pos hlt]
            exact hl
          · rw [if_neg hlt]
            exact (List.pairwise_cons.mp hl).2
  | head => exact hl
  | headOption => exact hl
  | lastOption => exact hl
  | isEmpty => exact hl
  | size => exact hl
  | toSeq => exact hl
  | clear => exact List.Pairwise.nil

theorem InOrder.performAll {l : List V} (hl : InOrder toKey l) (ops : List (Op K V)) :
    InOrder toKey (TimerQueue.performAll (TimerQueue.performSorted toKey) l ops).2 := by
  induction ops generalizing l with
  | nil => exact hl
  | cons op ops ih => exact ih (hl.performSorted op)

/-- What an `add` puts in stands behind the last key that is not greater. -/
def PutsStable (toKey : V → K) (value : V) (l l' : List V) : Prop :=
  ∃ before after, l = before ++ after ∧ l' = before ++ value :: after ∧
    (∀ v ∈ before, toKey v ≤ toKey value) ∧ ∀ v ∈ after, toKey value < toKey v

/-- The map after a sequence of operations. -/
def after (toKey : V → K) (ops : List (Op K V)) : TreeMap K V :=
  (performAll (perform toKey) [] ops).2

/-- Every sequence of operations is answered as by one list that is kept sorted.
    In every state that is reached an addition is stable, a removal takes out one
    entry or finds none, and no buffer is empty, so that the queue has a head
    unless it is empty. -/
theorem refines_sortedList [ReflBEq V] (toKey : V → K) (ops : List (Op K V)) :
    (performAll (perform toKey) [] ops).1 = (performAll (performSorted toKey) [] ops).1 ∧
      TreeMap.toSeq (after toKey ops) = (performAll (performSorted toKey) [] ops).2 ∧
      InOrder toKey (TreeMap.toSeq (after toKey ops)) ∧
      (∀ value, ∃ m, (after toKey ops).add toKey value = .ok m ∧
        PutsStable toKey value (TreeMap.toSeq (after toKey ops)) (TreeMap.toSeq m)) ∧
      (∀ key value, ∃ removed m, (after toKey ops).remove key value = .ok (removed, m) ∧
        TakesOne (isEntry toKey key value) (TreeMap.toSeq (after toKey ops)) removed
          (TreeMap.toSeq m)) ∧
      (∀ e ∈ after toKey ops, e.2 ≠ []) ∧
      ((after toKey ops).isEmpty = true ↔ (after toKey ops).headOption = .ok none) := by
  obtain ⟨hanswers, hcon, hseq⟩ :=
    @Represents.performAll _ _ toKey _ _ _ [] [] ⟨consistent_nil, rfl⟩ ops
  have hcon : Consistent toKey (after toKey ops) := hcon
  have hseq : TreeMap.toSeq (after toKey ops) = _ := hseq
  have horder : InOrder toKey (TreeMap.toSeq (after toKey ops)) := by
    rw [hseq]
    exact InOrder.performAll List.Pairwise.nil ops
  refine ⟨hanswers, hseq, horder, ?_, ?_, hcon.nonEmpty, ?_⟩
  · intro value
    obtain ⟨m, hrun, -, hm⟩ := hcon.add_spec value
    obtain ⟨before, rest, hl, hinsert, hbefore, hrest⟩ := insert_split horder value
    exact ⟨m, hrun, before, rest, hl, hm.trans hinsert, hbefore, hrest⟩
  · intro key value
    obtain ⟨m, hrun, -, hm⟩ := hcon.remove_spec key value
    refine ⟨_, m, hrun, ?_⟩
    rw [hm]
    exact takesOne_eraseP _ _
  · rw [hcon.isEmpty_eq, hcon.headOption_eq, List.isEmpty_iff, Except.ok.injEq,
      List.head?_eq_none_iff]

/-- Two equal entries under one key, one under a lower key, and a removal. -/
def threeEntries : List (Op Nat (Nat × Nat)) :=
  [.add (2, 1), .add (2, 1), .add (1, 5), .remove 2 (2, 1)]

theorem refines_sortedList_threeEntries :
    TreeMap.toSeq (after Prod.fst threeEntries) = [(1, 5), (2, 1)] :=
  (refines_sortedList Prod.fst threeEntries).2.1.trans (by decide)

end TimerQueue
