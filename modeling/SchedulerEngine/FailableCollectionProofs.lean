import Mathlib.Order.Lattice
import SchedulerEngine.ExecutionProofs
import SchedulerEngine.LinkedMapProofs

/-! # Entities that may fail

    A collection gives its entities out by a selection method.  An entity that has failed
    is not given out for a time; when all of them have failed, the one that can be used
    again first is given out with the time to wait.

    The clock is read whenever the program asks for the time: `clock k` is what the
    reading number `k` shows. -/

namespace Failable

open Execution LinkedMap

variable {α : Type} [DecidableEq α]

inductive SelectionMethod where
  | fixedPriority
  | roundRobin
deriving DecidableEq

/-- The arguments of the constructor, with what it requires of them. -/
structure FailableCollection (α : Type) where
  failables : List α
  failureTimeout : Int
  selectionMethod : SelectionMethod
  nonEmpty : failables ≠ []
  distinct : failables.Nodup

/-- `failureMap` has the instants of the failures. -/
structure State (α : Type) where
  failureMap : List (α × Int)
  /-- what `RoundRobin.iterator` has left before it begins again -/
  iterator : List α
  /-- how often the clock has been read -/
  readings : Nat

inductive Error where
  /-- `minBy` of an empty map -/
  | emptyMinBy

abbrev Program (α : Type) := Exec (State α) Error

/-! ## Iterators -/

/-- `items.iterator`: the next item and what follows. -/
def itemsNext : List α → Option (α × List α)
  | [] => none
  | a :: rest => some (a, rest)

/-- `endlessRepeatedIterator { items.iterator }` -/
def endlessNext (items : List α) : List α → Option (α × List α)
  | [] => itemsNext items
  | a :: rest => some (a, rest)

/-! ## The program -/

namespace FailableCollection

variable (c : FailableCollection α) (clock : Nat → Int)

def init : State α := ⟨[], c.failables, 0⟩

def now : Program α Int := do
  let s ← get
  set { s with readings := s.readings + 1 }
  pure (clock s.readings)

/-- `TimestampedFailure.delay` -/
def delay (instant : Int) : Program α Int := do
  let n ← now clock
  pure (instant + c.failureTimeout - n)

def isDelayed (o : α) : Program α Bool := do
  let s ← get
  match get? o s.failureMap with
  | none => pure false
  | some instant => do
      let d ← delay c clock instant
      pure (decide (0 < d))

/-- `iterator take n find { o => !isDelayed(o) }`, and what the iterator has left. -/
def find (next : List α → Option (α × List α)) : Nat → List α → Program α (Option α × List α)
  | 0, it => pure (none, it)
  | n + 1, it =>
      match next it with
      | none => pure (none, it)
      | some (o, it) => do
          let delayed ← isDelayed c clock o
          if delayed then find next n it else pure (some o, it)

/-- `FixedPriority` makes an iterator each time, `RoundRobin` has one. -/
def select : Program α (Option α) :=
  match c.selectionMethod with
  | .fixedPriority => do
      let r ← find c clock itemsNext c.failables.length c.failables
      pure r.1
  | .roundRobin => do
      let s ← get
      let r ← find c clock (endlessNext c.failables) c.failables.length s.iterator
      modify fun s => { s with iterator := r.2 }
      pure r.1

/-- The first one with the smallest instant. -/
def oldest (p : α × Int) (rest : List (α × Int)) : α × Int :=
  rest.foldl (fun m q => if q.2 < m.2 then q else m) p

def oldestTimestampedFailure : Program α (α × Int) := do
  let s ← get
  match s.failureMap with
  | [] => throw .emptyMinBy
  | p :: rest => pure (oldest p rest)

def nextDelayAndEntity : Program α (Int × α) := do
  let found ← select c clock
  match found with
  | some failable => pure (0, failable)
  | none => do
      let p ← oldestTimestampedFailure
      let d ← delay c clock p.2
      pure (d, p.1)

def clearFailure (failable : α) : Program α Unit :=
  modify fun s => { s with failureMap := remove failable s.failureMap }

def setFailure (failable : α) : Program α Unit := do
  let n ← now clock
  modify fun s => { s with failureMap := put failable n s.failureMap }

/-! ## Calls and what is seen of them -/

/-- Only what `nextDelayAndEntity` has given out is said to have failed or to be clear. -/
abbrev Entity : Type := { a : α // a ∈ c.failables }

end FailableCollection

open FailableCollection

inductive Call (c : FailableCollection α) where
  | setFailure (e : c.Entity)
  | clearFailure (e : c.Entity)
  | nextDelayAndEntity

inductive Event (α : Type) where
  | failed (a : α) (instant : Int)
  | cleared (a : α)
  /-- with the readings before and after the call -/
  | asked (before after : Nat) (delay : Int) (entity : α)

variable (c : FailableCollection α) (clock : Nat → Int)

def perform : Call c → Program α (Event α)
  | .setFailure e => do
      let s ← get
      setFailure clock e.1
      pure (.failed e.1 (clock s.readings))
  | .clearFailure e => do
      clearFailure e.1
      pure (.cleared e.1)
  | .nextDelayAndEntity => do
      let s ← get
      let r ← nextDelayAndEntity c clock
      let s' ← get
      pure (.asked s.readings s'.readings r.1 r.2)

def performAll : List (Call c) → Program α (List (Event α))
  | [] => pure []
  | call :: calls => do
      let e ← perform c clock call
      let es ← performAll calls
      pure (e :: es)

/-! ## What the collection is for -/

def Event.lastFailure (a : α) (last : Option Int) : Event α → Option Int
  | .failed b t => if a = b then some t else last
  | .cleared b => if a = b then none else last
  | .asked .. => last

/-- The last failure of an entity, if it has not been cleared. -/
def lastFailure (h : List (Event α)) (a : α) : Option Int := h.foldl (Event.lastFailure a) none

/-- It has failed less than `failureTimeout` ago. -/
def DelayedAt (h : List (Event α)) (now : Int) (a : α) : Prop :=
  ∃ t, lastFailure h a = some t ∧ now < t + c.failureTimeout

/-- What one call gives out after the events `h`: with no delay an entity that was usable
    at a moment of the call, with a delay the one that is usable first while all are
    delayed. -/
structure GivesOut (h : List (Event α)) (before after : Nat) (d : Int) (e : α) : Prop where
  member : e ∈ c.failables
  usable : d = 0 → ∀ t, lastFailure h e = some t →
    ∃ k, before ≤ k ∧ k < after ∧ t + c.failureTimeout ≤ clock k
  delayed : 0 < d → ∃ k, before ≤ k ∧ k < after ∧ (∀ a ∈ c.failables, DelayedAt c h (clock k) a) ∧
    ∃ t, lastFailure h e = some t ∧ d = t + c.failureTimeout - clock k ∧
      ∀ a ∈ c.failables, ∀ t', lastFailure h a = some t' → t ≤ t'
  /-- the entities before it in the configured order are delayed -/
  first : c.selectionMethod = .fixedPriority →
    (∀ a ∈ c.failables, DelayedAt c h (clock before) a) ∨
    d = 0 ∧ ∃ l r, c.failables = l ++ e :: r ∧ ∀ a ∈ l, DelayedAt c h (clock before) a

def Event.isAsked : Event α → Bool
  | .asked .. => true
  | _ => false

def NeverGoesBack (clock : Nat → Int) : Prop := ∀ j k, j ≤ k → clock j ≤ clock k

/-- The entity is usable whenever it could be given out in `mid`. -/
def StaysUsable (h mid : List (Event α)) (a : α) : Prop :=
  ∀ l r before after d e, mid = l ++ .asked before after d e :: r →
    ¬ DelayedAt c (h ++ l) (clock before) a

/-- What is promised of all events since the collection was made. -/
structure Failover (h : List (Event α)) : Prop where
  each : ∀ l r before after d e, h = l ++ .asked before after d e :: r →
    GivesOut c clock l before after d e
  fair : c.selectionMethod = .roundRobin → ∀ l mid r, h = l ++ mid ++ r →
    c.failables.length ≤ mid.countP Event.isAsked → ∀ a ∈ c.failables, StaysUsable c clock l mid a →
      ∃ before after, Event.asked before after 0 a ∈ mid

/-! ## Looking at entities -/

section Looking

variable {c : FailableCollection α} {clock : Nat → Int} {s s' s'' : State α} {a : α}

/-- Only the clock has been read. -/
structure Later (s s' : State α) : Prop where
  failureMap : s'.failureMap = s.failureMap
  iterator : s'.iterator = s.iterator
  readings : s.readings ≤ s'.readings

omit [DecidableEq α] in
theorem Later.refl (s : State α) : Later s s := ⟨rfl, rfl, le_refl _⟩

omit [DecidableEq α] in
theorem Later.trans (h : Later s s') (h' : Later s' s'') : Later s s'' :=
  ⟨h'.failureMap.trans h.failureMap, h'.iterator.trans h.iterator, le_trans h.readings h'.readings⟩

/-- At a moment between two states the entity was found delayed, -/
def FoundDelayed (c : FailableCollection α) (clock : Nat → Int) (s s' : State α) (a : α) : Prop :=
  ∃ t, get? a s.failureMap = some t ∧
    ∃ k, s.readings ≤ k ∧ k < s'.readings ∧ clock k < t + c.failureTimeout

/-- or usable. -/
def FoundUsable (c : FailableCollection α) (clock : Nat → Int) (s s' : State α) (a : α) : Prop :=
  ∀ t, get? a s.failureMap = some t →
    ∃ k, s.readings ≤ k ∧ k < s'.readings ∧ t + c.failureTimeout ≤ clock k

theorem FoundDelayed.later (h : FoundDelayed c clock s s' a) (h' : Later s' s'') :
    FoundDelayed c clock s s'' a := by
  obtain ⟨t, ht, k, h1, h2, h3⟩ := h
  exact ⟨t, ht, k, h1, lt_of_lt_of_le h2 h'.readings, h3⟩

theorem FoundDelayed.earlier (h : FoundDelayed c clock s' s'' a) (h' : Later s s') :
    FoundDelayed c clock s s'' a := by
  obtain ⟨t, ht, k, h1, h2, h3⟩ := h
  exact ⟨t, h'.failureMap ▸ ht, k, le_trans h'.readings h1, h2, h3⟩

theorem FoundUsable.earlier (h : FoundUsable c clock s' s'' a) (h' : Later s s') :
    FoundUsable c clock s s'' a := by
  intro t ht
  obtain ⟨k, h1, h2, h3⟩ := h t (h'.failureMap.symm ▸ ht)
  exact ⟨k, le_trans h'.readings h1, h2, h3⟩

variable (c) (clock) in
theorem isDelayed_run (a : α) (s : State α) :
    ∃ b s', isDelayed c clock a s = (.ok b, s') ∧ Later s s' ∧
      (b = true → FoundDelayed c clock s s' a) ∧ (b = false → FoundUsable c clock s s' a) := by
  cases ht : get? a s.failureMap with
  | none =>
      refine ⟨false, s, ?_, Later.refl s, nofun, fun _ t h => ?_⟩
      · simp only [isDelayed, bind_run, get_run, ht]
        rfl
      · rw [ht] at h
        cases h
  | some t =>
      refine ⟨decide (0 < t + c.failureTimeout - clock s.readings),
        { s with readings := s.readings + 1 }, ?_, ⟨rfl, rfl, Nat.le_succ _⟩, fun h => ?_,
        fun h t' ht' => ?_⟩
      · simp only [isDelayed, bind_run, get_run, ht]
        rfl
      · exact ⟨t, ht, s.readings, le_refl _, Nat.lt_succ_self _, by
          have := of_decide_eq_true h
          omega⟩
      · rw [ht] at ht'
        cases ht'
        exact ⟨s.readings, le_refl _, Nat.lt_succ_self _, by
          have := of_decide_eq_false h
          omega⟩

/-- The items that an iterator passes. -/
inductive Walk (next : List α → Option (α × List α)) : List α → List α → List α → Prop
  | stay (it : List α) : Walk next it [] it
  | pass {it it' it'' : List α} {a : α} {skipped : List α} : next it = some (a, it') →
      Walk next it' skipped it'' → Walk next it (a :: skipped) it''

/-- What `find` ends with: the first usable item, or nothing after `n` items. -/
inductive Finds (c : FailableCollection α) (clock : Nat → Int)
    (next : List α → Option (α × List α)) (n : Nat) (it : List α) (s s' : State α) :
    Option α → List α → Prop
  | found {skipped it₁ it' : List α} {a : α} : Walk next it skipped it₁ → next it₁ = some (a, it') →
      (∀ b ∈ skipped, FoundDelayed c clock s s' b) → FoundUsable c clock s s' a →
      Finds c clock next n it s s' (some a) it'
  | nothing {skipped it' : List α} : Walk next it skipped it' →
      skipped.length = n ∨ next it' = none → (∀ b ∈ skipped, FoundDelayed c clock s s' b) →
      Finds c clock next n it s s' none it'

variable (c) (clock) in
/-- By induction on the number of items that are taken. -/
theorem find_run (next : List α → Option (α × List α)) (n : Nat) :
    ∀ it (s : State α), ∃ r it' s', find c clock next n it s = (.ok (r, it'), s') ∧ Later s s' ∧
      Finds c clock next n it s s' r it' := by
  induction n with
  | zero =>
      intro it s
      exact ⟨none, it, s, rfl, Later.refl s, .nothing (.stay it) (.inl rfl) nofun⟩
  | succ n ih =>
      intro it s
      cases hn : next it with
      | none =>
          refine ⟨none, it, s, ?_, Later.refl s, .nothing (.stay it) (.inr hn) nofun⟩
          simp only [find, hn]
          rfl
      | some p =>
          obtain ⟨a, it1⟩ := p
          obtain ⟨b, s1, hrun, hl, hd, hu⟩ := isDelayed_run c clock a s
          cases b with
          | false =>
              refine ⟨some a, it1, s1, ?_, hl, .found (.stay it) hn nofun (hu rfl)⟩
              simp only [find, hn, bind_run]
              rw [hrun]
              rfl
          | true =>
              obtain ⟨r, it', s', hrun', hl', hf⟩ := ih it1 s1
              refine ⟨r, it', s', ?_, hl.trans hl', ?_⟩
              · simp only [find, hn, bind_run]
                rw [hrun]
                exact hrun'
              · have passed : ∀ {skipped : List α},
                    (∀ b ∈ skipped, FoundDelayed c clock s1 s' b) →
                    ∀ b ∈ a :: skipped, FoundDelayed c clock s s' b := by
                  intro skipped h b hb
                  rcases List.mem_cons.mp hb with rfl | hb
                  · exact (hd rfl).later hl'
                  · exact (h b hb).earlier hl
                cases hf with
                | found hw hn' hsk hus => exact .found (.pass hn hw) hn' (passed hsk) (hus.earlier hl)
                | nothing hw hlast hsk =>
                    exact .nothing (.pass hn hw) (hlast.imp (fun h => by simp [h]) id) (passed hsk)

end Looking

/-! ## Where the iterators are -/

omit [DecidableEq α] in
theorem Walk.items {it it' skipped : List α} (h : Walk itemsNext it skipped it') :
    it = skipped ++ it' := by
  induction h with
  | stay it => rfl
  | @pass it it1 it2 a skipped hn _ ih =>
      cases it with
      | nil => cases hn
      | cons b rest =>
          cases hn
          rw [ih]
          rfl

/-- How many items come before `a`. -/
def distance (items : List α) (a : α) (it : List α) : Nat := (it ++ items).idxOf a

theorem distance_next {items it it' : List α} {a b : α} (ha : a ∈ items)
    (h : endlessNext items it = some (b, it')) :
    a = b ∨ distance items a it = distance items a it' + 1 := by
  by_cases hne : a = b
  · exact .inl hne
  · right
    cases it with
    | cons x rest =>
        cases h
        show (b :: (it' ++ items)).idxOf a = (it' ++ items).idxOf a + 1
        rw [List.idxOf_cons_ne _ (Ne.symm hne)]
    | nil =>
        cases items with
        | nil => cases ha
        | cons x rest =>
            cases h
            have hr : a ∈ it' := (List.mem_cons.mp ha).resolve_left hne
            show (b :: it').idxOf a = (it' ++ b :: it').idxOf a + 1
            rw [List.idxOf_cons_ne _ (Ne.symm hne), List.idxOf_append_of_mem hr]

/-- What has been passed is behind. -/
theorem Walk.distance {items it it' skipped : List α} {a : α} (ha : a ∈ items)
    (h : Walk (endlessNext items) it skipped it') :
    a ∈ skipped ∨ distance items a it = distance items a it' + skipped.length := by
  induction h with
  | stay it => exact .inr rfl
  | pass hn _ ih =>
      rcases distance_next ha hn with rfl | h1
      · exact .inl (List.mem_cons_self ..)
      · rcases ih with h2 | h2
        · exact .inl (List.mem_cons_of_mem _ h2)
        · right
          rw [h1, h2, List.length_cons]
          omega

theorem distance_lt {items it : List α} {a : α} (ha : a ∈ items) (h : it <:+ items) :
    Failable.distance items a it < items.length := by
  obtain ⟨l, rfl⟩ := h
  rw [Failable.distance]
  by_cases hit : a ∈ it
  · rw [List.idxOf_append_of_mem hit, List.length_append]
    exact lt_of_lt_of_le (List.idxOf_lt_length_iff.mpr hit) (Nat.le_add_left _ _)
  · have hl : a ∈ l := (List.mem_append.mp ha).resolve_right hit
    rw [List.idxOf_append_of_notMem hit, List.idxOf_append_of_mem hl, List.length_append]
    have := List.idxOf_lt_length_iff.mpr hl
    omega

omit [DecidableEq α] in
theorem endlessNext_suffix {items it it' : List α} {a : α}
    (hn : endlessNext items it = some (a, it')) (h : it <:+ items) : it' <:+ items := by
  cases it with
  | cons x rest =>
      cases hn
      exact (List.suffix_cons _ _).trans h
  | nil =>
      cases items with
      | nil => cases hn
      | cons x rest =>
          cases hn
          exact List.suffix_cons _ _

omit [DecidableEq α] in
theorem Walk.suffix {items it it' skipped : List α}
    (h : Walk (endlessNext items) it skipped it') (hs : it <:+ items) : it' <:+ items := by
  induction h with
  | stay it => exact hs
  | pass hn _ ih => exact ih (endlessNext_suffix hn hs)

/-! ## One call -/

/-- The state is what the events say. -/
structure Follows (c : FailableCollection α) (h : List (Event α)) (s : State α) : Prop where
  failures : ∀ a, get? a s.failureMap = lastFailure h a
  known : ∀ p ∈ s.failureMap, p.1 ∈ c.failables
  unique : Unique s.failureMap
  iterator : s.iterator <:+ c.failables

variable {c} {clock} {h : List (Event α)} {s s' : State α} {a : α}

theorem follows_init : Follows c [] c.init :=
  ⟨fun _ => rfl, nofun, List.Pairwise.nil, List.suffix_refl _⟩

theorem FoundDelayed.delayedAt (hs : Follows c h s) (hclock : NeverGoesBack clock)
    (hd : FoundDelayed c clock s s' a) : DelayedAt c h (clock s.readings) a := by
  obtain ⟨t, ht, k, h1, h2, h3⟩ := hd
  exact ⟨t, hs.failures a ▸ ht, lt_of_le_of_lt (hclock _ _ h1) h3⟩

omit [DecidableEq α] in
/-- The oldest failure is one of them, and none is older. -/
theorem oldest_spec (p : α × Int) (rest : List (α × Int)) :
    oldest p rest ∈ p :: rest ∧ ∀ q ∈ p :: rest, (oldest p rest).2 ≤ q.2 := by
  induction rest generalizing p with
  | nil =>
      refine ⟨List.mem_cons_self .., fun q hq => ?_⟩
      rw [List.mem_singleton.mp hq]
      exact le_refl _
  | cons x rest ih =>
      show oldest (if x.2 < p.2 then x else p) rest ∈ _ ∧ ∀ q ∈ p :: x :: rest, _ ≤ q.2
      obtain ⟨h1, h2⟩ := ih (if x.2 < p.2 then x else p)
      have hleast := h2 _ (List.mem_cons_self ..)
      constructor
      · rcases List.mem_cons.mp h1 with h | h
        · rw [h]
          split
          · simp
          · simp
        · exact List.mem_cons_of_mem _ (List.mem_cons_of_mem _ h)
      · intro q hq
        rcases List.mem_cons.mp hq with rfl | hq
        · refine le_trans hleast ?_
          split
          · exact le_of_lt ‹_›
          · exact le_refl _
        · rcases List.mem_cons.mp hq with rfl | hq
          · refine le_trans hleast ?_
            split
            · exact le_refl _
            · exact not_lt.mp ‹_›
          · exact h2 q (List.mem_cons_of_mem _ hq)

/-- What has been selected, with the iterator afterwards. -/
structure Selected (c : FailableCollection α) (clock : Nat → Int) (s s' : State α)
    (r : Option α) : Prop where
  failureMap : s'.failureMap = s.failureMap
  readings : s.readings ≤ s'.readings
  iterator : s'.iterator <:+ c.failables
  usable : ∀ a, r = some a → a ∈ c.failables ∧ FoundUsable c clock s s' a
  delayed : r = none → ∀ a ∈ c.failables, FoundDelayed c clock s s' a
  first : c.selectionMethod = .fixedPriority → ∀ a, r = some a →
    ∃ l t, c.failables = l ++ a :: t ∧ ∀ b ∈ l, FoundDelayed c clock s s' b
  /-- an entity that is not found delayed comes nearer -/
  nearer : c.selectionMethod = .roundRobin → ∀ b ∈ c.failables, ¬ FoundDelayed c clock s s' b →
    r = some b ∨ distance c.failables b s'.iterator < distance c.failables b s.iterator

theorem select_fixedPriority (hm : c.selectionMethod = .fixedPriority)
    (hit : s.iterator <:+ c.failables) :
    ∃ r s', select c clock s = (.ok r, s') ∧ Selected c clock s s' r := by
  obtain ⟨r, it', s', hrun, hl, hf⟩ :=
    find_run c clock itemsNext c.failables.length c.failables s
  have not_robin : ∀ P : Prop, c.selectionMethod = .roundRobin → P := by
    intro P h
    rw [hm] at h
    cases h
  refine ⟨r, s', ?_, hl.failureMap, hl.readings, hl.iterator.symm ▸ hit, ?_, ?_, ?_,
    fun h => not_robin _ h⟩
  · simp only [select, hm, bind_run]
    rw [hrun]
    rfl
  · rintro a rfl
    cases hf with
    | @found skipped it₁ _ _ hw hn _ hu =>
        refine ⟨?_, hu⟩
        rw [hw.items]
        cases it₁ with
        | nil => cases hn
        | cons x rest =>
            cases hn
            exact List.mem_append_right _ (List.mem_cons_self ..)
  · rintro rfl b hb
    cases hf with
    | @nothing skipped _ hw hlast hd =>
        have hitems := hw.items
        have hnil : it' = [] := by
          rcases hlast with h | h
          · have hlen := congrArg List.length hitems
            rw [List.length_append, h] at hlen
            exact List.length_eq_zero_iff.mp (by omega)
          · cases it' with
            | nil => rfl
            | cons x rest => cases h
        rw [hitems, hnil, List.append_nil] at hb
        exact hd b hb
  · rintro _ a rfl
    cases hf with
    | @found skipped it₁ _ _ hw hn hd _ =>
        cases it₁ with
        | nil => cases hn
        | cons x rest =>
            cases hn
            exact ⟨skipped, it', hw.items, hd⟩

omit [DecidableEq α] in
theorem endlessNext_mem {items it it' : List α} (hn : endlessNext items it = some (a, it'))
    (hs : it <:+ items) : a ∈ items := by
  cases it with
  | cons x rest =>
      cases hn
      exact hs.subset (List.mem_cons_self ..)
  | nil =>
      cases items with
      | nil => cases hn
      | cons x rest =>
          cases hn
          exact List.mem_cons_self ..

omit [DecidableEq α] in
theorem endlessNext_ne_none {items it : List α} (hne : items ≠ []) : endlessNext items it ≠ none := by
  intro hn
  cases it with
  | cons x rest => cases hn
  | nil =>
      cases items with
      | nil => exact hne rfl
      | cons x rest => cases hn

theorem select_roundRobin (hm : c.selectionMethod = .roundRobin)
    (hit : s.iterator <:+ c.failables) :
    ∃ r s', select c clock s = (.ok r, s') ∧ Selected c clock s s' r := by
  obtain ⟨r, it', s', hrun, hl, hf⟩ := find_run c clock
    (endlessNext c.failables) c.failables.length s.iterator s
  have not_fixed : ∀ P : Prop, c.selectionMethod = .fixedPriority → P := by
    intro P h
    rw [hm] at h
    cases h
  have hsuffix : it' <:+ c.failables := by
    cases hf with
    | found hw hn _ _ => exact endlessNext_suffix hn (hw.suffix hit)
    | nothing hw _ _ => exact hw.suffix hit
  -- what the iterator has passed was found delayed
  have hall : r = none → ∀ b ∈ c.failables, FoundDelayed c clock s s' b := by
    rintro rfl b hb
    cases hf with
    | nothing hw hlast hd =>
        rcases hw.distance hb with h | h
        · exact hd b h
        · rcases hlast with h' | h'
          · have := distance_lt hb hit
            omega
          · exact absurd h' (endlessNext_ne_none c.nonEmpty)
  refine ⟨r, { s' with iterator := it' }, ?_, hl.failureMap, hl.readings, hsuffix, ?_, hall,
    fun h => not_fixed _ h, ?_⟩
  · simp only [select, hm, bind_run, get_run]
    rw [hrun]
    rfl
  · rintro a rfl
    cases hf with
    | found hw hn _ hu => exact ⟨endlessNext_mem hn (hw.suffix hit), hu⟩
  · intro _ b hb hnot
    cases hf with
    | nothing hw hlast hd => exact absurd (hall rfl b hb) hnot
    | found hw hn hd _ =>
        rcases hw.distance hb with h | h
        · exact absurd (hd b h) hnot
        · rcases distance_next hb hn with rfl | h'
          · exact .inl rfl
          · right
            show distance c.failables b it' < _
            omega

variable (clock) in
theorem select_run (hit : s.iterator <:+ c.failables) :
    ∃ r s', select c clock s = (.ok r, s') ∧ Selected c clock s s' r := by
  cases hm : c.selectionMethod with
  | fixedPriority => exact select_fixedPriority hm hit
  | roundRobin => exact select_roundRobin hm hit

/-- What a call of `nextDelayAndEntity` does. -/
structure Asked (c : FailableCollection α) (clock : Nat → Int) (h : List (Event α))
    (s s' : State α) (d : Int) (e : α) : Prop where
  givesOut : GivesOut c clock h s.readings s'.readings d e
  failureMap : s'.failureMap = s.failureMap
  iterator : s'.iterator <:+ c.failables
  nearer : c.selectionMethod = .roundRobin → ∀ b ∈ c.failables,
    ¬ DelayedAt c h (clock s.readings) b →
    (d = 0 ∧ e = b) ∨ distance c.failables b s'.iterator < distance c.failables b s.iterator

/-- An entity has been selected. -/
theorem Selected.asked (hclock : NeverGoesBack clock) (hs : Follows c h s)
    (hsel : Selected c clock s s' (some a)) : Asked c clock h s s' 0 a := by
  have delayed : ∀ b, FoundDelayed c clock s s' b → DelayedAt c h (clock s.readings) b :=
    fun b hb => hb.delayedAt hs hclock
  refine ⟨⟨(hsel.usable a rfl).1, fun _ t ht => ?_, fun h0 => absurd h0 (lt_irrefl _), fun hm => ?_⟩,
    hsel.failureMap, hsel.iterator, fun hm b hb hnot => ?_⟩
  · exact (hsel.usable a rfl).2 t (hs.failures a ▸ ht)
  · obtain ⟨l, r, hlr, hl⟩ := hsel.first hm a rfl
    exact .inr ⟨rfl, l, r, hlr, fun b hb => delayed b (hl b hb)⟩
  · refine (hsel.nearer hm b hb fun hf => hnot (delayed b hf)).imp (fun h => ?_) id
    exact ⟨rfl, Option.some.inj h⟩

/-- All were delayed, and the oldest failure is what counts. -/
theorem Selected.waits (hclock : NeverGoesBack clock) (hs : Follows c h s)
    (hsel : Selected c clock s s' none) {p : α × Int} (hp : p ∈ s'.failureMap)
    (holdest : ∀ q ∈ s'.failureMap, p.2 ≤ q.2) :
    Asked c clock h s { s' with readings := s'.readings + 1 }
      (p.2 + c.failureTimeout - clock s'.readings) p.1 := by
  have delayed : ∀ b ∈ c.failables, DelayedAt c h (clock s.readings) b :=
    fun b hb => (hsel.delayed rfl b hb).delayedAt hs hclock
  rw [hsel.failureMap] at hp holdest
  have hlast : lastFailure h p.1 = some p.2 := by
    rw [← hs.failures, hs.unique.get?_eq hp]
  have older : ∀ b t, lastFailure h b = some t → p.2 ≤ t := by
    intro b t ht
    rw [← hs.failures] at ht
    exact holdest (b, t) (mem_of_get? ht)
  refine ⟨⟨hs.known p hp, fun h0 t ht => ?_, fun h0 => ?_, fun _ => .inl delayed⟩,
    hsel.failureMap, hsel.iterator, fun _ b hb hnot => absurd (delayed b hb) hnot⟩
  · rw [hlast] at ht
    cases ht
    exact ⟨s'.readings, hsel.readings, Nat.lt_succ_self _, by omega⟩
  · refine ⟨s'.readings, hsel.readings, Nat.lt_succ_self _, fun b hb => ?_, p.2, hlast, rfl,
      fun b _ t ht => older b t ht⟩
    obtain ⟨t, ht, _⟩ := delayed b hb
    have := older b t ht
    exact ⟨t, ht, by omega⟩

theorem nextDelayAndEntity_run (hclock : NeverGoesBack clock) (hs : Follows c h s) :
    ∃ d e s', nextDelayAndEntity c clock s = (.ok (d, e), s') ∧ Asked c clock h s s' d e := by
  obtain ⟨r, s1, hrun, hsel⟩ := select_run clock hs.iterator
  cases r with
  | some a =>
      refine ⟨0, a, s1, ?_, hsel.asked hclock hs⟩
      simp only [nextDelayAndEntity, bind_run]
      rw [hrun]
      rfl
  | none =>
      cases hmap : s1.failureMap with
      | nil =>
          -- an entity has been found delayed, and so has a failure
          obtain ⟨b, hb⟩ := List.exists_mem_of_ne_nil _ c.nonEmpty
          obtain ⟨t, ht, _⟩ := hsel.delayed rfl b hb
          rw [← hsel.failureMap, hmap] at ht
          cases ht
      | cons p rest =>
          obtain ⟨hin, hle⟩ := oldest_spec p rest
          rw [← hmap] at hin hle
          refine ⟨_, _, _, ?_, hsel.waits hclock hs hin hle⟩
          simp only [nextDelayAndEntity, bind_run]
          rw [hrun]
          simp only [oldestTimestampedFailure, bind_run, get_run, hmap]
          rw [← hmap]
          rfl

/-! ## All calls -/

theorem lastFailure_concat (h : List (Event α)) (e : Event α) (a : α) :
    lastFailure (h ++ [e]) a = e.lastFailure a (lastFailure h a) := by
  rw [lastFailure, List.foldl_append]
  rfl

/-- What one call promises of its event. -/
def Promised (c : FailableCollection α) (clock : Nat → Int) (h : List (Event α)) (s s' : State α) :
    Event α → Prop
  | .failed .. => s'.iterator = s.iterator
  | .cleared .. => s'.iterator = s.iterator
  | .asked before after d e =>
      before = s.readings ∧ after = s'.readings ∧ Asked c clock h s s' d e

/-- No call fails. -/
theorem perform_run (hclock : NeverGoesBack clock) (hs : Follows c h s) (call : Call c) :
    ∃ e s', perform c clock call s = (.ok e, s') ∧ Follows c (h ++ [e]) s' ∧
      Promised c clock h s s' e := by
  cases call with
  | setFailure a =>
      refine ⟨_, _, rfl, ⟨fun b => ?_, fun p hp => ?_, hs.unique.put a.1 _, hs.iterator⟩, rfl⟩
      · show get? b (put a.1 (clock s.readings) s.failureMap) = _
        rw [get?_put, lastFailure_concat, hs.failures]
        rfl
      · rcases mem_put hp with rfl | hp
        · exact a.2
        · exact hs.known p hp
  | clearFailure a =>
      refine ⟨_, _, rfl, ⟨fun b => ?_, fun p hp => ?_, hs.unique.remove a.1, hs.iterator⟩, rfl⟩
      · show get? b (remove a.1 s.failureMap) = _
        rw [get?_remove, lastFailure_concat, hs.failures]
        rfl
      · exact hs.known p (List.mem_of_mem_filter hp)
  | nextDelayAndEntity =>
      obtain ⟨d, e, s', hrun, ha⟩ := nextDelayAndEntity_run hclock hs
      refine ⟨.asked s.readings s'.readings d e, s', ?_, ⟨fun b => ?_, ?_, ?_, ha.iterator⟩,
        rfl, rfl, ha⟩
      · simp only [perform, bind_run, get_run]
        rw [hrun]
        rfl
      · rw [lastFailure_concat, ha.failureMap, hs.failures]
        rfl
      · rw [ha.failureMap]
        exact hs.known
      · rw [ha.failureMap]
        exact hs.unique

/-- The events `es` after the events `h`, each of them as promised. -/
inductive Happens (c : FailableCollection α) (clock : Nat → Int) :
    List (Event α) → State α → List (Event α) → Prop
  | stop (h : List (Event α)) (s : State α) : Happens c clock h s []
  | next {h es : List (Event α)} {s s' : State α} {e : Event α} : Promised c clock h s s' e →
      Follows c (h ++ [e]) s' → Happens c clock (h ++ [e]) s' es → Happens c clock h s (e :: es)

theorem performAll_run (hclock : NeverGoesBack clock) (calls : List (Call c)) :
    ∀ (h : List (Event α)) (s : State α), Follows c h s →
      ∃ es s', performAll c clock calls s = (.ok es, s') ∧ Happens c clock h s es := by
  induction calls with
  | nil => exact fun h s _ => ⟨[], s, rfl, .stop h s⟩
  | cons call calls ih =>
      intro h s hs
      obtain ⟨e, s1, hrun, hs1, he⟩ := perform_run hclock hs call
      obtain ⟨es, s2, hrun', hes⟩ := ih _ s1 hs1
      refine ⟨e :: es, s2, ?_, .next he hs1 hes⟩
      simp only [performAll, bind_run]
      rw [hrun]
      simp only
      rw [hrun']
      rfl

theorem performAll_length {calls : List (Call c)} {es : List (Event α)}
    (hrun : performAll c clock calls s = (.ok es, s')) : es.length = calls.length := by
  induction calls generalizing s es with
  | nil =>
      cases hrun
      rfl
  | cons call calls ih =>
      rw [performAll, bind_run] at hrun
      rcases h1 : perform c clock call s with ⟨_ | e, s1⟩
      · rw [h1] at hrun
        cases hrun
      · rw [h1] at hrun
        simp only [bind_run] at hrun
        rcases h2 : performAll c clock calls s1 with ⟨_ | es', s2⟩
        · rw [h2] at hrun
          cases hrun
        · rw [h2] at hrun
          cases hrun
          rw [List.length_cons, List.length_cons, ih h2]

/-- By induction on the events that come before. -/
theorem Happens.split {l r : List (Event α)} (hh : Happens c clock h s (l ++ r)) (hs : Follows c h s) :
    ∃ s', Follows c (h ++ l) s' ∧ Happens c clock (h ++ l) s' r := by
  induction l generalizing h s with
  | nil => exact ⟨s, by rwa [List.append_nil], by rwa [List.append_nil]⟩
  | cons e l ih =>
      cases hh with
      | next _ hs' hrest =>
          obtain ⟨s', h1, h2⟩ := ih hrest hs'
          rw [List.append_assoc] at h1 h2
          exact ⟨s', h1, h2⟩

/-- Each call brings a usable entity nearer, by induction on the events. -/
theorem Happens.fair {mid r : List (Event α)} (hm : c.selectionMethod = .roundRobin)
    (ha : a ∈ c.failables) (hh : Happens c clock h s (mid ++ r)) (hstay : StaysUsable c clock h mid a)
    (hcount : distance c.failables a s.iterator < mid.countP Event.isAsked) :
    ∃ before after, Event.asked before after 0 a ∈ mid := by
  induction mid generalizing h s with
  | nil => exact absurd hcount (Nat.not_lt_zero _)
  | cons e mid ih =>
      have rest : StaysUsable c clock (h ++ [e]) mid a := by
        intro l r before after d x hl
        have h1 := hstay (e :: l) r before after d x (by rw [hl]; rfl)
        rw [List.append_assoc]
        exact h1
      have later : (∃ before after, Event.asked before after 0 a ∈ mid) →
          ∃ before after, Event.asked before after 0 a ∈ e :: mid :=
        fun ⟨before, after, hin⟩ => ⟨before, after, List.mem_cons_of_mem _ hin⟩
      cases hh with
      | @next _ _ _ s' _ he _ hrest =>
          cases e with
          | failed b t =>
              have hit : s'.iterator = s.iterator := he
              exact later (ih hrest rest (by rw [hit]; exact hcount))
          | cleared b =>
              have hit : s'.iterator = s.iterator := he
              exact later (ih hrest rest (by rw [hit]; exact hcount))
          | asked before after d x =>
              obtain ⟨rfl, rfl, hasked⟩ := he
              have husable := hstay [] mid s.readings s'.readings d x rfl
              rw [List.append_nil] at husable
              rcases hasked.nearer hm a ha husable with ⟨rfl, rfl⟩ | hnear
              · exact ⟨_, _, List.mem_cons_self ..⟩
              · rw [List.countP_cons_of_pos rfl] at hcount
                exact later (ih hrest rest (by omega))

/-- Whatever the calls and the clock are, every call gives out an entity as promised. -/
theorem performAll_failover (c : FailableCollection α) {clock : Nat → Int} (hclock : NeverGoesBack clock)
    (calls : List (Call c)) :
    ∃ h s, performAll c clock calls c.init = (.ok h, s) ∧ h.length = calls.length ∧
      Failover c clock h := by
  obtain ⟨h, s, hrun, hh⟩ := performAll_run hclock calls [] c.init follows_init
  refine ⟨h, s, hrun, performAll_length hrun, fun l r before after d e hl => ?_,
    fun hm l mid r hl hcount a ha hstay => ?_⟩
  · rw [hl] at hh
    obtain ⟨s1, _, h1⟩ := hh.split follows_init
    cases h1 with
    | next he _ _ =>
        obtain ⟨rfl, rfl, hasked⟩ := he
        exact hasked.givesOut
  · rw [hl, List.append_assoc] at hh
    obtain ⟨s1, hs1, h1⟩ := hh.split follows_init
    exact h1.fair hm ha hstay (lt_of_lt_of_le (distance_lt ha hs1.iterator) hcount)

/-- Two agents, and a clock that shows the number of the reading. -/
def sampleAgents : FailableCollection String where
  failables := ["a", "b"]
  failureTimeout := 10
  selectionMethod := .roundRobin
  nonEmpty := nofun
  distinct := by decide

theorem sampleClock_neverGoesBack : NeverGoesBack fun k : Nat => (k : Int) :=
  fun _ _ h => Int.ofNat_le.mpr h

/-- `a` fails, `b` is given out, and when `b` has failed too, `a` after a delay. -/
def sampleCalls : List (Call sampleAgents) :=
  [.setFailure ⟨"a", by decide⟩, .nextDelayAndEntity, .setFailure ⟨"b", by decide⟩,
    .nextDelayAndEntity]

theorem sampleAgents_failover : (NeverGoesBack fun k : Nat => (k : Int)) ∧
    ∃ h s, performAll sampleAgents (fun k => (k : Int)) sampleCalls sampleAgents.init = (.ok h, s) ∧
      h.length = sampleCalls.length ∧ Failover sampleAgents (fun k => (k : Int)) h :=
  ⟨sampleClock_neverGoesBack, performAll_failover sampleAgents sampleClock_neverGoesBack sampleCalls⟩

end Failable
