import Mathlib.Logic.Function.Basic
import Mathlib.Data.Option.Basic
import SchedulerEngine.ExecutionProofs
import SchedulerEngine.FileBasedProofs
import SchedulerEngine.OrderedMapProofs
import SchedulerEngine.RunInvariantProofs

/-! # Schedules that cover other schedules

    A schedule with `substitute` covers another one from a `valid_from` to a
    `valid_to`: it is entered in the other's map and points to it.  Both sides are
    kept while schedules are loaded, changed, replaced and removed, and while the
    users of a schedule, who are told of each change, may fail. -/

set_option linter.unusedSectionVars false

namespace ScheduleCover

open Execution Exec FileBased OrderedMap RunInvariant

variable {S : Type} [DecidableEq S]

/-! ## The schedules -/

/-- `Schedule::Inlay`.  SCHEDULER-464 refuses an empty interval. -/
structure Inlay where
  /-- The object; two inlays with the same content are two objects. -/
  id : Nat
  coveredSchedulePath : String
  coveredScheduleBegin : Int
  coveredScheduleEnd : Int
  begin_lt : coveredSchedulePath ≠ "" → coveredScheduleBegin < coveredScheduleEnd
deriving DecidableEq

structure Names (S : Type) where
  /-- `normalized_path()` -/
  path : S → String
  objName : S → String
  normalizedPath : String → String

/-- The members of every schedule, and the map of the subsystem. -/
structure Schedules (S : Type) where
  state : S → State
  inlay : S → Option Inlay
  requisites : S → List String
  coveringSchedules : S → List (Int × S)
  coveredSchedule : S → Option S
  scheduleOrNull : String → Option S

namespace Schedules

variable (g : Schedules S) (s : S)

def coveredSchedulePath : String := ((g.inlay s).map Inlay.coveredSchedulePath).getD ""

def coveredScheduleBegin : Int := ((g.inlay s).map Inlay.coveredScheduleBegin).getD 0

def coveredScheduleEnd : Int := ((g.inlay s).map Inlay.coveredScheduleEnd).getD 0

def isCovering : Bool := g.coveredSchedulePath s ≠ ""

/-- `file_based_state() >= s_loaded` -/
def IsLoaded : Prop := State.rank .loaded ≤ (g.state s).rank

instance : Decidable (g.IsLoaded s) := inferInstanceAs (Decidable (_ ≤ _))

def setFileBasedState (state : State) : Schedules S :=
  { g with state := Function.update g.state s state }

/-- `_inlay = inlay` -/
def putInlay (i : Option Inlay) : Schedules S :=
  { g with inlay := Function.update g.inlay s i }

def addRequisite (path : String) : Schedules S :=
  { g with requisites := Function.update g.requisites s ((g.requisites s).insert path) }

def removeRequisite (path : String) : Schedules S :=
  { g with
    requisites := Function.update g.requisites s ((g.requisites s).filter fun p => p ≠ path) }

/-- `_covering_schedules[ begin ] = covering_schedule` -/
def enter (t : S) : Schedules S :=
  { g with
    coveringSchedules := Function.update g.coveringSchedules t
      (assign (g.coveredScheduleBegin s) s (g.coveringSchedules t)) }

/-- `_covering_schedules.erase( begin )` -/
def cut (t : S) : Schedules S :=
  { g with
    coveringSchedules := Function.update g.coveringSchedules t
      (erase (g.coveredScheduleBegin s) (g.coveringSchedules t)) }

/-- `_covered_schedule = covered` -/
def setCovered (covered : Option S) : Schedules S :=
  { g with coveredSchedule := Function.update g.coveredSchedule s covered }

/-- The entry of the subsystem under a path. -/
def putName (path : String) (named : Option S) : Schedules S :=
  { g with scheduleOrNull := Function.update g.scheduleOrNull path named }

end Schedules

abbrev Call (S α : Type) : Type := Exec (Schedules S) Failure α

/-! ## The methods

    What the users of a schedule do when they are told of a change is not known
    here: `env` says with which failure they end, if they fail. -/

section Methods

variable (c : Names S) (env : S → Option Failure)

/-- `on_schedule_modified` -/
def onScheduleModified (s : S) : Call S Unit :=
  match env s with
  | none => pure ()
  | some e => throw e

def assertNoOverlappedCovering (t s : S) : Call S Unit := do
  let g ← get
  match beforeLowerBound (g.coveredScheduleEnd s) (g.coveringSchedules t) with
  | none => pure ()
  | some before =>
      require (g.coveredScheduleEnd before.2 ≤ g.coveredScheduleBegin s)
        (.xc "SCHEDULER-465" [c.objName s, c.objName before.2])

def coverWithSchedule (t s : S) : Call S Unit := do
  let g ← get
  require (!g.isCovering t) (.xc "SCHEDULER-463" [c.objName t, c.objName s])
  assertNoOverlappedCovering c t s
  modify fun g => g.enter s t
  onScheduleModified env t

def uncoverFromSchedule (t s : S) : Call S Unit := do
  let g ← get
  require ((g.coveringSchedules t).any fun e => e.1 = g.coveredScheduleBegin s)
    (.assertion "_covering_schedules.find( begin ) != _covering_schedules.end()")
  modify fun g => g.cut s t
  onScheduleModified env t

def tryConnectCoveredSchedule (s : S) : Call S Bool := do
  let g ← get
  onlyIf (g.coveredSchedule s = none ∧ g.coveredSchedulePath s ≠ "") do
    match g.scheduleOrNull (c.normalizedPath (g.coveredSchedulePath s)) with
    | some t => do
        coverWithSchedule c env t s
        modify fun g => g.setCovered s (some t)
    | none => onlyIf (g.state s = .active) (modify fun g => g.setFileBasedState s .incomplete)
  let g ← get
  pure (g.coveredSchedule s).isSome

def tryLoadInlay (s : S) : Call S Bool := do
  let g ← get
  if g.coveredSchedulePath s ≠ "" then tryConnectCoveredSchedule c env s else pure true

def disconnectCoveredSchedule (s : S) : Call S Unit := do
  let g ← get
  match g.coveredSchedule s with
  | none => pure ()
  | some t => do
      uncoverFromSchedule env t s
      modify fun g => g.setCovered s none
      let g ← get
      onlyIf (g.state s = .active
          ∧ c.normalizedPath (g.coveredSchedulePath s) ∈ g.requisites s)
        (modify fun g => g.setFileBasedState s .incomplete)

def initializeInlay (s : S) : Call S Unit := do
  let g ← get
  onlyIf (g.coveredSchedulePath s ≠ "") do
    require (c.path s ≠ c.normalizedPath (g.coveredSchedulePath s))
      (.xc "SCHEDULER-486" [c.objName s])
    modify fun g => g.addRequisite s (c.normalizedPath (g.coveredSchedulePath s))

/-- The first part of `set_inlay`, about the inlay that goes. -/
def releaseInlay (s : S) : Call S Unit := do
  let g ← get
  onlyIf (g.coveredSchedulePath s ≠ "") do
    modify fun g => g.removeRequisite s (c.normalizedPath (g.coveredSchedulePath s))
    disconnectCoveredSchedule c env s

/-- The last part, about the inlay that has come. -/
def engageInlay (s : S) : Call S Unit := do
  let g ← get
  onlyIf (State.rank .initialized ≤ (g.state s).rank) do
    initializeInlay c s
    onlyIf (g.IsLoaded s) do
      let _ ← tryLoadInlay c env s
      onScheduleModified env s

def setInlay (s : S) (i : Option Inlay) : Call S Unit := do
  let g ← get
  onlyIf (g.inlay s ≠ i) do
    releaseInlay c env s
    modify fun g => g.putInlay s i
    onlyIf (i ≠ none) (engageInlay c env s)

/-- `disconnect_covering_schedules` and `set_inlay( NULL )`.  After its assertion
    the former has nothing left to do. -/
def close (t : S) : Call S Unit := do
  let g ← get
  require (g.coveringSchedules t).isEmpty (.assertion "_covering_schedules.empty()")
  setInlay c env t none

/-- `File_based::initialize` -/
def initializeFileBased (s : S) : Call S Unit := do
  initializeInlay c s
  modify fun g => g.setFileBasedState s .initialized

/-- `File_based::load` -/
def loadFileBased (s : S) : Call S Unit := do
  let _ ← tryLoadInlay c env s
  modify fun g => g.setFileBasedState s .loaded

/-- `File_based::activate` -/
def activateFileBased (s : S) : Call S Unit := do
  let ok ← tryLoadInlay c env s
  modify fun g => g.setFileBasedState s (if ok then .active else .incomplete)

def onReplaceNow (s replacement : S) : Call S Unit := do
  let g ← get
  setInlay c env s (g.inlay replacement)
  modify fun g => g.putInlay replacement none
  onScheduleModified env s

def onRequisiteToBeRemoved (t s : S) : Call S Unit := do
  let g ← get
  match g.coveredSchedule s with
  | none => pure ()
  | some u => do
      require (u = t) (.assertion "file_based == _covered_schedule")
      disconnectCoveredSchedule c env s

/-- `announce_requisite_to_be_removed`, with the schedules it reaches.  Users that are
    not schedules may end it early. -/
def announceRequisiteToBeRemoved (t : S) (reached : List S) : Call S Unit :=
  forEach (onRequisiteToBeRemoved c env t) reached

/-- `Typed_folder::add_file_based` -/
def addFileBased (t : S) : Call S Unit :=
  modify fun g => g.putName (c.path t) (some t)

/-- `Typed_folder::remove_file_based`; a failure of `close` is logged. -/
def removeFileBased (t : S) : Call S Unit := do
  modify fun g => g.putName (c.path t) none
  tryCatch (close c env t) fun _ => pure ()

end Methods

/-! ## Both sides of a covering -/

/-- What holds between the operations.  A schedule in `fresh` is being loaded. -/
structure Linked (c : Names S) (fresh : S → Prop) (g : Schedules S) : Prop where
  sorted : ∀ t, Sorted (g.coveringSchedules t)
  covered_of_entry : ∀ t, ∀ e ∈ g.coveringSchedules t, g.coveredSchedule e.2 = some t
  key_eq : ∀ t, ∀ e ∈ g.coveringSchedules t, e.1 = g.coveredScheduleBegin e.2
  entry : ∀ s t, g.coveredSchedule s = some t →
    (g.coveredScheduleBegin s, s) ∈ g.coveringSchedules t
  named : ∀ s t, g.coveredSchedule s = some t →
    g.coveredSchedulePath s ≠ "" ∧
      g.scheduleOrNull (c.normalizedPath (g.coveredSchedulePath s)) = some t
  disjoint : ∀ t, ∀ e ∈ g.coveringSchedules t, ∀ d ∈ g.coveringSchedules t, e.1 < d.1 →
    g.coveredScheduleEnd e.2 ≤ d.1
  alone : ∀ t, g.coveringSchedules t ≠ [] → g.coveredSchedule t = none
  loaded : ∀ s t, g.coveredSchedule s = some t → fresh s ∨ g.IsLoaded s

variable {c : Names S} {env : S → Option Failure} {fresh : S → Prop} {g g' : Schedules S}
  {s t u x : S} {i : Inlay}

/-- The inlay of a schedule that covers has an interval that is not empty. -/
theorem begin_lt_end (h : g.coveredSchedulePath s ≠ "") :
    g.coveredScheduleBegin s < g.coveredScheduleEnd s := by
  rw [Schedules.coveredSchedulePath] at h
  rw [Schedules.coveredScheduleBegin, Schedules.coveredScheduleEnd]
  cases hi : g.inlay s with
  | none =>
      rw [hi] at h
      exact absurd rfl h
  | some i =>
      rw [hi] at h
      exact i.begin_lt h

/-- The requisites do not matter, and a schedule may be advanced. -/
theorem Linked.frame (h : Linked c fresh g) (hi : g'.inlay = g.inlay)
    (hc : g'.coveringSchedules = g.coveringSchedules) (hd : g'.coveredSchedule = g.coveredSchedule)
    (hm : g'.scheduleOrNull = g.scheduleOrNull) (hs : ∀ x, g.IsLoaded x → g'.IsLoaded x) :
    Linked c fresh g' := by
  have hpath : ∀ x, g'.coveredSchedulePath x = g.coveredSchedulePath x := by
    intro x
    rw [Schedules.coveredSchedulePath, hi]
    rfl
  have hbegin : ∀ x, g'.coveredScheduleBegin x = g.coveredScheduleBegin x := by
    intro x
    rw [Schedules.coveredScheduleBegin, hi]
    rfl
  have hend : ∀ x, g'.coveredScheduleEnd x = g.coveredScheduleEnd x := by
    intro x
    rw [Schedules.coveredScheduleEnd, hi]
    rfl
  constructor
  · rw [hc]
    exact h.sorted
  · rw [hc, hd]
    exact h.covered_of_entry
  · intro t e
    rw [hc, hbegin]
    exact h.key_eq t e
  · intro s t
    rw [hc, hd, hbegin]
    exact h.entry s t
  · intro s t
    rw [hd, hpath, hm]
    exact h.named s t
  · intro t e
    rw [hc, hend]
    exact h.disjoint t e
  · rw [hc, hd]
    exact h.alone
  · intro s t hcov
    rw [hd] at hcov
    exact (h.loaded s t hcov).imp_right (hs s)

/-- A schedule that covers nothing is entered nowhere. -/
theorem Linked.ne_of_entry (h : Linked c fresh g) (hs : g.coveredSchedule s = none)
    {e : Int × S} (he : e ∈ g.coveringSchedules t) : e.2 ≠ s := by
  intro hes
  have := h.covered_of_entry t e he
  rw [hes, hs] at this
  cases this

/-- Without `substitute` a schedule covers nothing. -/
theorem Linked.covered_none (h : Linked c fresh g) (hp : g.coveredSchedulePath s = "") :
    g.coveredSchedule s = none := by
  cases hc : g.coveredSchedule s with
  | none => rfl
  | some t => exact absurd hp (h.named s t hc).1

/-- What covers nothing may get any inlay. -/
theorem Linked.putInlay (h : Linked c fresh g) (hs : g.coveredSchedule s = none)
    (i : Option Inlay) : Linked c fresh (g.putInlay s i) := by
  have hi : ∀ x, x ≠ s → (g.putInlay s i).inlay x = g.inlay x :=
    fun x hx => Function.update_of_ne hx _ _
  have hpath : ∀ x, x ≠ s → (g.putInlay s i).coveredSchedulePath x = g.coveredSchedulePath x := by
    intro x hx
    rw [Schedules.coveredSchedulePath, hi x hx]
    rfl
  have hbegin : ∀ x, x ≠ s →
      (g.putInlay s i).coveredScheduleBegin x = g.coveredScheduleBegin x := by
    intro x hx
    rw [Schedules.coveredScheduleBegin, hi x hx]
    rfl
  have hend : ∀ x, x ≠ s → (g.putInlay s i).coveredScheduleEnd x = g.coveredScheduleEnd x := by
    intro x hx
    rw [Schedules.coveredScheduleEnd, hi x hx]
    rfl
  have hne : ∀ x t, g.coveredSchedule x = some t → x ≠ s := by
    rintro x t hx rfl
    rw [hs] at hx
    cases hx
  constructor
  · exact h.sorted
  · exact h.covered_of_entry
  · intro t e he
    rw [hbegin e.2 (h.ne_of_entry hs he)]
    exact h.key_eq t e he
  · intro x t hx
    rw [hbegin x (hne x t hx)]
    exact h.entry x t hx
  · intro x t hx
    rw [hpath x (hne x t hx)]
    exact h.named x t hx
  · intro t e he
    rw [hend e.2 (h.ne_of_entry hs he)]
    exact h.disjoint t e he
  · exact h.alone
  · exact h.loaded

/-! ## A covering begins -/

/-- The check of the neighbour before the end finds every overlap. -/
theorem disjoint_of_before (h : Linked c fresh g)
    (hb : ∀ b, beforeLowerBound (g.coveredScheduleEnd s) (g.coveringSchedules t) = some b →
      g.coveredScheduleEnd b.2 ≤ g.coveredScheduleBegin s) :
    ∀ e ∈ g.coveringSchedules t,
      g.coveredScheduleEnd e.2 ≤ g.coveredScheduleBegin s ∨ g.coveredScheduleEnd s ≤ e.1 := by
  intro e he
  by_cases hlt : e.1 < g.coveredScheduleEnd s
  · left
    cases hbef : beforeLowerBound (g.coveredScheduleEnd s) (g.coveringSchedules t) with
    | none => exact absurd hlt (not_lt_of_ge (beforeLowerBound_none hbef (h.sorted t) he))
    | some b =>
        have hbmem := (beforeLowerBound_some hbef).1
        rcases lt_or_eq_of_le (le_beforeLowerBound (h.sorted t) hbef he hlt) with hlt | heq
        · -- an earlier entry ends before the neighbour begins
          have h1 := h.disjoint t e he b hbmem hlt
          have h2 : b.1 < g.coveredScheduleEnd b.2 := by
            rw [h.key_eq t b hbmem]
            exact begin_lt_end (h.named b.2 t (h.covered_of_entry t b hbmem)).1
          exact le_trans h1 (le_trans (le_of_lt h2) (hb b hbef))
        · rw [(h.sorted t).eq_of_key_eq he hbmem heq]
          exact hb b hbef
  · exact Or.inr (le_of_not_gt hlt)

/-- Both sides of a covering are entered. -/
theorem Linked.connect (h : Linked c fresh g) (hs : g.coveredSchedule s = none)
    (hp : g.coveredSchedulePath s ≠ "")
    (hm : g.scheduleOrNull (c.normalizedPath (g.coveredSchedulePath s)) = some t)
    (ht : g.coveredSchedulePath t = "")
    (hd : ∀ e ∈ g.coveringSchedules t,
      g.coveredScheduleEnd e.2 ≤ g.coveredScheduleBegin s ∨ g.coveredScheduleEnd s ≤ e.1)
    (halone : g.coveringSchedules s = []) (hl : fresh s ∨ g.IsLoaded s) :
    Linked c fresh ((g.enter s t).setCovered s (some t)) := by
  have hts : t ≠ s := by
    rintro rfl
    exact hp ht
  have hbe := begin_lt_end hp
  -- the entries of the covered schedule, and of the others
  have hself : ((g.enter s t).setCovered s (some t)).coveringSchedules t
      = assign (g.coveredScheduleBegin s) s (g.coveringSchedules t) := Function.update_self _ _ _
  have hother : ∀ x, x ≠ t →
      ((g.enter s t).setCovered s (some t)).coveringSchedules x = g.coveringSchedules x :=
    fun x hx => Function.update_of_ne hx _ _
  have hcs : ((g.enter s t).setCovered s (some t)).coveredSchedule s = some t :=
    Function.update_self _ _ _
  have hco : ∀ x, x ≠ s →
      ((g.enter s t).setCovered s (some t)).coveredSchedule x = g.coveredSchedule x :=
    fun x hx => Function.update_of_ne hx _ _
  -- no key is taken
  have hkey : ∀ e ∈ g.coveringSchedules t, e.1 ≠ g.coveredScheduleBegin s := by
    intro e he heq
    have h1 : e.1 < g.coveredScheduleEnd e.2 := by
      rw [h.key_eq t e he]
      exact begin_lt_end (h.named e.2 t (h.covered_of_entry t e he)).1
    rcases hd e he with h2 | h2
    · exact absurd heq (ne_of_lt (lt_of_lt_of_le h1 h2))
    · exact absurd heq (ne_of_gt (lt_of_lt_of_le hbe h2))
  have hmem : ∀ e, e ∈ ((g.enter s t).setCovered s (some t)).coveringSchedules t ↔
      e = (g.coveredScheduleBegin s, s) ∨ e ∈ g.coveringSchedules t := by
    intro e
    rw [hself, mem_assign (h.sorted t)]
    exact or_congr_right ⟨fun he => he.1, fun he => ⟨he, hkey e he⟩⟩
  constructor
  · intro x
    by_cases hx : x = t
    · subst hx
      rw [hself]
      exact (h.sorted x).assign
    · rw [hother x hx]
      exact h.sorted x
  · intro x e he
    by_cases hx : x = t
    · subst hx
      rcases (hmem e).mp he with rfl | he
      · exact hcs
      · rw [hco e.2 (h.ne_of_entry hs he)]
        exact h.covered_of_entry x e he
    · rw [hother x hx] at he
      rw [hco e.2 (h.ne_of_entry hs he)]
      exact h.covered_of_entry x e he
  · intro x e he
    by_cases hx : x = t
    · subst hx
      rcases (hmem e).mp he with rfl | he
      · rfl
      · exact h.key_eq x e he
    · rw [hother x hx] at he
      exact h.key_eq x e he
  · intro x y hxy
    by_cases hx : x = s
    · subst hx
      rw [hcs] at hxy
      cases hxy
      exact (hmem _).mpr (Or.inl rfl)
    · rw [hco x hx] at hxy
      by_cases hy : y = t
      · subst hy
        exact (hmem _).mpr (Or.inr (h.entry x y hxy))
      · rw [hother y hy]
        exact h.entry x y hxy
  · intro x y hxy
    by_cases hx : x = s
    · subst hx
      rw [hcs] at hxy
      cases hxy
      exact ⟨hp, hm⟩
    · rw [hco x hx] at hxy
      exact h.named x y hxy
  · intro x e he d hd' hlt
    by_cases hx : x = t
    · subst hx
      rcases (hmem e).mp he with rfl | he
      · rcases (hmem d).mp hd' with rfl | hd'
        · exact absurd hlt (lt_irrefl _)
        · -- the new one before another
          rcases hd d hd' with h2 | h2
          · have h1 : d.1 < g.coveredScheduleEnd d.2 := by
              rw [h.key_eq x d hd']
              exact begin_lt_end (h.named d.2 x (h.covered_of_entry x d hd')).1
            exact absurd hlt (not_lt_of_ge (le_trans (le_of_lt h1) h2))
          · exact h2
      · rcases (hmem d).mp hd' with rfl | hd'
        · rcases hd e he with h2 | h2
          · exact h2
          · exact absurd hlt (not_lt_of_ge (le_trans (le_of_lt hbe) h2))
        · exact h.disjoint x e he d hd' hlt
    · rw [hother x hx] at he hd'
      exact h.disjoint x e he d hd' hlt
  · intro x hx
    by_cases hxs : x = s
    · subst hxs
      rw [hother x (Ne.symm hts)] at hx
      exact absurd halone hx
    · rw [hco x hxs]
      by_cases hxt : x = t
      · subst hxt
        exact h.covered_none ht
      · rw [hother x hxt] at hx
        exact h.alone x hx
  · intro x y hxy
    by_cases hx : x = s
    · subst hx
      exact hl
    · rw [hco x hx] at hxy
      exact h.loaded x y hxy

/-! ## A covering ends -/

/-- The state after `s` has been disconnected. -/
structure Left (c : Names S) (fresh : S → Prop) (s : S) (g g' : Schedules S) : Prop where
  linked : Linked c fresh g'
  covered_none : g'.coveredSchedule s = none
  covered_of_ne : ∀ x, x ≠ s → g'.coveredSchedule x = g.coveredSchedule x
  inlay_eq : g'.inlay = g.inlay
  map_eq : g'.scheduleOrNull = g.scheduleOrNull
  entries : ∀ x e, e ∈ g'.coveringSchedules x ↔ e ∈ g.coveringSchedules x ∧ e.2 ≠ s
  loaded : ∀ x, g'.IsLoaded x ↔ g.IsLoaded x

theorem isLoaded_setFileBasedState {state : State} :
    (g.setFileBasedState s state).IsLoaded x ↔
      if x = s then State.rank .loaded ≤ state.rank else g.IsLoaded x := by
  show State.rank .loaded ≤ (Function.update g.state s state x).rank ↔ _
  by_cases hx : x = s
  · subst hx
    rw [if_pos rfl, Function.update_self]
  · rw [if_neg hx, Function.update_of_ne hx]
    rfl

/-- What covers nothing has left already. -/
theorem Left.refl (h : Linked c fresh g) (hs : g.coveredSchedule s = none) :
    Left c fresh s g g where
  linked := h
  covered_none := hs
  covered_of_ne := fun _ _ => rfl
  inlay_eq := rfl
  map_eq := rfl
  entries := fun _ _ => ⟨fun he => ⟨he, h.ne_of_entry hs he⟩, fun he => he.1⟩
  loaded := fun _ => Iff.rfl

/-- Afterwards the requisites may change, and an active schedule may become incomplete. -/
theorem Left.frame {g₁ : Schedules S} (h : Left c fresh s g g₁) (hi : g'.inlay = g₁.inlay)
    (hc : g'.coveringSchedules = g₁.coveringSchedules)
    (hd : g'.coveredSchedule = g₁.coveredSchedule)
    (hm : g'.scheduleOrNull = g₁.scheduleOrNull)
    (hs : ∀ x, g'.IsLoaded x ↔ g₁.IsLoaded x) : Left c fresh s g g' where
  linked := h.linked.frame hi hc hd hm fun x => (hs x).mpr
  covered_none := by
    rw [hd]
    exact h.covered_none
  covered_of_ne := by
    rw [hd]
    exact h.covered_of_ne
  inlay_eq := hi.trans h.inlay_eq
  map_eq := hm.trans h.map_eq
  entries := by
    rw [hc]
    exact h.entries
  loaded := fun x => (hs x).trans (h.loaded x)

/-- Both sides of a covering are removed. -/
theorem Linked.disconnect (h : Linked c fresh g) (hs : g.coveredSchedule s = some t) :
    Left c fresh s g ((g.cut s t).setCovered s none) := by
  have hself : ((g.cut s t).setCovered s none).coveringSchedules t
      = erase (g.coveredScheduleBegin s) (g.coveringSchedules t) := Function.update_self _ _ _
  have hother : ∀ x, x ≠ t →
      ((g.cut s t).setCovered s none).coveringSchedules x = g.coveringSchedules x :=
    fun x hx => Function.update_of_ne hx _ _
  have hcs : ((g.cut s t).setCovered s none).coveredSchedule s = none :=
    Function.update_self _ _ _
  have hco : ∀ x, x ≠ s →
      ((g.cut s t).setCovered s none).coveredSchedule x = g.coveredSchedule x :=
    fun x hx => Function.update_of_ne hx _ _
  -- the key is the one of `s`, and no other has it
  have hkey : ∀ e ∈ g.coveringSchedules t, e.1 ≠ g.coveredScheduleBegin s ↔ e.2 ≠ s := by
    intro e he
    constructor
    · rintro hne rfl
      exact hne (h.key_eq t e he)
    · intro hne heq
      have := (h.sorted t).eq_of_key_eq he (h.entry s t hs) heq
      exact hne (congrArg Prod.snd this)
  have hentries : ∀ x e, e ∈ ((g.cut s t).setCovered s none).coveringSchedules x ↔
      e ∈ g.coveringSchedules x ∧ e.2 ≠ s := by
    intro x e
    by_cases hx : x = t
    · subst hx
      rw [hself, mem_erase]
      exact and_congr_right (hkey e)
    · rw [hother x hx]
      refine ⟨fun he => ⟨he, ?_⟩, fun he => he.1⟩
      rintro rfl
      have := h.covered_of_entry x e he
      rw [hs] at this
      cases this
      exact hx rfl
  have hsome : ∀ {x y}, ((g.cut s t).setCovered s none).coveredSchedule x = some y →
      x ≠ s ∧ g.coveredSchedule x = some y := by
    intro x y hxy
    have hx : x ≠ s := by
      rintro rfl
      rw [hcs] at hxy
      cases hxy
    rw [hco x hx] at hxy
    exact ⟨hx, hxy⟩
  refine ⟨?_, hcs, hco, rfl, rfl, hentries, fun _ => Iff.rfl⟩
  constructor
  · intro x
    by_cases hx : x = t
    · subst hx
      rw [hself]
      exact (h.sorted x).erase
    · rw [hother x hx]
      exact h.sorted x
  · intro x e he
    obtain ⟨he, hne⟩ := (hentries x e).mp he
    rw [hco e.2 hne]
    exact h.covered_of_entry x e he
  · intro x e he
    exact h.key_eq x e ((hentries x e).mp he).1
  · intro x y hxy
    obtain ⟨hx, hxy⟩ := hsome hxy
    exact (hentries y _).mpr ⟨h.entry x y hxy, hx⟩
  · intro x y hxy
    exact h.named x y (hsome hxy).2
  · intro x e he d hd
    exact h.disjoint x e ((hentries x e).mp he).1 d ((hentries x d).mp hd).1
  · intro x hx
    by_cases hxs : x = s
    · rw [hxs]
      exact hcs
    · rw [hco x hxs]
      refine h.alone x fun hnil => hx ?_
      refine List.eq_nil_iff_forall_not_mem.mpr fun e he => ?_
      have := ((hentries x e).mp he).1
      rw [hnil] at this
      cases this
  · intro x y hxy
    exact h.loaded x y (hsome hxy).2

/-- Nobody who is told fails when `s` leaves what it covers. -/
def Leaves (env : S → Option Failure) (g : Schedules S) (s : S) : Prop :=
  ∀ t ∈ g.coveredSchedule s, env t = none

theorem onScheduleModified_of_quiet (h : env s = none) :
    onScheduleModified env s g = (.ok (), g) := by
  rw [onScheduleModified, h]
  rfl

/-- The entry is found. -/
theorem uncoverFromSchedule_spec (h : Linked c fresh g) (hs : g.coveredSchedule s = some t)
    (ht : env t = none) : uncoverFromSchedule env t s g = (.ok (), g.cut s t) := by
  have hany : ((g.coveringSchedules t).any fun e => e.1 = g.coveredScheduleBegin s) = true :=
    List.any_eq_true.mpr ⟨_, h.entry s t hs, decide_eq_true rfl⟩
  rw [uncoverFromSchedule, bind_run, get_run]
  show (require _ _ >>= _ : Call S Unit) g = _
  rw [bind_run, require_run, if_pos hany]
  exact onScheduleModified_of_quiet ht

/-- An active schedule that becomes incomplete stays loaded. -/
theorem isLoaded_of_active (h : g.state s = .active) :
    (g.setFileBasedState s .incomplete).IsLoaded x ↔ g.IsLoaded x := by
  rw [isLoaded_setFileBasedState]
  by_cases hx : x = s
  · subst hx
    have hg : g.IsLoaded x := by
      rw [Schedules.IsLoaded, h]
      decide
    rw [if_pos rfl]
    exact iff_of_true (by decide) hg
  · rw [if_neg hx]

theorem disconnectCoveredSchedule_spec (h : Linked c fresh g) (hq : Leaves env g s) :
    ∃ g', disconnectCoveredSchedule c env s g = (.ok (), g') ∧ Left c fresh s g g' := by
  cases hs : g.coveredSchedule s with
  | none =>
      refine ⟨g, ?_, Left.refl h hs⟩
      simp only [disconnectCoveredSchedule, bind_run, get_run, hs]
      rfl
  | some t =>
      have hleft := h.disconnect hs
      simp only [disconnectCoveredSchedule, bind_run, get_run, hs,
        uncoverFromSchedule_spec h hs (hq t hs), modify_run, onlyIf]
      split
      · rename_i hc
        exact ⟨_, rfl, hleft.frame rfl rfl rfl rfl fun x => isLoaded_of_active hc.1⟩
      · exact ⟨_, rfl, hleft⟩

/-- The requisite goes first, then the covering. -/
theorem releaseInlay_spec (h : Linked c fresh g) (hq : Leaves env g s) :
    ∃ g', releaseInlay c env s g = (.ok (), g') ∧ Left c fresh s g g' := by
  simp only [releaseInlay, bind_run, get_run, onlyIf]
  split
  · rw [bind_run, modify_run]
    obtain ⟨g', hrun, hleft⟩ := disconnectCoveredSchedule_spec (s := s)
      (g := g.removeRequisite s (c.normalizedPath (g.coveredSchedulePath s)))
      (h.frame rfl rfl rfl rfl fun _ hx => hx) hq
    exact ⟨g', hrun, ⟨hleft.linked, hleft.covered_none, hleft.covered_of_ne, hleft.inlay_eq,
      hleft.map_eq, hleft.entries, hleft.loaded⟩⟩
  · rename_i hp
    exact ⟨g, rfl, Left.refl h (h.covered_none (not_not.mp hp))⟩

/-! ## The methods that connect -/

/-- `t` accepts `s`: it does not cover itself, and its neighbour ends before. -/
def Accepts (g : Schedules S) (t s : S) : Prop :=
  g.coveredSchedulePath t = "" ∧
    ∀ b ∈ beforeLowerBound (g.coveredScheduleEnd s) (g.coveringSchedules t),
      g.coveredScheduleEnd b.2 ≤ g.coveredScheduleBegin s

instance : Decidable (Accepts g t s) := inferInstanceAs (Decidable (_ ∧ _))

theorem isCovering_eq_false (h : g.coveredSchedulePath t = "") : g.isCovering t = false :=
  decide_eq_false (not_not.mpr h)

theorem coverWithSchedule_of_accepts (h : Accepts g t s) :
    coverWithSchedule c env t s g = onScheduleModified env t (g.enter s t) := by
  obtain ⟨hpath, hbefore⟩ := h
  simp only [coverWithSchedule, assertNoOverlappedCovering, bind_run, get_run, require_run,
    isCovering_eq_false hpath, Bool.not_false, if_true]
  cases hb : beforeLowerBound (g.coveredScheduleEnd s) (g.coveringSchedules t) with
  | none => simp only [pure_run, modify_run]
  | some b => simp only [require_run, decide_eq_true (hbefore b hb), if_true, modify_run]

/-- A covering that is rejected leaves everything as it was. -/
theorem coverWithSchedule_of_not_accepts (h : ¬Accepts g t s) :
    ∃ e, coverWithSchedule c env t s g = (.error e, g) := by
  by_cases hpath : g.coveredSchedulePath t = ""
  · have hne : ∃ b, beforeLowerBound (g.coveredScheduleEnd s) (g.coveringSchedules t) = some b ∧
        ¬g.coveredScheduleEnd b.2 ≤ g.coveredScheduleBegin s := by
      by_contra hall
      refine h ⟨hpath, fun b hb => ?_⟩
      by_contra hlt
      exact hall ⟨b, hb, hlt⟩
    obtain ⟨b, hb, hlt⟩ := hne
    refine ⟨.xc "SCHEDULER-465" [c.objName s, c.objName b.2], ?_⟩
    simp only [coverWithSchedule, assertNoOverlappedCovering, bind_run, get_run, require_run,
      isCovering_eq_false hpath, Bool.not_false, if_true, hb, decide_eq_false hlt,
      Bool.false_eq_true, if_false]
  · have hc : g.isCovering t = true := decide_eq_true hpath
    refine ⟨.xc "SCHEDULER-463" [c.objName t, c.objName s], ?_⟩
    simp only [coverWithSchedule, bind_run, get_run, require_run, hc, Bool.not_true,
      Bool.false_eq_true, if_false]

theorem coverWithSchedule_spec (he : Accepts g t s → env t = none) :
    Triple (fun h => h = g) (coverWithSchedule c env t s)
      (fun _ h => h = g.enter s t ∧ Accepts g t s) (fun _ h => h = g) := by
  intro h hg
  rw [hg]
  by_cases hacc : Accepts g t s
  · rw [coverWithSchedule_of_accepts hacc, onScheduleModified_of_quiet (he hacc)]
    exact ⟨rfl, hacc⟩
  · obtain ⟨e, hrun⟩ : ∃ e, coverWithSchedule c env t s g = (.error e, g) :=
      coverWithSchedule_of_not_accepts hacc
    rw [hrun]

/-- Where `s` is accepted, nobody fails who is told, and `s` is not covered itself. -/
def Enters (c : Names S) (env : S → Option Failure) (g : Schedules S) (s : S) : Prop :=
  g.coveredSchedulePath s ≠ "" →
    ∀ t, g.scheduleOrNull (c.normalizedPath (g.coveredSchedulePath s)) = some t →
      Accepts g t s → env t = none ∧ g.coveringSchedules s = []

theorem tryConnectCoveredSchedule_spec (h : Linked c fresh g) (hl : fresh s ∨ g.IsLoaded s)
    (he : g.coveredSchedule s = none → Enters c env g s) :
    Triple (fun h => h = g) (tryConnectCoveredSchedule c env s)
      (fun _ => Linked c fresh) (fun _ h => h = g) := by
  refine Triple.get_bind_at ?_
  refine Triple.bind (Q := fun _ => Linked c fresh) ?_ fun _ =>
    Triple.get_bind_any fun _ => Triple.pure fun _ hg => hg
  refine Triple.onlyIf ?_ ?_
  · rintro ⟨hs, hp⟩
    cases hm : g.scheduleOrNull (c.normalizedPath (g.coveredSchedulePath s)) with
    | none =>
        refine Triple.onlyIf (fun hact => Triple.modify ?_) fun _ => ?_
        · rintro _ rfl
          exact h.frame rfl rfl rfl rfl fun x => (isLoaded_of_active hact).mpr
        · rintro _ rfl
          exact h
    | some t =>
        refine Triple.bind (coverWithSchedule_spec fun hacc => (he hs hp t hm hacc).1) fun _ =>
          Triple.modify ?_
        rintro _ ⟨rfl, hacc⟩
        exact h.connect hs hp hm hacc.1 (disjoint_of_before h hacc.2) (he hs hp t hm hacc).2 hl
  · rintro _ _ rfl
    exact h

theorem tryLoadInlay_spec (h : Linked c fresh g) (hl : fresh s ∨ g.IsLoaded s)
    (he : g.coveredSchedule s = none → Enters c env g s) :
    Triple (fun h => h = g) (tryLoadInlay c env s)
      (fun _ => Linked c fresh) (fun _ h => h = g) := by
  refine Triple.get_bind_at (Triple.ite (fun _ => ?_) fun _ => Triple.pure ?_)
  · exact tryConnectCoveredSchedule_spec h hl he
  · rintro _ rfl
    exact h

/-- Only the requisites change. -/
theorem initializeInlay_spec :
    Triple (fun h => h = g) (initializeInlay c s)
      (fun _ g' => (∃ r, g' = { g with requisites := r }) ∧
        (g.coveredSchedulePath s ≠ "" →
          c.path s ≠ c.normalizedPath (g.coveredSchedulePath s)))
      (fun _ g' => g' = g) := by
  refine Triple.get_bind_at (Triple.onlyIf (fun _ => ?_) fun hp => ?_)
  · refine Triple.bind (Q := fun _ h => h = g ∧
        c.path s ≠ c.normalizedPath (g.coveredSchedulePath s)) ?_ fun _ => Triple.modify ?_
    · exact Triple.require (fun hc _ hg => ⟨hg, of_decide_eq_true hc⟩) fun _ _ hg => hg
    · rintro _ ⟨rfl, hne⟩
      exact ⟨⟨_, rfl⟩, fun _ => hne⟩
  · rintro _ rfl
    exact ⟨⟨_, rfl⟩, fun hne => absurd hne hp⟩

theorem onScheduleModified_keeps {I : Schedules S → Prop} :
    Keeps I (onScheduleModified env s) := by
  intro g hg
  rw [onScheduleModified]
  cases env s with
  | none => exact hg
  | some e => exact hg

theorem engageInlay_spec (h : Linked c fresh g)
    (he : g.IsLoaded s → c.path s ≠ c.normalizedPath (g.coveredSchedulePath s) →
      Enters c env g s) :
    Triple (fun h => h = g) (engageInlay c env s)
      (fun _ => Linked c fresh) (fun _ => Linked c fresh) := by
  refine Triple.get_bind_at (Triple.onlyIf (fun _ => ?_) fun _ => ?_)
  · refine Triple.bind (initializeInlay_spec.consequence (fun _ hg => hg) (fun _ _ hq => hq) ?_)
      fun _ => Triple.onlyIf (fun hl => ?_) fun _ => ?_
    · rintro _ _ rfl
      exact h
    · refine Triple.at_state ?_
      rintro _ ⟨⟨r, rfl⟩, hne⟩
      have h' : Linked c fresh { g with requisites := r } :=
        h.frame rfl rfl rfl rfl fun _ hx => hx
      have henters : { g with requisites := r }.coveredSchedule s = none →
          Enters c env { g with requisites := r } s := fun _ hp => he hl (hne hp) hp
      have hload := tryLoadInlay_spec h' (Or.inr hl) henters
      refine Triple.bind (hload.consequence (fun _ hg => hg) (fun _ _ hq => hq) ?_) fun _ =>
        onScheduleModified_keeps.triple
      rintro _ _ rfl
      exact h'
    · rintro _ ⟨⟨r, rfl⟩, _⟩
      exact h.frame rfl rfl rfl rfl fun _ hx => hx
  · rintro _ rfl
    exact h

/-! ## The condition -/

/-- The schedule that would accept `s` with the inlay `i`, looked at before the old
    inlay has been released. -/
def accepting (c : Names S) (g : Schedules S) (s : S) (i : Inlay) : Option S :=
  if i.coveredSchedulePath = "" ∨ c.path s = c.normalizedPath i.coveredSchedulePath then none
  else (g.scheduleOrNull (c.normalizedPath i.coveredSchedulePath)).filter fun t =>
    t ≠ s ∧ g.coveredSchedulePath t = "" ∧ ∀ e ∈ g.coveringSchedules t,
      e.2 = s ∨ g.coveredScheduleEnd e.2 ≤ i.coveredScheduleBegin ∨ i.coveredScheduleEnd ≤ e.1

/-- A schedule that is accepted with the inlay is not covered itself, and nobody who is
    told fails. -/
def Joins (c : Names S) (env : S → Option Failure) (g : Schedules S) (s : S) (i : Inlay) : Prop :=
  ∀ t ∈ accepting c g s i, env t = none ∧ g.coveringSchedules s = []

theorem accepting_eq_some (hp : i.coveredSchedulePath ≠ "")
    (hne : c.path s ≠ c.normalizedPath i.coveredSchedulePath)
    (hm : g.scheduleOrNull (c.normalizedPath i.coveredSchedulePath) = some t) (hts : t ≠ s)
    (ht : g.coveredSchedulePath t = "")
    (hd : ∀ e ∈ g.coveringSchedules t, e.2 = s ∨
      g.coveredScheduleEnd e.2 ≤ i.coveredScheduleBegin ∨ i.coveredScheduleEnd ≤ e.1) :
    accepting c g s i = some t := by
  rw [accepting, if_neg (fun h => h.elim hp hne), hm, Option.filter_some,
    if_pos (decide_eq_true ⟨hts, ht, hd⟩)]

/-- After the release and the exchange, the new inlay enters where it would have been
    accepted before. -/
theorem enters_of_joins {g₁ : Schedules S} (h : Left c fresh s g g₁) (hj : Joins c env g s i)
    (hne : c.path s ≠ c.normalizedPath i.coveredSchedulePath) :
    Enters c env (g₁.putInlay s (some i)) s := by
  intro hp t hm hacc
  have hi : (g₁.putInlay s (some i)).inlay s = some i := Function.update_self _ _ _
  have hio : ∀ x, x ≠ s → (g₁.putInlay s (some i)).inlay x = g.inlay x := by
    intro x hx
    rw [← h.inlay_eq]
    exact Function.update_of_ne hx _ _
  have hpath : (g₁.putInlay s (some i)).coveredSchedulePath s = i.coveredSchedulePath := by
    rw [Schedules.coveredSchedulePath, hi]
    rfl
  have hlinked := h.linked.putInlay h.covered_none (some i)
  have hts : t ≠ s := by
    rintro rfl
    exact hp hacc.1
  have ht : g.coveredSchedulePath t = "" := by
    rw [Schedules.coveredSchedulePath, ← hio t hts]
    exact hacc.1
  have hd : ∀ e ∈ g.coveringSchedules t, e.2 = s ∨
      g.coveredScheduleEnd e.2 ≤ i.coveredScheduleBegin ∨ i.coveredScheduleEnd ≤ e.1 := by
    intro e he
    by_cases hes : e.2 = s
    · exact Or.inl hes
    · have := disjoint_of_before hlinked hacc.2 e ((h.entries t e).mpr ⟨he, hes⟩)
      rw [Schedules.coveredScheduleBegin, Schedules.coveredScheduleEnd,
        Schedules.coveredScheduleEnd, hi, hio e.2 hes] at this
      exact Or.inr this
  rw [hpath] at hp hm
  have hm' : g.scheduleOrNull (c.normalizedPath i.coveredSchedulePath) = some t := by
    rw [← h.map_eq]
    exact hm
  obtain ⟨hquiet, halone⟩ := hj t (accepting_eq_some hp hne hm' hts ht hd)
  refine ⟨hquiet, List.eq_nil_iff_forall_not_mem.mpr fun e he => ?_⟩
  have := ((h.entries s e).mp he).1
  rw [halone] at this
  cases this

/-- `set_inlay` keeps both sides, whether it fails or not. -/
theorem setInlay_spec {j : Option Inlay} (h : Linked c fresh g)
    (hleave : g.inlay s ≠ j → Leaves env g s)
    (hjoin : g.inlay s ≠ j → ∀ i ∈ j, g.IsLoaded s → Joins c env g s i) :
    Triple (fun h => h = g) (setInlay c env s j)
      (fun _ => Linked c fresh) (fun _ => Linked c fresh) := by
  refine Triple.get_bind_at (Triple.onlyIf (fun hne => ?_) fun _ => ?_)
  · obtain ⟨g₁, hrun, hleft⟩ := releaseInlay_spec (c := c) (s := s) h (hleave hne)
    refine Triple.bind (Q := fun _ h => h = g₁) ?_ fun _ =>
      Triple.bind (Q := fun _ h => h = g₁.putInlay s j) (Triple.modify ?_) fun _ =>
        Triple.onlyIf (fun hj => ?_) fun _ => ?_
    · intro h' hg
      rw [hg, hrun]
    · rintro _ rfl
      rfl
    · have hlinked := hleft.linked.putInlay hleft.covered_none j
      obtain ⟨i, rfl⟩ := Option.ne_none_iff_exists'.mp hj
      refine engageInlay_spec hlinked fun hl hown => ?_
      have hpath : (g₁.putInlay s (some i)).coveredSchedulePath s = i.coveredSchedulePath := by
        rw [Schedules.coveredSchedulePath]
        show ((Function.update g₁.inlay s (some i) s).map Inlay.coveredSchedulePath).getD "" = _
        rw [Function.update_self]
        rfl
      rw [hpath] at hown
      exact enters_of_joins hleft (hjoin hne i rfl ((hleft.loaded s).mp hl)) hown
    · rintro _ rfl
      exact hleft.linked.putInlay hleft.covered_none j
  · rintro _ rfl
    exact h

/-! ## Other schedules keep what they cover -/

section Frame

variable {o : Option S}

theorem keeps_coverWithSchedule :
    Keeps (fun g => g.coveredSchedule x = o) (coverWithSchedule c env t s) := by
  refine Keeps.get_bind_any fun g => (Keeps.require _ _).bind fun _ =>
    Keeps.bind (Keeps.get_bind_any fun g => ?_) fun _ =>
      Keeps.bind (Keeps.modify fun _ hg => hg) fun _ => onScheduleModified_keeps
  cases beforeLowerBound (g.coveredScheduleEnd s) (g.coveringSchedules t) with
  | none => exact Keeps.pure _
  | some b => exact Keeps.require _ _

theorem keeps_uncoverFromSchedule :
    Keeps (fun g => g.coveredSchedule x = o) (uncoverFromSchedule env t s) :=
  Keeps.get_bind_any fun _ => (Keeps.require _ _).bind fun _ =>
    Keeps.bind (Keeps.modify fun _ hg => hg) fun _ => onScheduleModified_keeps

theorem keeps_setCovered (hx : x ≠ s) {covered : Option S} :
    Keeps (fun g => g.coveredSchedule x = o)
      (modify (fun g => g.setCovered s covered) : Call S Unit) :=
  Keeps.modify fun _ hg => (Function.update_of_ne hx _ _).trans hg

theorem keeps_tryLoadInlay (hx : x ≠ s) :
    Keeps (fun g => g.coveredSchedule x = o) (tryLoadInlay c env s) := by
  refine Keeps.get_bind_any fun g => Keeps.ite (fun _ => ?_) fun _ => Keeps.pure _
  refine Keeps.get_bind_any fun g => Keeps.bind (Keeps.onlyIf fun _ => ?_) fun _ =>
    Keeps.get_bind_any fun _ => Keeps.pure _
  cases g.scheduleOrNull (c.normalizedPath (g.coveredSchedulePath s)) with
  | none => exact Keeps.onlyIf fun _ => Keeps.modify fun _ hg => hg
  | some t => exact keeps_coverWithSchedule.bind fun _ => keeps_setCovered hx

theorem keeps_disconnectCoveredSchedule (hx : x ≠ s) :
    Keeps (fun g => g.coveredSchedule x = o) (disconnectCoveredSchedule c env s) := by
  refine Keeps.get_bind_any fun g => ?_
  cases g.coveredSchedule s with
  | none => exact Keeps.pure _
  | some t =>
      exact keeps_uncoverFromSchedule.bind fun _ => (keeps_setCovered hx).bind fun _ =>
        Keeps.get_bind_any fun _ => Keeps.onlyIf fun _ => Keeps.modify fun _ hg => hg

theorem keeps_initializeInlay :
    Keeps (fun g => g.coveredSchedule x = o) (initializeInlay c s) :=
  Keeps.get_bind_any fun _ => Keeps.onlyIf fun _ => (Keeps.require _ _).bind fun _ =>
    Keeps.modify fun _ hg => hg

theorem keeps_setInlay (hx : x ≠ s) {j : Option Inlay} :
    Keeps (fun g => g.coveredSchedule x = o) (setInlay c env s j) := by
  refine Keeps.get_bind_any fun g => Keeps.onlyIf fun _ => ?_
  refine Keeps.bind (Keeps.get_bind_any fun _ => Keeps.onlyIf fun _ => ?_) fun _ =>
    Keeps.bind (Keeps.modify fun _ hg => hg) fun _ => Keeps.onlyIf fun _ => ?_
  · exact Keeps.bind (Keeps.modify fun _ hg => hg) fun _ => keeps_disconnectCoveredSchedule hx
  · exact Keeps.get_bind_any fun _ => Keeps.onlyIf fun _ => keeps_initializeInlay.bind fun _ =>
      Keeps.onlyIf fun _ => (keeps_tryLoadInlay hx).bind fun _ => onScheduleModified_keeps

end Frame

/-! ## Operations -/

inductive Op (S : Type) where
  /-- `set_dom`: a new inlay. -/
  | setDom (env : S → Option Failure) (s : S) (i : Inlay)
  | initializeFileBased (s : S)
  | loadFileBased (env : S → Option Failure) (s : S)
  | activateFileBased (env : S → Option Failure) (s : S)
  | replaceNow (env : S → Option Failure) (s replacement : S)
  | prepareToRemove (env : S → Option Failure) (t : S) (reached : List S)
  | addFileBased (t : S)
  | removeFileBased (env : S → Option Failure) (t : S)

/-- The schedules after an operation, whether it has failed or not. -/
def perform (c : Names S) (g : Schedules S) : Op S → Schedules S
  | .setDom env s i => final (setInlay c env s (some i)) g
  | .initializeFileBased s => final (initializeFileBased c s) g
  | .loadFileBased env s => final (loadFileBased c env s) g
  | .activateFileBased env s => final (activateFileBased c env s) g
  | .replaceNow env s r => final (onReplaceNow c env s r) g
  | .prepareToRemove env t reached => final (announceRequisiteToBeRemoved c env t reached) g
  | .addFileBased t => final (addFileBased c t) g
  | .removeFileBased env t => final (removeFileBased c env t) g

/-- What the callers see to. -/
def Allowed (c : Names S) (g : Schedules S) : Op S → Prop
  | .setDom _ s i => g.inlay s ≠ some i
  | .initializeFileBased s => g.state s = .notInitialized
  | .loadFileBased _ s => g.scheduleOrNull (c.path s) = some s ∧ g.state s = .initialized
  | .activateFileBased _ s =>
      g.scheduleOrNull (c.path s) = some s ∧ (g.state s = .loaded ∨ g.state s = .incomplete)
  | .replaceNow _ s r => r ≠ s ∧ g.state r = .initialized ∧ g.inlay r ≠ none
  | .prepareToRemove _ t reached =>
      g.scheduleOrNull (c.path t) = some t ∧ ∀ s ∈ reached, c.path t ∈ g.requisites s
  | .addFileBased t => g.scheduleOrNull (c.path t) = none ∧ g.inlay t ≠ none
  | .removeFileBased _ t => g.scheduleOrNull (c.path t) = some t

def Step (c : Names S) (g : Schedules S) (op : Op S) (g' : Schedules S) : Prop :=
  Allowed c g op ∧ g' = perform c g op

/-- New schedules with an inlay as constructed, none of them in a folder. -/
def Initial (g : Schedules S) : Prop :=
  (∀ s, g.state s = .notInitialized ∧ g.coveredSchedulePath s = "" ∧ g.inlay s ≠ none ∧
    g.coveringSchedules s = [] ∧ g.coveredSchedule s = none ∧ g.requisites s = []) ∧
  ∀ p, g.scheduleOrNull p = none

/-- No schedule that is covered is connected to another one; nobody who is told of a
    covering that begins or ends fails; and a schedule that is removed has been
    announced to all that cover it. -/
def Good (c : Names S) (g : Schedules S) : Op S → Prop
  | .setDom env s i => Leaves env g s ∧ (g.IsLoaded s → Joins c env g s i)
  | .initializeFileBased _ => True
  | .loadFileBased env s | .activateFileBased env s =>
      g.coveredSchedule s = none → ∀ i ∈ g.inlay s, Joins c env g s i
  | .replaceNow env s r =>
      g.inlay s ≠ g.inlay r →
        Leaves env g s ∧ (g.IsLoaded s → ∀ i ∈ g.inlay r, Joins c env g s i)
  | .prepareToRemove env _ reached => ∀ s ∈ reached, Leaves env g s
  | .addFileBased _ => True
  | .removeFileBased env t => g.coveringSchedules t = [] ∧ Leaves env g t

/-- What the claims of both sides come to. -/
structure Correct (c : Names S) (g : Schedules S) : Prop where
  nonempty : ∀ t, ∀ e ∈ g.coveringSchedules t,
    g.coveredScheduleBegin e.2 < g.coveredScheduleEnd e.2
  stored : ∀ t, ∀ e ∈ g.coveringSchedules t, e.1 = g.coveredScheduleBegin e.2
  disjoint : ∀ t, (g.coveringSchedules t).Pairwise fun e d =>
    g.coveredScheduleEnd e.2 ≤ g.coveredScheduleBegin d.2
  linked : ∀ s t, (∃ e ∈ g.coveringSchedules t, e.2 = s) ↔ g.coveredSchedule s = some t
  named : ∀ s t, g.coveredSchedule s = some t →
    g.scheduleOrNull (c.normalizedPath (g.coveredSchedulePath s)) = some t
  alone : ∀ t, g.coveringSchedules t ≠ [] → g.coveredSchedule t = none

/-! ## The steps -/

/-- Between the operations no schedule is being loaded. -/
def Inv (c : Names S) (g : Schedules S) : Prop := Linked c (fun _ => False) g

theorem inv_of_initial (h : Initial g) : Inv c g where
  sorted := by
    intro t
    rw [(h.1 t).2.2.2.1]
    exact List.Pairwise.nil
  covered_of_entry := by
    intro t e he
    rw [(h.1 t).2.2.2.1] at he
    cases he
  key_eq := by
    intro t e he
    rw [(h.1 t).2.2.2.1] at he
    cases he
  entry := by
    intro s t hs
    rw [(h.1 s).2.2.2.2.1] at hs
    cases hs
  named := by
    intro s t hs
    rw [(h.1 s).2.2.2.2.1] at hs
    cases hs
  disjoint := by
    intro t e he
    rw [(h.1 t).2.2.2.1] at he
    cases he
  alone := fun t _ => (h.1 t).2.2.2.2.1
  loaded := by
    intro s t hs
    rw [(h.1 s).2.2.2.2.1] at hs
    cases hs

theorem correct_of_inv (h : Inv c g) : Correct c g where
  nonempty := fun t e he => begin_lt_end (h.named e.2 t (h.covered_of_entry t e he)).1
  stored := h.key_eq
  disjoint := by
    intro t
    refine (h.sorted t).imp_of_mem fun he hd hlt => ?_
    rw [← h.key_eq t _ hd]
    exact h.disjoint t _ he _ hd hlt
  linked := by
    intro s t
    constructor
    · rintro ⟨e, he, rfl⟩
      exact h.covered_of_entry t e he
    · intro hs
      exact ⟨_, h.entry s t hs, rfl⟩
  named := fun s t hs => (h.named s t hs).2
  alone := h.alone

/-- The current inlay enters where it is accepted. -/
theorem enters_of_current (h : Linked c fresh g) (hs : g.coveredSchedule s = none)
    (hfolder : g.scheduleOrNull (c.path s) = some s)
    (hj : ∀ i ∈ g.inlay s, Joins c env g s i) : Enters c env g s := by
  intro hp t hm hacc
  cases hi : g.inlay s with
  | none =>
      rw [Schedules.coveredSchedulePath, hi] at hp
      exact absurd rfl hp
  | some i =>
      have hpath : g.coveredSchedulePath s = i.coveredSchedulePath := by
        rw [Schedules.coveredSchedulePath, hi]
        rfl
      have hne : c.path s ≠ c.normalizedPath i.coveredSchedulePath := by
        intro heq
        rw [hpath, ← heq, hfolder] at hm
        cases hm
        exact hp hacc.1
      have hput : g.putInlay s (some i) = g := by
        rw [Schedules.putInlay, ← hi, Function.update_eq_self]
      have := enters_of_joins (Left.refl h hs) (hj i hi) hne
      rw [hput] at this
      exact this hp t hm hacc

theorem inv_setDom (h : Inv c g) (hg : Good c g (.setDom env s i)) :
    Inv c (perform c g (.setDom env s i)) := by
  refine (setInlay_spec h (fun _ => hg.1) fun _ j hj hl => ?_).final rfl
  cases hj
  exact hg.2 hl

theorem inv_initializeFileBased (h : Inv c g)
    (ha : Allowed c g (.initializeFileBased s)) :
    Inv c (perform c g (.initializeFileBased s)) := by
  have hnot : ¬g.IsLoaded s := by
    rw [Schedules.IsLoaded, ha]
    decide
  refine Triple.final (P := fun h => h = g) (Triple.bind
    (initializeInlay_spec.consequence (fun _ hg => hg) (fun _ _ hq => hq) ?_) fun _ =>
      Triple.modify ?_) rfl
  · rintro _ _ rfl
    exact h
  · rintro _ ⟨⟨r, rfl⟩, _⟩
    refine h.frame rfl rfl rfl rfl fun x hx => isLoaded_setFileBasedState.mpr ?_
    rw [if_neg]
    · exact hx
    · rintro rfl
      exact hnot hx

theorem inv_loadFileBased (h : Inv c g) (ha : Allowed c g (.loadFileBased env s))
    (hg : Good c g (.loadFileBased env s)) : Inv c (perform c g (.loadFileBased env s)) := by
  have hfresh : Linked c (fun x => x = s) g :=
    ⟨h.sorted, h.covered_of_entry, h.key_eq, h.entry, h.named, h.disjoint, h.alone,
      fun x t hx => (h.loaded x t hx).imp_left False.elim⟩
  have hload := tryLoadInlay_spec hfresh (Or.inl rfl) fun hs =>
    enters_of_current hfresh hs ha.1 (hg hs)
  refine Triple.final (P := fun h => h = g) (Triple.bind
    (hload.consequence (fun _ hg => hg) (fun _ _ hq => hq) ?_) fun _ => Triple.modify ?_) rfl
  · rintro _ _ rfl
    exact h
  · intro g' hl
    refine ⟨hl.sorted, hl.covered_of_entry, hl.key_eq, hl.entry, hl.named, hl.disjoint, hl.alone,
      fun x t hx => Or.inr (isLoaded_setFileBasedState.mpr ?_)⟩
    by_cases hxs : x = s
    · rw [if_pos hxs]
    · rw [if_neg hxs]
      exact (hl.loaded x t hx).resolve_left hxs

theorem inv_activateFileBased (h : Inv c g) (ha : Allowed c g (.activateFileBased env s))
    (hg : Good c g (.activateFileBased env s)) :
    Inv c (perform c g (.activateFileBased env s)) := by
  have hl : g.IsLoaded s := by
    rcases ha.2 with hs | hs
    · rw [Schedules.IsLoaded, hs]
    · rw [Schedules.IsLoaded, hs]
      decide
  have hload := tryLoadInlay_spec h (Or.inr hl) fun hs => enters_of_current h hs ha.1 (hg hs)
  refine Triple.final (P := fun h => h = g) (Triple.bind
    (hload.consequence (fun _ hg => hg) (fun _ _ hq => hq) ?_) fun ok => Triple.modify ?_) rfl
  · rintro _ _ rfl
    exact h
  · intro g' hl
    refine hl.frame rfl rfl rfl rfl fun x hx => isLoaded_setFileBasedState.mpr ?_
    by_cases hxs : x = s
    · rw [if_pos hxs]
      cases ok <;> decide
    · rw [if_neg hxs]
      exact hx

theorem inv_replaceNow (h : Inv c g) (ha : Allowed c g (.replaceNow env s t))
    (hg : Good c g (.replaceNow env s t)) : Inv c (perform c g (.replaceNow env s t)) := by
  -- a replacement has not been loaded, so it covers nothing
  have hnot : g.coveredSchedule t = none := by
    cases ht : g.coveredSchedule t with
    | none => rfl
    | some u =>
        have hl := (h.loaded t u ht).resolve_left id
        rw [Schedules.IsLoaded, ha.2.1] at hl
        exact absurd hl (by decide)
  have hset := (setInlay_spec h (fun hne => (hg hne).1) fun hne i hi hl =>
    (hg hne).2 hl i hi).and_keeps (keeps_setInlay (o := none) ha.1)
  refine Triple.final (P := fun h => h = g) (Triple.get_bind_at (Triple.bind
    (hset.consequence (fun _ hg => ⟨hg, hg ▸ hnot⟩) (fun _ _ hq => hq) fun _ _ he => he.1) fun _ =>
      Triple.bind (Q := fun _ => Inv c) (Triple.modify ?_) fun _ =>
        onScheduleModified_keeps.triple)) rfl
  rintro g' ⟨hl, hnone⟩
  exact hl.putInlay hnone none

/-- Where the announcement arrives, the schedule is disconnected. -/
theorem onRequisiteToBeRemoved_spec {g₀ : Schedules S} (hq : Leaves env g₀ s) :
    Triple (fun g => Inv c g ∧ ∀ x y, g.coveredSchedule x = some y → g₀.coveredSchedule x = some y)
      (onRequisiteToBeRemoved c env t s)
      (fun _ g => Inv c g ∧ ∀ x y, g.coveredSchedule x = some y → g₀.coveredSchedule x = some y)
      (fun _ => Inv c) := by
  refine Triple.at_state fun g hg => Triple.get_bind_at ?_
  cases hs : g.coveredSchedule s with
  | none =>
      refine Triple.pure ?_
      rintro _ rfl
      exact hg
  | some u =>
      refine Triple.bind (Q := fun _ h => h = g) (Triple.require (fun _ _ hg => hg) ?_) fun _ => ?_
      · rintro _ _ rfl
        exact hg.1
      · have hleave : Leaves env g s := fun y hy => hq y (hg.2 s y hy)
        obtain ⟨g', hrun, hleft⟩ := disconnectCoveredSchedule_spec (c := c) hg.1 hleave
        intro h' hh
        rw [hh, hrun]
        refine ⟨hleft.linked, fun x y hx => ?_⟩
        by_cases hxs : x = s
        · rw [hxs, hleft.covered_none] at hx
          cases hx
        · rw [hleft.covered_of_ne x hxs] at hx
          exact hg.2 x y hx

theorem inv_prepareToRemove {reached : List S} (h : Inv c g)
    (hg : Good c g (.prepareToRemove env t reached)) :
    Inv c (perform c g (.prepareToRemove env t reached)) := by
  have hall := Triple.forEach (l := reached) fun s hs =>
    onRequisiteToBeRemoved_spec (c := c) (t := t) (hg s hs)
  refine Triple.final (P := fun h => h = g)
    (hall.consequence ?_ (fun _ _ hq => hq.1) fun _ _ he => he) rfl
  rintro _ rfl
  exact ⟨h, fun _ _ hx => hx⟩

theorem inv_addFileBased (h : Inv c g) (ha : Allowed c g (.addFileBased t)) :
    Inv c (perform c g (.addFileBased t)) := by
  refine ⟨h.sorted, h.covered_of_entry, h.key_eq, h.entry, fun s u hs => ?_, h.disjoint, h.alone,
    h.loaded⟩
  obtain ⟨hp, hm⟩ := h.named s u hs
  refine ⟨hp, ?_⟩
  -- the name was free, so nothing is covered under it
  have hne : c.normalizedPath (g.coveredSchedulePath s) ≠ c.path t := by
    intro heq
    rw [heq, ha.1] at hm
    cases hm
  exact (Function.update_of_ne hne _ _).trans hm

/-- What is covered by nothing may leave the folder. -/
theorem Linked.removeName (h : Linked c fresh g) (hm : g.scheduleOrNull (c.path t) = some t)
    (ht : g.coveringSchedules t = []) :
    Linked c fresh (g.putName (c.path t) none) := by
  refine ⟨h.sorted, h.covered_of_entry, h.key_eq, h.entry, fun s u hs => ?_, h.disjoint, h.alone,
    h.loaded⟩
  obtain ⟨hp, hu⟩ := h.named s u hs
  refine ⟨hp, ?_⟩
  have hne : c.normalizedPath (g.coveredSchedulePath s) ≠ c.path t := by
    intro heq
    rw [heq, hm] at hu
    cases hu
    have := h.entry s t hs
    rw [ht] at this
    cases this
  exact (Function.update_of_ne hne _ _).trans hu

theorem inv_removeFileBased (h : Inv c g) (ha : Allowed c g (.removeFileBased env t))
    (hg : Good c g (.removeFileBased env t)) : Inv c (perform c g (.removeFileBased env t)) := by
  have h' := h.removeName ha hg.1
  refine Triple.final (P := fun h => h = g) (Triple.bind
    (Q := fun _ h => h = g.putName (c.path t) none) (Triple.modify ?_) fun _ =>
      Triple.tryCatch (F := fun _ => Inv c) ?_ fun _ => Triple.pure fun _ hl => hl) rfl
  · rintro _ rfl
    rfl
  · refine Triple.get_bind_at (Triple.bind (Q := fun _ h => h = g.putName (c.path t) none)
      (Triple.require (fun _ _ hg => hg) ?_) fun _ =>
        setInlay_spec h' (fun _ => hg.2) fun _ i hi => ?_)
    · rintro _ _ rfl
      exact h'
    · cases hi

theorem inv_step {op : Op S} (h : Inv c g) (hg : Good c g op) (hs : Step c g op g') :
    Inv c g' := by
  obtain ⟨ha, rfl⟩ := hs
  cases op with
  | setDom env s i => exact inv_setDom h hg
  | initializeFileBased s => exact inv_initializeFileBased h ha
  | loadFileBased env s => exact inv_loadFileBased h ha hg
  | activateFileBased env s => exact inv_activateFileBased h ha hg
  | replaceNow env s r => exact inv_replaceNow h ha hg
  | prepareToRemove env t reached => exact inv_prepareToRemove h hg
  | addFileBased t => exact inv_addFileBased h ha
  | removeFileBased env t => exact inv_removeFileBased h ha hg

theorem inv_of_reach (h : Reach Initial (Guarded (Good c) (Step c)) g) : Inv c g :=
  h.invariant (fun _ h0 => inv_of_initial h0) fun _ _ _ hi hs => inv_step hi hs.1 hs.2

instance (env : S → Option Failure) (g : Schedules S) (s : S) : Decidable (Leaves env g s) :=
  inferInstanceAs (Decidable (∀ t ∈ g.coveredSchedule s, env t = none))

instance (c : Names S) (env : S → Option Failure) (g : Schedules S) (s : S) (i : Inlay) :
    Decidable (Joins c env g s i) :=
  inferInstanceAs
    (Decidable (∀ t ∈ accepting c g s i, env t = none ∧ g.coveringSchedules s = []))

instance (c : Names S) (g : Schedules S) (op : Op S) : Decidable (Allowed c g op) :=
  match op with
  | .setDom _ s i => inferInstanceAs (Decidable (g.inlay s ≠ some i))
  | .initializeFileBased s => inferInstanceAs (Decidable (g.state s = .notInitialized))
  | .loadFileBased _ s => inferInstanceAs (Decidable (_ ∧ g.state s = .initialized))
  | .activateFileBased _ s =>
      inferInstanceAs (Decidable (_ ∧ (g.state s = .loaded ∨ g.state s = .incomplete)))
  | .replaceNow _ s r =>
      inferInstanceAs (Decidable (r ≠ s ∧ g.state r = .initialized ∧ g.inlay r ≠ none))
  | .prepareToRemove _ t reached =>
      inferInstanceAs (Decidable (_ ∧ ∀ s ∈ reached, c.path t ∈ g.requisites s))
  | .addFileBased t => inferInstanceAs (Decidable (_ ∧ g.inlay t ≠ none))
  | .removeFileBased _ t =>
      inferInstanceAs (Decidable (g.scheduleOrNull (c.path t) = some t))

instance (c : Names S) (g : Schedules S) (op : Op S) : Decidable (Good c g op) :=
  match op with
  | .setDom env s i =>
      inferInstanceAs (Decidable (Leaves env g s ∧ (g.IsLoaded s → Joins c env g s i)))
  | .initializeFileBased _ => inferInstanceAs (Decidable True)
  | .loadFileBased env s | .activateFileBased env s =>
      inferInstanceAs
        (Decidable (g.coveredSchedule s = none → ∀ i ∈ g.inlay s, Joins c env g s i))
  | .replaceNow env s r =>
      inferInstanceAs (Decidable (g.inlay s ≠ g.inlay r →
        Leaves env g s ∧ (g.IsLoaded s → ∀ i ∈ g.inlay r, Joins c env g s i)))
  | .prepareToRemove env _ reached => inferInstanceAs (Decidable (∀ s ∈ reached, Leaves env g s))
  | .addFileBased _ => inferInstanceAs (Decidable True)
  | .removeFileBased env t =>
      inferInstanceAs (Decidable (g.coveringSchedules t = [] ∧ Leaves env g t))

def attempt (c : Names S) : Schedules S → Op S → Option (Schedules S) :=
  nextIf (Allowed c) fun g op => some (perform c g op)

theorem attempt_step (g : Schedules S) (op : Op S) (g' : Schedules S)
    (h : attempt c g op = some g') : Step c g op g' := by
  show Guarded (Allowed c) (fun g op g' => g' = perform c g op) g op g'
  exact nextIf_step (fun _ _ _ h => (Option.some.inj h).symm) h

/-- Schedules that are their paths. -/
def plain : Names String := ⟨id, id, id⟩

def constructed : Schedules String :=
  ⟨fun _ => .notInitialized, fun _ => some ⟨0, "", 0, 0, fun h => absurd rfl h⟩, fun _ => [],
    fun _ => [], fun _ => none, fun _ => none⟩

theorem constructed_initial : Initial constructed :=
  ⟨fun _ => ⟨rfl, rfl, Option.some_ne_none _, rfl, rfl, rfl⟩, fun _ => rfl⟩

/-- Substitute for `path` from the time 0 to the time 10. -/
def substitute (id : Nat) (path : String) : Inlay := ⟨id, path, 0, 10, fun _ => by decide⟩

def quiet : String → Option Failure := fun _ => none

/-- `s` substitutes `t`. -/
def covering : List (Op String) :=
  [.addFileBased "t", .addFileBased "u", .addFileBased "s", .setDom quiet "s" (substitute 1 "t"),
    .initializeFileBased "s", .loadFileBased quiet "s", .initializeFileBased "t",
    .loadFileBased quiet "t"]

end ScheduleCover
