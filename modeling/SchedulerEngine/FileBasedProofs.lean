import Mathlib.Init

/-! # File-based objects

    Every lock, job chain and order is a `File_based`: an object that a
    configuration file may define, with a state that grows from
    `not_initialized` to `active`.  Here are that state, the three operations
    that advance it, and the failures a method may end with. -/

namespace FileBased

/-- How a method ends when it does not return. -/
inductive Failure where
  /-- `z::throw_xc( code, inserts... )` with a `SCHEDULER` code. -/
  | xc (code : String) (inserts : List String)
  /-- `z::throw_xc( code, inserts..., x )`: an exception as the last insert. -/
  | xcCause (code : String) (inserts : List String) (cause : Failure)
  /-- `z::throw_xc( Z_FUNCTION )`: the code is the name of the function. -/
  | function (name : String)
  /-- A failed `assert( text )`. -/
  | assertion (text : String)
  deriving DecidableEq, Repr

/-- `File_based::State`, in the order of the source. -/
inductive State where
  | undefined
  | notInitialized
  | initialized
  | loaded
  | incomplete
  | active
  | closed
  deriving DecidableEq, Repr

/-- The place of a state in the enumeration, which `<` and `>=` compare. -/
def State.rank : State → Nat
  | .undefined => 0
  | .notInitialized => 1
  | .initialized => 2
  | .loaded => 3
  | .incomplete => 4
  | .active => 5
  | .closed => 6

/-- `File_based::file_based_state_name`. -/
def State.name : State → String
  | .undefined => "undefined"
  | .notInitialized => "not_initialized"
  | .initialized => "initialized"
  | .loaded => "loaded"
  | .incomplete => "incomplete"
  | .active => "active"
  | .closed => "closed"

/-- `Subsystem_state`, in the order of the source. -/
inductive SubsystemState where
  | notInitialized
  | initialized
  | loaded
  | active
  | stopped
  deriving DecidableEq, Repr

/-- The place of a subsystem state in the enumeration. -/
def SubsystemState.rank : SubsystemState → Nat
  | .notInitialized => 0
  | .initialized => 1
  | .loaded => 2
  | .active => 3
  | .stopped => 4

/-- The part of a `File_based` that locks, job chains and orders share:
    `obj_name()`, `_state`, the error of the base file if it has one, and
    whether the object is to be removed. -/
structure Base where
  objName : String
  state : State
  baseFileXc : Option String
  isToBeRemoved : Bool

/-- `File_based::assert_is_active`. -/
def Base.assertIsActive (b : Base) : Except Failure Unit :=
  if b.state ≠ .active then
    throw (.xc "SCHEDULER-153" ([b.objName, State.name .active] ++ b.baseFileXc.toList))
  else pure ()

/-- `File_based::initialize`; `onInitialize` is what `on_initialize()` returns. -/
def Base.initializeBase (subsystem : SubsystemState) (onInitialize : Bool) (b : Base) : Base :=
  if b.state = .notInitialized ∧ SubsystemState.rank .initialized ≤ subsystem.rank
      ∧ onInitialize then
    { b with state := .initialized }
  else b

/-- `File_based::load` of an object in its folder. -/
def Base.loadBase (subsystem : SubsystemState) (onInitialize onLoad : Bool) (b : Base) : Base :=
  if State.rank .loaded ≤ b.state.rank then b
  else
    let b := b.initializeBase subsystem onInitialize
    if b.state = .initialized ∧ SubsystemState.rank .loaded ≤ subsystem.rank ∧ onLoad then
      { b with state := .loaded }
    else b

/-- `File_based::activate` of an object in its folder. -/
def Base.activateBase (subsystem : SubsystemState) (onInitialize onLoad onActivate : Bool)
    (b : Base) : Base :=
  if State.rank .active ≤ b.state.rank then b
  else
    let b := b.loadBase subsystem onInitialize onLoad
    if (b.state = .loaded ∨ b.state = .incomplete)
        ∧ SubsystemState.rank .active ≤ subsystem.rank ∧ onActivate then
      { b with state := .active }
    else b

variable {b : Base} {subsystem : SubsystemState} {oi ol oa : Bool}

theorem assertIsActive_of_active (h : b.state = .active) :
    b.assertIsActive = .ok () := by
  unfold Base.assertIsActive
  rw [if_neg (fun hn => hn h)]
  rfl

theorem assertIsActive_of_not_active (h : b.state ≠ .active) :
    b.assertIsActive
      = .error (.xc "SCHEDULER-153"
          ([b.objName, State.name .active] ++ b.baseFileXc.toList)) := by
  unfold Base.assertIsActive
  rw [if_pos h]
  rfl

/-- Initializing leaves an active object alone. -/
theorem initialize_of_active (h : b.state = .active) :
    b.initializeBase subsystem oi = b := by
  unfold Base.initializeBase
  rw [if_neg]
  rintro ⟨hs, _, _⟩
  rw [h] at hs
  cases hs

/-- Loading leaves an active object alone. -/
theorem load_of_active (h : b.state = .active) :
    b.loadBase subsystem oi ol = b := by
  have hle : State.rank .loaded ≤ State.rank .active := by decide
  unfold Base.loadBase
  rw [if_pos (h ▸ hle)]

/-- Activating leaves an active object alone. -/
theorem activate_of_active (h : b.state = .active) :
    b.activateBase subsystem oi ol oa = b := by
  have hle : State.rank .active ≤ State.rank .active := by decide
  unfold Base.activateBase
  rw [if_pos (h ▸ hle)]

end FileBased
