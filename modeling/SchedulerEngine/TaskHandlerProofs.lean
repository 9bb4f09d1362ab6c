import Mathlib.Logic.Function.Basic
import SchedulerEngine.RunInvariantProofs

/-! # The tasks of the agent

    `TaskHandler` starts and closes the tasks of an agent and terminates it.  Each
    operation on the register, on the crash kill script, on the flag `terminating`
    and on a future is one step; the commands run concurrently. -/

namespace TaskHandler

open RunInvariant

/-! ## Commands and tasks -/

/-- `AgentTaskId`: a generator gives each `StartTask` its own. -/
abbrev AgentTaskId := Nat

/-- How a future is completed. -/
inductive Tried where
  | success
  | failure
deriving DecidableEq, Repr

/-- The next operation of `executeStartTask`. -/
inductive Stage where
  | licenseCheck
  | terminatingCheck
  | newAgentTask
  | addToKillScript
  | insert
  | start
  | onTunnelInactivity
  | responded
  | failed
deriving DecidableEq, Repr

/-- A `StartTask` command and its task.  The task server may have been launched
    although `start` has not returned. -/
structure StartTask where
  licensed : Bool
  stage : Stage
  launched : Bool
  started : Bool
  listens : Bool
  terminated : Option Tried
deriving DecidableEq, Repr

def StartTask.asked (licensed : Bool) : StartTask :=
  ⟨licensed, .licenseCheck, false, false, false, none⟩

/-- A callback of `task.terminated`: of `executeCloseTask`, or of
    `killAfterTunnelInactivity`. -/
inductive Closer where
  | idle
  | awaiting (id : AgentTaskId)
  | closing (id : AgentTaskId)
  | unregistering (id : AgentTaskId)
  | removingFromKillScript (id : AgentTaskId)
deriving DecidableEq, Repr

/-- Where `executeTerminate` is; the tasks are those of its snapshot. -/
inductive Ending where
  | notAsked
  | flagged
  | waiting (tasks : List AgentTaskId)
  | delayed (tasks : List AgentTaskId) (o : Tried)
  | terminated (tasks : List AgentTaskId) (o : Tried)
deriving DecidableEq, Repr

structure State where
  hasKillScript : Bool
  commands : AgentTaskId → Option StartTask
  tasks : List AgentTaskId
  killScript : List AgentTaskId
  terminating : Bool
  ending : Ending
  closers : Nat → Closer

def State.initial (hasKillScript : Bool) : State :=
  ⟨hasKillScript, fun _ => none, [], [], false, .notAsked, fun _ => .idle⟩

def State.setCommand (s : State) (id : AgentTaskId) (c : StartTask) : State :=
  { s with commands := Function.update s.commands id (some c) }

def State.setCloser (s : State) (th : Nat) (closer : Closer) : State :=
  { s with closers := Function.update s.closers th closer }

/-- `CrashKillScript.add`. -/
def State.addToKillScript (s : State) (id : AgentTaskId) : State :=
  if s.hasKillScript then { s with killScript := id :: s.killScript } else s

/-- `task.terminated`. -/
def State.terminatedOf (s : State) (id : AgentTaskId) : Option Tried :=
  (s.commands id).bind StartTask.terminated

/-- `Future.sequence`: the futures are awaited one after the other. -/
def sequence : List (Option Tried) → Option Tried
  | [] => some .success
  | some .success :: rest => sequence rest
  | some .failure :: _ => some .failure
  | none :: _ => none

/-! ## The steps -/

inductive Op where
  | startTask (id : AgentTaskId) (licensed : Bool)
  | go (id : AgentTaskId)
  | throw (id : AgentTaskId) (effect : Bool)
  | terminates (id : AgentTaskId) (o : Tried)
  | closeTask (th : Nat) (id : AgentTaskId)
  | tunnelInactivity (th : Nat) (id : AgentTaskId)
  | close (th : Nat)
  | closeThrows (th : Nat)
  | terminate
  | snapshot (tasks : List AgentTaskId)
  | sequenceCompletes
  | elapsed
deriving DecidableEq, Repr

/-- The next operation of a `StartTask`. -/
def State.go (s : State) (id : AgentTaskId) (c : StartTask) : Option State :=
  match c.stage with
  | .licenseCheck => some (s.setCommand id
      { c with stage := if s.tasks.isEmpty || c.licensed then .terminatingCheck else .failed })
  | .terminatingCheck => some (s.setCommand id
      { c with stage := if s.terminating then .failed else .newAgentTask })
  | .newAgentTask => some (s.setCommand id { c with stage := .addToKillScript })
  | .addToKillScript => some ((s.addToKillScript id).setCommand id { c with stage := .insert })
  | .insert => some ({ s with tasks := id :: s.tasks }.setCommand id { c with stage := .start })
  | .start => some (s.setCommand id
      { c with stage := .onTunnelInactivity, launched := true, started := true })
  | .onTunnelInactivity => some (s.setCommand id { c with stage := .responded, listens := true })
  | .responded => none
  | .failed => none

/-- The operation throws, before or after it has had its effect. -/
def State.throw (s : State) (id : AgentTaskId) (c : StartTask) (effect : Bool) : Option State :=
  match c.stage with
  | .newAgentTask => some (s.setCommand id { c with stage := .failed })
  | .addToKillScript => some
      ((if effect then s.addToKillScript id else s).setCommand id { c with stage := .failed })
  | .insert => some
      ((if effect then { s with tasks := id :: s.tasks } else s).setCommand id
        { c with stage := .failed })
  | .start => some (s.setCommand id { c with stage := .failed, launched := effect })
  | .onTunnelInactivity => some (s.setCommand id { c with stage := .failed, listens := effect })
  | _ => none

/-- The next operation of a callback: `deleteLogFiles` and the steps of
    `removeTaskAfterTermination`.  The first two may throw, and then nothing is
    removed. -/
def State.close (s : State) (th : Nat) : Option State :=
  match s.closers th with
  | .idle => none
  | .awaiting id => if (s.terminatedOf id).isSome then some (s.setCloser th (.closing id)) else none
  | .closing id => some (s.setCloser th (.unregistering id))
  | .unregistering id => some
      ({ s with tasks := s.tasks.filter (· ≠ id) }.setCloser th (.removingFromKillScript id))
  | .removingFromKillScript id => some
      ({ s with killScript := s.killScript.filter (· ≠ id) }.setCloser th .idle)

def step (s : State) : Op → Option State
  | .startTask id licensed =>
      if s.commands id = none then some (s.setCommand id (.asked licensed)) else none
  | .go id => (s.commands id).bind fun c => s.go id c
  | .throw id effect => (s.commands id).bind fun c => s.throw id c effect
  | .terminates id o => (s.commands id).bind fun c =>
      if c.launched && c.terminated.isNone then
        some (s.setCommand id { c with terminated := some o })
      else none
  | .closeTask th id =>
      if s.closers th = .idle ∧ id ∈ s.tasks then some (s.setCloser th (.awaiting id)) else none
  | .tunnelInactivity th id => (s.commands id).bind fun c =>
      if c.listens = true ∧ s.closers th = .idle then some (s.setCloser th (.awaiting id)) else none
  | .close th => s.close th
  | .closeThrows th =>
      match s.closers th with
      | .closing _ => some (s.setCloser th .idle)
      | _ => none
  | .terminate =>
      if s.terminating then none else some { s with terminating := true, ending := .flagged }
  | .snapshot tasks =>
      if s.ending = .flagged ∧ tasks.Perm s.tasks then some { s with ending := .waiting tasks }
      else none
  | .sequenceCompletes =>
      match s.ending with
      | .waiting tasks =>
          (sequence (tasks.map s.terminatedOf)).map fun o => { s with ending := .delayed tasks o }
      | _ => none
  | .elapsed =>
      match s.ending with
      | .delayed tasks o => some { s with ending := .terminated tasks o }
      | _ => none

def Steps : State → Op → State → Prop := fun s op s' => step s op = some s'

def Initial : State → Prop := fun s => ∃ hasKillScript, s = .initial hasKillScript

/-! ## What every run keeps -/

/-- How far a command has come. -/
def Stage.rank : Stage → Nat
  | .licenseCheck => 0
  | .terminatingCheck => 1
  | .newAgentTask => 2
  | .addToKillScript => 3
  | .insert => 4
  | .start => 5
  | .onTunnelInactivity => 6
  | .responded => 7
  | .failed => 8

/-- The task that is removed, if the callback has come that far. -/
def Closer.removes : Closer → Option AgentTaskId
  | .closing id => some id
  | .unregistering id => some id
  | .removingFromKillScript id => some id
  | _ => none

/-- The snapshot that was taken. -/
def Ending.snapshot : Ending → Option (List AgentTaskId)
  | .waiting tasks => some tasks
  | .delayed tasks _ => some tasks
  | .terminated tasks _ => some tasks
  | _ => none

/-- The flags of a task go with the stage of its command. -/
structure Consistent (c : StartTask) : Prop where
  launched_rank : c.launched = true → 6 ≤ c.stage.rank
  started_launched : c.started = true → c.launched = true
  terminated_launched : c.terminated.isSome = true → c.launched = true

/-- A task is registered before it is started, and stays so until it has terminated. -/
structure Kept (s : State) : Prop where
  consistent : ∀ id c, s.commands id = some c → Consistent c
  registered : ∀ id ∈ s.tasks, ∃ c, s.commands id = some c ∧ 5 ≤ c.stage.rank
  scripted : ∀ id ∈ s.killScript, ∃ c, s.commands id = some c ∧ 4 ≤ c.stage.rank
  noScript : s.hasKillScript = false → s.killScript = []
  unfinished : ∀ id c, s.commands id = some c → c.stage = .start ∨ c.started = true →
    id ∈ s.tasks ∨ c.terminated.isSome = true
  removes : ∀ th id, (s.closers th).removes = some id → (s.terminatedOf id).isSome = true
  taken : ∀ tasks, s.ending.snapshot = some tasks → ∀ id ∈ tasks,
    ∃ c, s.commands id = some c ∧ 5 ≤ c.stage.rank

variable {s s' : State} {id id' : AgentTaskId} {c c' : StartTask} {th : Nat}

theorem kept_initial (hasKillScript : Bool) : Kept (.initial hasKillScript) where
  consistent _ _ h := by cases h
  registered _ h := by cases h
  scripted _ h := by cases h
  noScript _ := rfl
  unfinished _ _ h := by cases h
  removes _ _ h := by cases h
  taken _ h := by cases h

theorem commands_setCommand_self : (s.setCommand id c).commands id = some c :=
  Function.update_self id _ _

theorem commands_setCommand_of_ne (h : id' ≠ id) :
    (s.setCommand id c).commands id' = s.commands id' :=
  Function.update_of_ne h _ _

theorem closers_setCloser_self {closer : Closer} : (s.setCloser th closer).closers th = closer :=
  Function.update_self th _ _

theorem closers_setCloser_of_ne {th' : Nat} {closer : Closer} (h : th' ≠ th) :
    (s.setCloser th closer).closers th' = s.closers th' :=
  Function.update_of_ne h _ _

/-- A command goes on. -/
structure GoesOn (c c' : StartTask) : Prop where
  rank_le : c.stage.rank ≤ c'.stage.rank
  terminated : c.terminated.isSome = true → c'.terminated.isSome = true

/-- A command goes on, and puts its task into the register or into the script. -/
def State.advance (s : State) (id : AgentTaskId) (c : StartTask)
    (tasks killScript : List AgentTaskId) : State :=
  { s.setCommand id c with tasks := tasks, killScript := killScript }

/-- What a step of a command does. -/
structure Advance (s : State) (id : AgentTaskId) (c c' : StartTask)
    (tasks killScript : List AgentTaskId) : Prop where
  on : GoesOn c c'
  consistent : Consistent c'
  sub : ∀ id' ∈ s.tasks, id' ∈ tasks
  keepsScript : ∀ id' ∈ s.killScript, id' ∈ killScript
  registers : ∀ id' ∈ tasks, id' ∈ s.tasks ∨ id' = id ∧ 5 ≤ c'.stage.rank
  scripts : ∀ id' ∈ killScript, id' ∈ s.killScript ∨
    s.hasKillScript = true ∧ id' = id ∧ 4 ≤ c'.stage.rank
  unfinished : c'.stage = .start ∨ c'.started = true → id ∈ tasks ∨ c'.terminated.isSome = true

theorem exists_setCommand (hc : s.commands id = some c) (hon : GoesOn c c') {n : Nat}
    (h : ∃ b, s.commands id' = some b ∧ n ≤ b.stage.rank) :
    ∃ b, (s.setCommand id c').commands id' = some b ∧ n ≤ b.stage.rank := by
  obtain ⟨b, hb, hn⟩ := h
  by_cases hid : id' = id
  · subst hid
    obtain rfl := Option.some.inj (hc.symm.trans hb)
    exact ⟨c', commands_setCommand_self, Nat.le_trans hn hon.rank_le⟩
  · exact ⟨b, (commands_setCommand_of_ne hid).trans hb, hn⟩

theorem terminatedOf_setCommand (hc : s.commands id = some c) (hon : GoesOn c c')
    (h : (s.terminatedOf id').isSome = true) :
    ((s.setCommand id c').terminatedOf id').isSome = true := by
  by_cases hid : id' = id
  · subst hid
    rw [State.terminatedOf, hc] at h
    rw [State.terminatedOf, commands_setCommand_self]
    exact hon.terminated h
  · rw [State.terminatedOf, commands_setCommand_of_ne hid]
    exact h

theorem Kept.advance (h : Kept s) (hc : s.commands id = some c)
    {tasks killScript : List AgentTaskId} (ha : Advance s id c c' tasks killScript) : Kept (s.advance id c' tasks killScript) where
  consistent id' b hb := by
    by_cases hid : id' = id
    · subst hid
      obtain rfl := Option.some.inj (commands_setCommand_self.symm.trans hb)
      exact ha.consistent
    · exact h.consistent id' b ((commands_setCommand_of_ne hid).symm.trans hb)
  registered id' hid := by
    rcases ha.registers id' hid with hid | ⟨rfl, hrank⟩
    · exact exists_setCommand hc ha.on (h.registered id' hid)
    · exact ⟨c', commands_setCommand_self, hrank⟩
  scripted id' hid := by
    rcases ha.scripts id' hid with hid | ⟨-, rfl, hrank⟩
    · exact exists_setCommand hc ha.on (h.scripted id' hid)
    · exact ⟨c', commands_setCommand_self, hrank⟩
  noScript hno := by
    refine List.eq_nil_iff_forall_not_mem.mpr fun id' hid => ?_
    rcases ha.scripts id' hid with hid | ⟨hhas, -⟩
    · rw [h.noScript hno] at hid
      exact absurd hid List.not_mem_nil
    · exact Bool.false_ne_true (hno.symm.trans hhas)
  unfinished id' b hb hstage := by
    by_cases hid : id' = id
    · subst hid
      obtain rfl := Option.some.inj (commands_setCommand_self.symm.trans hb)
      exact ha.unfinished hstage
    · have hb := (commands_setCommand_of_ne hid).symm.trans hb
      exact (h.unfinished id' b hb hstage).imp_left (ha.sub id')
  removes th id' hth := terminatedOf_setCommand hc ha.on (h.removes th id' hth)
  taken tasks htasks id' hid := exists_setCommand hc ha.on (h.taken tasks htasks id' hid)

/-- A new command. -/
theorem Kept.startTask (h : Kept s) (hnew : s.commands id = none) (licensed : Bool) :
    Kept (s.setCommand id (.asked licensed)) := by
  have hold : ∀ {id'} {n : Nat}, (∃ b, s.commands id' = some b ∧ n ≤ b.stage.rank) →
      ∃ b, (s.setCommand id (.asked licensed)).commands id' = some b ∧ n ≤ b.stage.rank := by
    rintro id' n ⟨b, hb, hn⟩
    have hid : id' ≠ id := by
      rintro rfl
      cases hnew.symm.trans hb
    exact ⟨b, (commands_setCommand_of_ne hid).trans hb, hn⟩
  refine ⟨?_, fun id' hid => hold (h.registered id' hid), fun id' hid => hold (h.scripted id' hid),
    h.noScript, ?_, ?_, fun tasks htasks id' hid => hold (h.taken tasks htasks id' hid)⟩
  · intro id' b hb
    by_cases hid : id' = id
    · subst hid
      obtain rfl := Option.some.inj (commands_setCommand_self.symm.trans hb)
      exact ⟨fun h => absurd h Bool.false_ne_true, fun h => absurd h Bool.false_ne_true,
        fun h => absurd h Bool.false_ne_true⟩
    · exact h.consistent id' b ((commands_setCommand_of_ne hid).symm.trans hb)
  · intro id' b hb hstage
    by_cases hid : id' = id
    · subst hid
      obtain rfl := Option.some.inj (commands_setCommand_self.symm.trans hb)
      rcases hstage with hstage | hstage
      · cases hstage
      · cases hstage
    · exact h.unfinished id' b ((commands_setCommand_of_ne hid).symm.trans hb) hstage
  · intro th id' hth
    have hterm := h.removes th id' hth
    have hid : id' ≠ id := by
      rintro rfl
      rw [State.terminatedOf, hnew] at hterm
      cases hterm
    rw [State.terminatedOf, commands_setCommand_of_ne hid]
    exact hterm

theorem Kept.setCloser (h : Kept s) {closer : Closer}
    (hterm : ∀ id, closer.removes = some id → (s.terminatedOf id).isSome = true) :
    Kept (s.setCloser th closer) where
  consistent := h.consistent
  registered := h.registered
  scripted := h.scripted
  noScript := h.noScript
  unfinished := h.unfinished
  removes th' id hth := by
    by_cases hne : th' = th
    · subst hne
      rw [closers_setCloser_self] at hth
      exact hterm id hth
    · rw [closers_setCloser_of_ne hne] at hth
      exact h.removes th' id hth
  taken := h.taken

/-- A task that has terminated is taken out of the register. -/
theorem Kept.unregister (h : Kept s) (hterm : (s.terminatedOf id).isSome = true) :
    Kept { s with tasks := s.tasks.filter (· ≠ id) } where
  consistent := h.consistent
  registered id' hid := h.registered id' ((List.mem_filter.mp hid).1)
  scripted := h.scripted
  noScript := h.noScript
  unfinished id' c hc hstage := by
    rcases h.unfinished id' c hc hstage with hid | hid
    · by_cases hne : id' = id
      · subst hne
        rw [State.terminatedOf, hc] at hterm
        exact Or.inr hterm
      · exact Or.inl (List.mem_filter.mpr ⟨hid, decide_eq_true hne⟩)
    · exact Or.inr hid
  removes := h.removes
  taken := h.taken

theorem Kept.removeFromKillScript (h : Kept s) :
    Kept { s with killScript := s.killScript.filter (· ≠ id) } where
  consistent := h.consistent
  registered := h.registered
  scripted id' hid := h.scripted id' ((List.mem_filter.mp hid).1)
  noScript hno := by rw [h.noScript hno]; rfl
  unfinished := h.unfinished
  removes := h.removes
  taken := h.taken

theorem Kept.setEnding (h : Kept s) {ending : Ending} {terminating : Bool}
    (htaken : ∀ tasks, ending.snapshot = some tasks → ∀ id ∈ tasks,
      ∃ c, s.commands id = some c ∧ 5 ≤ c.stage.rank) :
    Kept { s with ending := ending, terminating := terminating } :=
  ⟨h.consistent, h.registered, h.scripted, h.noScript, h.unfinished, h.removes, htaken⟩

/-! ## What a step does -/

/-- A command that throws here has put its task nowhere. -/
def leavesNothing (hasKillScript effect : Bool) : Stage → Bool
  | .newAgentTask => true
  | .addToKillScript => !hasKillScript || !effect
  | .insert => !hasKillScript && !effect
  | _ => false

/-- A command that fails has been refused, or an operation of it has thrown. -/
def Fails (s : State) (o : Op) (id : AgentTaskId) (c : StartTask)
    (tasks killScript : List AgentTaskId) : Prop :=
  (tasks = s.tasks ∧ killScript = s.killScript ∧ c.stage.rank ≤ 1) ∨
    ∃ effect, o = .throw id effect ∧ (leavesNothing s.hasKillScript effect c.stage = true →
      tasks = s.tasks ∧ killScript = s.killScript ∧
        (c.stage.rank ≤ 3 ∨ c.stage.rank ≤ 4 ∧ s.hasKillScript = false))

inductive Does (s : State) (o : Op) : State → Prop where
  | asks (id : AgentTaskId) (licensed : Bool) (hnew : s.commands id = none) :
      Does s o (s.setCommand id (.asked licensed))
  | advances (id : AgentTaskId) (c c' : StartTask) (tasks killScript : List AgentTaskId)
      (hc : s.commands id = some c) (ha : Advance s id c c' tasks killScript)
      (hstarts : c'.started = true → c.started = true ∨ o = .go id ∧ c.stage = .start)
      (hfails : c'.stage = .failed →
        c.stage = .failed ∧ tasks = s.tasks ∧ killScript = s.killScript ∨
          Fails s o id c tasks killScript) :
      Does s o (s.advance id c' tasks killScript)
  | closes (th : Nat) (closer : Closer)
      (hterm : ∀ id, closer.removes = some id → (s.terminatedOf id).isSome = true) :
      Does s o (s.setCloser th closer)
  | unregisters (th : Nat) (id : AgentTaskId) (hth : s.closers th = .unregistering id) :
      Does s o
        ({ s with tasks := s.tasks.filter (· ≠ id) }.setCloser th (.removingFromKillScript id))
  | removesFromKillScript (th : Nat) (id : AgentTaskId)
      (hth : s.closers th = .removingFromKillScript id) :
      Does s o ({ s with killScript := s.killScript.filter (· ≠ id) }.setCloser th .idle)
  | flags : Does s o { s with terminating := true, ending := .flagged }
  | takes (tasks : List AgentTaskId) (hperm : tasks.Perm s.tasks) :
      Does s o { s with ending := .waiting tasks }
  | completes (tasks : List AgentTaskId) (tried : Tried) (ho : o = .sequenceCompletes)
      (hwaiting : s.ending = .waiting tasks)
      (hsequence : sequence (tasks.map s.terminatedOf) = some tried) :
      Does s o { s with ending := .delayed tasks tried }
  | elapses (tasks : List AgentTaskId) (tried : Tried) (hdelayed : s.ending = .delayed tasks tried) :
      Does s o { s with ending := .terminated tasks tried }

variable {o : Op}

theorem not_started (h : Kept s) (hc : s.commands id = some c) (hrank : c.stage.rank ≤ 5) :
    c.launched = false ∧ c.started = false ∧ c.terminated = none := by
  have hcons := h.consistent id c hc
  have hlaunched : c.launched ≠ true := by
    intro hl
    have := hcons.launched_rank hl
    omega
  refine ⟨Bool.eq_false_iff.mpr hlaunched, ?_, ?_⟩
  · exact Bool.eq_false_iff.mpr fun hs => hlaunched (hcons.started_launched hs)
  · cases hterm : c.terminated with
    | none => rfl
    | some tried => exact absurd (hcons.terminated_launched (by rw [hterm]; rfl)) hlaunched

/-- A stage before the start is left without any effect. -/
theorem advance_before (h : Kept s) (hc : s.commands id = some c) {stage : Stage}
    (hrank : c.stage.rank ≤ 5) (hle : c.stage.rank ≤ stage.rank) (hne : stage ≠ .start) :
    Advance s id c { c with stage := stage } s.tasks s.killScript := by
  obtain ⟨hl, hs, ht⟩ := not_started h hc hrank
  refine ⟨⟨hle, fun h => h⟩, ⟨?_, ?_, ?_⟩, fun _ hid => hid, fun _ hid => hid,
    fun _ hid => Or.inl hid, fun _ hid => Or.inl hid, ?_⟩
  · intro h
    exact absurd (hl.symm.trans h) Bool.false_ne_true
  · intro h
    exact absurd (hs.symm.trans h) Bool.false_ne_true
  · intro h
    rw [show c.terminated = none from ht] at h
    cases h
  · rintro (h | h)
    · exact absurd h hne
    · exact absurd (hs.symm.trans h) Bool.false_ne_true

/-- The refused and the failing operations. -/
theorem advance_failed (h : Kept s) (hc : s.commands id = some c) (hrank : c.stage.rank ≤ 5)
    {tasks killScript : List AgentTaskId} (launched : Bool)
    (hsub : ∀ id' ∈ s.tasks, id' ∈ tasks) (hkeep : ∀ id' ∈ s.killScript, id' ∈ killScript)
    (htasks : ∀ id' ∈ tasks, id' ∈ s.tasks ∨ id' = id)
    (hscript : ∀ id' ∈ killScript, id' ∈ s.killScript ∨ s.hasKillScript = true ∧ id' = id) :
    Advance s id c { c with stage := .failed, launched := launched } tasks killScript := by
  obtain ⟨hl, hs, ht⟩ := not_started h hc hrank
  have hno : ¬c.started = true := Bool.eq_false_iff.mp hs
  have hnone : ¬c.terminated.isSome = true := by
    rw [ht]
    exact Bool.false_ne_true
  have hlast : Stage.failed.rank = 8 := rfl
  refine ⟨⟨?_, fun h => h⟩, ⟨fun _ => ?_, fun h => absurd h hno, fun h => absurd h hnone⟩, hsub,
    hkeep, ?_, ?_, ?_⟩
  · show c.stage.rank ≤ Stage.failed.rank
    omega
  · show 6 ≤ Stage.failed.rank
    omega
  · exact fun id' hid => (htasks id' hid).imp_right fun heq =>
      ⟨heq, by show 5 ≤ Stage.failed.rank; omega⟩
  · exact fun id' hid => (hscript id' hid).imp_right fun ⟨hhas, heq⟩ =>
      ⟨hhas, heq, by show 4 ≤ Stage.failed.rank; omega⟩
  · rintro (h | h)
    · cases h
    · exact absurd h hno

/-- A task that has been started goes on. -/
theorem advance_started (h : Kept s) (hc : s.commands id = some c) (hon : GoesOn c c')
    (hrank : 6 ≤ c'.stage.rank) (hlaunched : c.launched = true → c'.launched = true)
    (hstarted : c'.started = c.started) (hterm : c'.terminated.isSome = true → c'.launched = true) :
    Advance s id c c' s.tasks s.killScript := by
  have hcons := h.consistent id c hc
  refine ⟨hon, ⟨fun _ => hrank, fun hs => ?_, hterm⟩, fun _ hid => hid, fun _ hid => hid,
    fun _ hid => Or.inl hid, fun _ hid => Or.inl hid, ?_⟩
  · rw [hstarted] at hs
    exact hlaunched (hcons.started_launched hs)
  · rintro (hstart | hs)
    · rw [hstart] at hrank
      exact absurd hrank (by decide)
    · rw [hstarted] at hs
      exact (h.unfinished id c hc (Or.inr hs)).imp_right hon.terminated

def State.scriptWith (s : State) (id : AgentTaskId) : List AgentTaskId :=
  if s.hasKillScript then id :: s.killScript else s.killScript

theorem addToKillScript_setCommand :
    (s.addToKillScript id).setCommand id c = s.advance id c s.tasks (s.scriptWith id) := by
  rw [State.addToKillScript, State.scriptWith]
  split
  · rfl
  · rfl

theorem mem_scriptWith (h : id' ∈ s.scriptWith id) :
    id' ∈ s.killScript ∨ s.hasKillScript = true ∧ id' = id := by
  rw [State.scriptWith] at h
  split at h
  · rename_i hhas
    exact (List.mem_cons.mp h).symm.imp_right fun heq => ⟨hhas, heq⟩
  · exact Or.inl h

theorem subset_scriptWith : ∀ id' ∈ s.killScript, id' ∈ s.scriptWith id := by
  intro id' hid
  rw [State.scriptWith]
  split
  · exact List.mem_cons_of_mem _ hid
  · exact hid

theorem does_go (h : Kept s) (hc : s.commands id = some c) (hgo : s.go id c = some s') :
    Does s (.go id) s' := by
  have hkeeps : ∀ {c' : StartTask} {tasks killScript : List AgentTaskId},
      Advance s id c c' tasks killScript → c'.started = c.started → c'.stage ≠ .failed →
      Does s (.go id) (s.advance id c' tasks killScript) := fun ha hs hne =>
    .advances id c _ _ _ hc ha (fun h => Or.inl (hs ▸ h)) fun h => absurd h hne
  have hrefuses : c.stage.rank ≤ 1 →
      Does s (.go id) (s.setCommand id { c with stage := .failed }) := fun hr =>
    .advances id c { c with stage := .failed } s.tasks s.killScript hc
      (advance_before h hc (by omega) (Nat.le_trans hr (by decide)) nofun) Or.inl
      fun _ => Or.inr (Or.inl ⟨rfl, rfl, hr⟩)
  rw [State.go] at hgo
  cases hstage : c.stage with
  | licenseCheck =>
      simp only [hstage] at hgo
      have hr : c.stage.rank = 0 := congrArg Stage.rank hstage
      cases hgo
      split
      · exact hkeeps (advance_before h hc (by omega) (by rw [hr]; decide) nofun) rfl nofun
      · exact hrefuses (by omega)
  | terminatingCheck =>
      simp only [hstage] at hgo
      have hr : c.stage.rank = 1 := congrArg Stage.rank hstage
      cases hgo
      split
      · exact hrefuses (by omega)
      · exact hkeeps (advance_before h hc (by omega) (by rw [hr]; decide) nofun) rfl nofun
  | newAgentTask =>
      simp only [hstage] at hgo
      have hr : c.stage.rank = 2 := congrArg Stage.rank hstage
      cases hgo
      exact hkeeps (advance_before h hc (by omega) (by rw [hr]; decide) nofun) rfl nofun
  | addToKillScript =>
      simp only [hstage] at hgo
      have hr : c.stage.rank = 3 := congrArg Stage.rank hstage
      cases hgo
      rw [addToKillScript_setCommand]
      have ha : Advance s id c { c with stage := .insert } s.tasks s.killScript :=
        advance_before h hc (by omega) (by rw [hr]; decide) nofun
      refine hkeeps ⟨ha.on, ha.consistent, ha.sub, subset_scriptWith, ha.registers, ?_,
        ha.unfinished⟩ rfl nofun
      exact fun id' hid => (mem_scriptWith hid).imp_right fun ⟨hhas, heq⟩ =>
        ⟨hhas, heq, Nat.le_refl 4⟩
  | insert =>
      simp only [hstage] at hgo
      have hr : c.stage.rank = 4 := congrArg Stage.rank hstage
      obtain ⟨hl, hs, ht⟩ := not_started h hc (by omega)
      cases hgo
      have ha : Advance s id c { c with stage := .start } (id :: s.tasks) s.killScript := by
        refine ⟨⟨Nat.le_trans (Nat.le_of_eq hr) (show 4 ≤ 5 by omega), fun h => h⟩, ⟨?_, ?_, ?_⟩,
          fun _ hid => List.mem_cons_of_mem _ hid, fun _ hid => hid, ?_, fun _ hid => Or.inl hid, ?_⟩
        · exact fun hl' => absurd (hl.symm.trans hl') Bool.false_ne_true
        · exact fun hs' => absurd (hs.symm.trans hs') Bool.false_ne_true
        · intro ht'
          rw [show c.terminated = none from ht] at ht'
          cases ht'
        · exact fun id' hid => (List.mem_cons.mp hid).symm.imp_right fun heq => ⟨heq, Nat.le_refl 5⟩
        · exact fun _ => Or.inl List.mem_cons_self
      exact hkeeps ha rfl nofun
  | start =>
      simp only [hstage] at hgo
      have hr : c.stage.rank = 5 := congrArg Stage.rank hstage
      obtain ⟨hl, hs, ht⟩ := not_started h hc (by omega)
      have hin : id ∈ s.tasks := by
        rcases h.unfinished id c hc (Or.inl hstage) with hin | hterm
        · exact hin
        · rw [ht] at hterm
          cases hterm
      cases hgo
      refine .advances id c
        { c with stage := .onTunnelInactivity, launched := true, started := true } s.tasks s.killScript hc ⟨⟨Nat.le_trans (Nat.le_of_eq hr) (show 5 ≤ 6 by omega), fun h => h⟩,
          ⟨fun _ => Nat.le_refl 6, fun _ => rfl, fun _ => rfl⟩, fun _ hid => hid, fun _ hid => hid,
          fun _ hid => Or.inl hid, fun _ hid => Or.inl hid, fun _ => Or.inl hin⟩
        (fun _ => Or.inr ⟨rfl, hstage⟩) nofun
  | onTunnelInactivity =>
      simp only [hstage] at hgo
      have hr : c.stage.rank = 6 := congrArg Stage.rank hstage
      cases hgo
      have ha : Advance s id c { c with stage := .responded, listens := true } s.tasks s.killScript :=
        advance_started h hc ⟨Nat.le_trans (Nat.le_of_eq hr) (show 6 ≤ 7 by omega), fun h => h⟩
          (show 6 ≤ 7 by omega) (fun h => h) rfl (h.consistent id c hc).terminated_launched
      exact hkeeps ha rfl nofun
  | responded =>
      rw [hstage] at hgo
      cases hgo
  | failed =>
      rw [hstage] at hgo
      cases hgo

theorem does_throw (h : Kept s) (hc : s.commands id = some c) {effect : Bool}
    (hthrow : s.throw id c effect = some s') : Does s (.throw id effect) s' := by
  have hthrows : ∀ {c' : StartTask} {tasks killScript : List AgentTaskId},
      Advance s id c c' tasks killScript → c'.started = c.started →
      (leavesNothing s.hasKillScript effect c.stage = true → tasks = s.tasks ∧
        killScript = s.killScript ∧
          (c.stage.rank ≤ 3 ∨ c.stage.rank ≤ 4 ∧ s.hasKillScript = false)) →
      Does s (.throw id effect) (s.advance id c' tasks killScript) := fun ha hs hl =>
    .advances id c _ _ _ hc ha (fun h => Or.inl (hs ▸ h)) fun _ => Or.inr (Or.inr ⟨effect, rfl, hl⟩)
  have hsame : ∀ id' ∈ s.tasks, id' ∈ s.tasks ∨ id' = id := fun _ hid => Or.inl hid
  rw [State.throw] at hthrow
  cases hstage : c.stage with
  | newAgentTask =>
      simp only [hstage] at hthrow
      have hr : c.stage.rank = 2 := congrArg Stage.rank hstage
      cases hthrow
      exact hthrows (advance_failed h hc (by omega) c.launched (fun _ hid => hid)
        (fun _ hid => hid) hsame fun _ hid => Or.inl hid) rfl fun _ => ⟨rfl, rfl, Or.inl (by omega)⟩
  | addToKillScript =>
      simp only [hstage] at hthrow
      have hr : c.stage.rank = 3 := congrArg Stage.rank hstage
      cases hthrow
      cases effect with
      | false =>
          exact hthrows (advance_failed h hc (by omega) c.launched (fun _ hid => hid)
            (fun _ hid => hid) hsame fun _ hid => Or.inl hid) rfl
            fun _ => ⟨rfl, rfl, Or.inl (by omega)⟩
      | true =>
          rw [if_pos rfl, addToKillScript_setCommand]
          refine hthrows (advance_failed h hc (by omega) c.launched (fun _ hid => hid)
            subset_scriptWith hsame fun _ hid => mem_scriptWith hid) rfl
            fun hl => ⟨rfl, ?_, Or.inl (by omega)⟩
          -- without a kill script, nothing is written
          have hno : s.hasKillScript = false := by
            rw [hstage] at hl
            simpa [leavesNothing] using hl
          rw [State.scriptWith, hno]
          rfl
  | insert =>
      simp only [hstage] at hthrow
      have hr : c.stage.rank = 4 := congrArg Stage.rank hstage
      cases hthrow
      cases effect with
      | false =>
          refine hthrows (advance_failed h hc (by omega) c.launched (fun _ hid => hid)
            (fun _ hid => hid) hsame fun _ hid => Or.inl hid) rfl
            fun hl => ⟨rfl, rfl, Or.inr ⟨by omega, ?_⟩⟩
          rw [hstage] at hl
          simpa [leavesNothing] using hl
      | true =>
          have ha : Advance s id c { c with stage := .failed } (id :: s.tasks) s.killScript :=
            advance_failed h hc (by omega) c.launched (fun _ hid => List.mem_cons_of_mem _ hid)
              (fun _ hid => hid) (fun _ hid => (List.mem_cons.mp hid).symm) fun _ hid => Or.inl hid
          refine hthrows ha rfl fun hl => ?_
          rw [hstage, leavesNothing, Bool.not_true, Bool.and_false] at hl
          cases hl
  | start =>
      simp only [hstage] at hthrow
      have hr : c.stage.rank = 5 := congrArg Stage.rank hstage
      cases hthrow
      refine hthrows (advance_failed h hc (by omega) effect (fun _ hid => hid)
        (fun _ hid => hid) hsame fun _ hid => Or.inl hid) rfl fun hl => ?_
      rw [hstage] at hl
      cases hl
  | onTunnelInactivity =>
      simp only [hstage] at hthrow
      have hr : c.stage.rank = 6 := congrArg Stage.rank hstage
      cases hthrow
      have ha : Advance s id c { c with stage := .failed, listens := effect } s.tasks s.killScript :=
        advance_started h hc ⟨Nat.le_trans (Nat.le_of_eq hr) (show 6 ≤ 8 by omega), fun h => h⟩
          (show 6 ≤ 8 by omega) (fun h => h) rfl (h.consistent id c hc).terminated_launched
      refine hthrows ha rfl fun hl => ?_
      rw [hstage] at hl
      cases hl
  | licenseCheck =>
      rw [hstage] at hthrow
      cases hthrow
  | terminatingCheck =>
      rw [hstage] at hthrow
      cases hthrow
  | responded =>
      rw [hstage] at hthrow
      cases hthrow
  | failed =>
      rw [hstage] at hthrow
      cases hthrow

/-- The steps, one by one. -/
theorem does_of_step (h : Kept s) (hstep : step s o = some s') : Does s o s' := by
  cases o with
  | startTask id licensed =>
      rw [step] at hstep
      split at hstep
      · rename_i hnew
        cases hstep
        exact .asks id licensed hnew
      · cases hstep
  | go id =>
      obtain ⟨c, hc, hgo⟩ := Option.bind_eq_some_iff.mp hstep
      exact does_go h hc hgo
  | throw id effect =>
      obtain ⟨c, hc, hthrow⟩ := Option.bind_eq_some_iff.mp hstep
      exact does_throw h hc hthrow
  | terminates id tried =>
      obtain ⟨c, hc, hterm⟩ := Option.bind_eq_some_iff.mp hstep
      split at hterm
      · rename_i hl
        obtain ⟨hl, -⟩ := Bool.and_eq_true_iff.mp hl
        cases hterm
        have ha : Advance s id c { c with terminated := some tried } s.tasks s.killScript :=
          advance_started h hc ⟨Nat.le_refl _, fun _ => rfl⟩
            ((h.consistent id c hc).launched_rank hl) (fun h => h) rfl fun _ => hl
        exact .advances id c _ _ _ hc ha Or.inl fun hf => Or.inl ⟨hf, rfl, rfl⟩
      · cases hterm
  | closeTask th id =>
      rw [step] at hstep
      split at hstep
      · cases hstep
        exact .closes th (.awaiting id) nofun
      · cases hstep
  | tunnelInactivity th id =>
      obtain ⟨c, hc, hopen⟩ := Option.bind_eq_some_iff.mp hstep
      split at hopen
      · cases hopen
        exact .closes th (.awaiting id) nofun
      · cases hopen
  | close th =>
      replace hstep : s.close th = some s' := hstep
      rw [State.close] at hstep
      cases hth : s.closers th with
      | idle =>
          rw [hth] at hstep
          cases hstep
      | awaiting id =>
          rw [hth] at hstep
          replace hstep : (if (s.terminatedOf id).isSome then some (s.setCloser th (.closing id))
            else none) = some s' := hstep
          split at hstep
          · rename_i hterm
            cases hstep
            exact .closes th (.closing id) fun id' heq => Option.some.inj heq ▸ hterm
          · cases hstep
      | closing id =>
          rw [hth] at hstep
          cases hstep
          exact .closes th (.unregistering id) fun id' heq =>
            h.removes th id' (by rw [hth]; exact heq)
      | unregistering id =>
          rw [hth] at hstep
          cases hstep
          exact .unregisters th id hth
      | removingFromKillScript id =>
          rw [hth] at hstep
          cases hstep
          exact .removesFromKillScript th id hth
  | closeThrows th =>
      rw [step] at hstep
      split at hstep
      · cases hstep
        exact .closes th .idle nofun
      · cases hstep
  | terminate =>
      rw [step] at hstep
      split at hstep
      · cases hstep
      · cases hstep
        exact .flags
  | snapshot tasks =>
      rw [step] at hstep
      split at hstep
      · rename_i hperm
        cases hstep
        exact .takes tasks hperm.2
      · cases hstep
  | sequenceCompletes =>
      rw [step] at hstep
      split at hstep
      · rename_i tasks hwaiting
        obtain ⟨tried, hsequence, rfl⟩ := Option.map_eq_some_iff.mp hstep
        exact .completes tasks tried rfl hwaiting hsequence
      · cases hstep
  | elapsed =>
      rw [step] at hstep
      split at hstep
      · rename_i tasks tried hdelayed
        cases hstep
        exact .elapses tasks tried hdelayed
      · cases hstep

theorem Kept.step (h : Kept s) (hstep : step s o = some s') : Kept s' := by
  cases does_of_step h hstep with
  | asks id licensed hnew => exact h.startTask hnew licensed
  | advances id c c' tasks killScript hc ha => exact h.advance hc ha
  | closes th closer hterm => exact h.setCloser hterm
  | unregisters th id hth =>
      have hterm := h.removes th id (by rw [hth]; rfl)
      refine (h.unregister hterm).setCloser fun id' heq => ?_
      obtain rfl := Option.some.inj heq
      exact hterm
  | removesFromKillScript th id hth => exact h.removeFromKillScript.setCloser nofun
  | flags => exact h.setEnding nofun
  | takes tasks hperm =>
      refine h.setEnding fun tasks' heq id hid => ?_
      obtain rfl := Option.some.inj heq
      exact h.registered id (hperm.mem_iff.mp hid)
  | completes tasks tried ho hwaiting =>
      exact h.setEnding fun tasks' heq => h.taken tasks' (by rw [hwaiting]; exact heq)
  | elapses tasks tried hdelayed =>
      exact h.setEnding fun tasks' heq => h.taken tasks' (by rw [hdelayed]; exact heq)

/-- A task is taken out of the register and of the script only after it has terminated. -/
theorem Kept.removed (h : Kept s) (hstep : TaskHandler.step s o = some s') :
    (id ∈ s.tasks → id ∉ s'.tasks → (s.terminatedOf id).isSome = true) ∧
      (id ∈ s.killScript → id ∉ s'.killScript → (s.terminatedOf id).isSome = true) := by
  have hfilter : ∀ {l : List AgentTaskId} {id' : AgentTaskId}, id ∈ l → id ∉ l.filter (· ≠ id') →
      id = id' := by
    intro l id' hin hout
    by_contra hne
    exact hout (List.mem_filter.mpr ⟨hin, decide_eq_true hne⟩)
  cases does_of_step h hstep with
  | advances id' c c' tasks killScript hc ha hstarts hfails =>
      refine ⟨fun hin hout => absurd (ha.sub id hin) hout, fun hin hout => ?_⟩
      exact absurd (ha.keepsScript id hin) hout
  | unregisters th id' hth =>
      refine ⟨fun hin hout => ?_, fun hin hout => absurd hin hout⟩
      obtain rfl := hfilter hin hout
      exact h.removes th id (by rw [hth]; rfl)
  | removesFromKillScript th id' hth =>
      refine ⟨fun hin hout => absurd hin hout, fun hin hout => ?_⟩
      obtain rfl := hfilter hin hout
      exact h.removes th id (by rw [hth]; rfl)
  | asks id' licensed hnew =>
      exact ⟨fun hin hout => absurd hin hout, fun hin hout => absurd hin hout⟩
  | closes th closer hterm =>
      exact ⟨fun hin hout => absurd hin hout, fun hin hout => absurd hin hout⟩
  | flags => exact ⟨fun hin hout => absurd hin hout, fun hin hout => absurd hin hout⟩
  | takes tasks hperm => exact ⟨fun hin hout => absurd hin hout, fun hin hout => absurd hin hout⟩
  | completes tasks tried ho hwaiting hsequence =>
      exact ⟨fun hin hout => absurd hin hout, fun hin hout => absurd hin hout⟩
  | elapses tasks tried hdelayed =>
      exact ⟨fun hin hout => absurd hin hout, fun hin hout => absurd hin hout⟩

/-! ## The steps that end the agent properly -/

/-- `terminated` is completed. -/
def State.isTerminated (s : State) : Bool :=
  match s.ending with
  | .terminated _ _ => true
  | _ => false

/-- `start` has returned for the task. -/
def State.isStarted (s : State) (id : AgentTaskId) : Bool :=
  (s.commands id).any StartTask.started

/-- The `StartTask` command has failed. -/
def State.isFailed (s : State) (id : AgentTaskId) : Bool :=
  (s.commands id).any fun c => decide (c.stage = .failed)

/-- The task is in the snapshot of `executeTerminate`, if that was taken. -/
def State.isAwaited (s : State) (id : AgentTaskId) : Bool :=
  match s.ending.snapshot with
  | some tasks => decide (id ∈ tasks)
  | none => true

/-- No task is started that is missing in the snapshot; a command throws only before
    its task is in the script or in the register; and the common future fails only
    after all its tasks have terminated. -/
def guarded (s : State) : Op → Bool
  | .go id => (s.commands id).all fun c => c.stage != .start || s.isAwaited id
  | .throw id effect => (s.commands id).all fun c => leavesNothing s.hasKillScript effect c.stage
  | .sequenceCompletes =>
      match s.ending with
      | .waiting tasks => sequence (tasks.map s.terminatedOf) != some .failure ||
          tasks.all fun id => (s.terminatedOf id).isSome
      | _ => true
  | _ => true

def Guard (s : State) (o : Op) : Prop := guarded s o = true

instance (s : State) (o : Op) : Decidable (Guard s o) :=
  inferInstanceAs (Decidable (guarded s o = true))

/-- What the proper steps keep. -/
structure Proper (s : State) : Prop where
  kept : Kept s
  covered : ∀ tasks, s.ending.snapshot = some tasks → ∀ id c, s.commands id = some c →
    c.started = true → id ∈ tasks ∨ c.terminated.isSome = true
  ended : ∀ tasks tried, s.ending = .delayed tasks tried ∨ s.ending = .terminated tasks tried →
    ∀ id ∈ tasks, (s.terminatedOf id).isSome = true
  nothingLeft : ∀ id c, s.commands id = some c → c.stage = .failed →
    id ∉ s.tasks ∧ id ∉ s.killScript
  awaited : ∀ tasks, s.ending.snapshot = some tasks → ∀ id ∈ tasks, ∀ c,
    s.commands id = some c → c.stage ≠ .failed

theorem proper_initial (hasKillScript : Bool) : Proper (.initial hasKillScript) where
  kept := kept_initial hasKillScript
  covered _ h := by cases h
  ended _ _ h := by rcases h with h | h <;> cases h
  nothingLeft _ _ h := by cases h
  awaited _ h := by cases h

theorem sequence_success {l : List (Option Tried)} (h : sequence l = some .success) :
    ∀ x ∈ l, x.isSome = true := by
  induction l with
  | nil =>
      intro x hx
      cases hx
  | cons x l ih =>
      rcases x with _ | _ | _
      · cases h
      · intro y hy
        rcases List.mem_cons.mp hy with rfl | hy
        · rfl
        · exact ih h y hy
      · cases h

/-- Which command of an old task is meant. -/
theorem Kept.ne_of_new (h : Kept s) (hnew : s.commands id = none) {tasks : List AgentTaskId}
    (htasks : s.ending.snapshot = some tasks) (hid : id' ∈ tasks) : id' ≠ id := by
  rintro rfl
  obtain ⟨c, hc, -⟩ := h.taken tasks htasks id' hid
  cases hnew.symm.trans hc

theorem snapshot_of_ended {tasks : List AgentTaskId} {tried : Tried}
    (h : s.ending = .delayed tasks tried ∨ s.ending = .terminated tasks tried) :
    s.ending.snapshot = some tasks := by
  rcases h with h | h
  · rw [h]
    rfl
  · rw [h]
    rfl

theorem Proper.asks (h : Proper s) (hnew : s.commands id = none) (licensed : Bool) :
    Proper (s.setCommand id (.asked licensed)) where
  kept := h.kept.startTask hnew licensed
  covered tasks htasks id' c hc hs := by
    by_cases hid : id' = id
    · subst hid
      obtain rfl := Option.some.inj (commands_setCommand_self.symm.trans hc)
      cases hs
    · exact h.covered tasks htasks id' c ((commands_setCommand_of_ne hid).symm.trans hc) hs
  ended tasks tried hend id' hid := by
    have hne := h.kept.ne_of_new hnew (snapshot_of_ended hend) hid
    rw [State.terminatedOf, commands_setCommand_of_ne hne]
    exact h.ended tasks tried hend id' hid
  nothingLeft id' c hc hf := by
    by_cases hid : id' = id
    · subst hid
      obtain rfl := Option.some.inj (commands_setCommand_self.symm.trans hc)
      cases hf
    · exact h.nothingLeft id' c ((commands_setCommand_of_ne hid).symm.trans hc) hf
  awaited tasks htasks id' hid c hc := by
    have hne := h.kept.ne_of_new hnew htasks hid
    exact h.awaited tasks htasks id' hid c ((commands_setCommand_of_ne hne).symm.trans hc)

theorem Guard.of_go (h : Guard s (.go id)) (hc : s.commands id = some c)
    (hstage : c.stage = .start) : s.isAwaited id = true := by
  rw [Guard, guarded, hc, Option.all_some, hstage] at h
  exact h

theorem Guard.of_throw {effect : Bool} (h : Guard s (.throw id effect))
    (hc : s.commands id = some c) : leavesNothing s.hasKillScript effect c.stage = true := by
  rwa [Guard, guarded, hc, Option.all_some] at h

theorem Guard.of_sequence {tasks : List AgentTaskId} (h : Guard s .sequenceCompletes)
    (hwaiting : s.ending = .waiting tasks)
    (hsequence : sequence (tasks.map s.terminatedOf) = some .failure) :
    ∀ id ∈ tasks, (s.terminatedOf id).isSome = true := by
  rw [Guard, guarded, hwaiting] at h
  have h : (sequence (tasks.map s.terminatedOf) != some .failure ||
      tasks.all fun id => (s.terminatedOf id).isSome) = true := h
  rw [hsequence, Bool.or_eq_true] at h
  rcases h with h | h
  · exact absurd h (by decide)
  · exact List.all_eq_true.mp h

/-- A command that fails properly has not come far. -/
theorem Fails.early {tasks killScript : List AgentTaskId} (h : Fails s o id c tasks killScript)
    (hguard : Guard s o) (hc : s.commands id = some c) :
    tasks = s.tasks ∧ killScript = s.killScript ∧
      (c.stage.rank ≤ 3 ∨ c.stage.rank ≤ 4 ∧ s.hasKillScript = false) := by
  rcases h with ⟨ht, hk, hr⟩ | ⟨effect, rfl, hthrow⟩
  · exact ⟨ht, hk, Or.inl (by omega)⟩
  · exact hthrow (hguard.of_throw hc)

theorem Kept.notMem_of_early (h : Kept s) (hc : s.commands id = some c)
    (hr : c.stage.rank ≤ 3 ∨ c.stage.rank ≤ 4 ∧ s.hasKillScript = false) :
    id ∉ s.tasks ∧ id ∉ s.killScript := by
  constructor
  · intro hid
    obtain ⟨b, hb, hrank⟩ := h.registered id hid
    obtain rfl := Option.some.inj (hc.symm.trans hb)
    omega
  · intro hid
    rcases hr with hr | ⟨-, hno⟩
    · obtain ⟨b, hb, hrank⟩ := h.scripted id hid
      obtain rfl := Option.some.inj (hc.symm.trans hb)
      omega
    · rw [h.noScript hno] at hid
      exact absurd hid List.not_mem_nil

theorem Proper.advances (h : Proper s) (hguard : Guard s o) (hc : s.commands id = some c)
    {tasks killScript : List AgentTaskId} (ha : Advance s id c c' tasks killScript)
    (hstarts : c'.started = true → c.started = true ∨ o = .go id ∧ c.stage = .start)
    (hfails : c'.stage = .failed → c.stage = .failed ∧ tasks = s.tasks ∧ killScript = s.killScript ∨
      Fails s o id c tasks killScript) : Proper (s.advance id c' tasks killScript) where
  kept := h.kept.advance hc ha
  covered order horder id' b hb hs := by
    by_cases hid : id' = id
    · subst hid
      obtain rfl := Option.some.inj (commands_setCommand_self.symm.trans hb)
      rcases hstarts hs with hs | ⟨rfl, hstage⟩
      · exact (h.covered order horder id' c hc hs).imp_right ha.on.terminated
      · have hawaited := hguard.of_go hc hstage
        have horder : s.ending.snapshot = some order := horder
        rw [State.isAwaited, horder] at hawaited
        exact Or.inl (of_decide_eq_true hawaited)
    · exact h.covered order horder id' b ((commands_setCommand_of_ne hid).symm.trans hb) hs
  ended order tried hend id' hid :=
    terminatedOf_setCommand hc ha.on (h.ended order tried hend id' hid)
  nothingLeft id' b hb hf := by
    by_cases hid : id' = id
    · subst hid
      obtain rfl := Option.some.inj (commands_setCommand_self.symm.trans hb)
      rcases hfails hf with ⟨hf, ht, hk⟩ | hf
      · show id' ∉ tasks ∧ id' ∉ killScript
        rw [ht, hk]
        exact h.nothingLeft id' c hc hf
      · obtain ⟨ht, hk, hr⟩ := hf.early hguard hc
        show id' ∉ tasks ∧ id' ∉ killScript
        rw [ht, hk]
        exact h.kept.notMem_of_early hc hr
    · obtain ⟨ht, hk⟩ := h.nothingLeft id' b ((commands_setCommand_of_ne hid).symm.trans hb) hf
      constructor
      · intro hin
        rcases ha.registers id' hin with hin | ⟨heq, -⟩
        · exact ht hin
        · exact hid heq
      · intro hin
        rcases ha.scripts id' hin with hin | ⟨-, heq, -⟩
        · exact hk hin
        · exact hid heq
  awaited order horder id' hin b hb hf := by
    by_cases hid : id' = id
    · subst hid
      obtain rfl := Option.some.inj (commands_setCommand_self.symm.trans hb)
      rcases hfails hf with ⟨hf, -, -⟩ | hf
      · exact h.awaited order horder id' hin c hc hf
      · obtain ⟨-, -, hr⟩ := hf.early hguard hc
        obtain ⟨a, ha', hrank⟩ := h.kept.taken order horder id' hin
        obtain rfl := Option.some.inj (hc.symm.trans ha')
        omega
    · exact h.awaited order horder id' hin b ((commands_setCommand_of_ne hid).symm.trans hb) hf

theorem Proper.step (h : Proper s) (hguard : Guard s o) (hstep : TaskHandler.step s o = some s') :
    Proper s' := by
  have hkept := h.kept.step hstep
  cases does_of_step h.kept hstep with
  | asks id licensed hnew => exact h.asks hnew licensed
  | advances id c c' tasks killScript hc ha hstarts hfails =>
      exact h.advances hguard hc ha hstarts hfails
  | closes th closer hterm => exact ⟨hkept, h.covered, h.ended, h.nothingLeft, h.awaited⟩
  | unregisters th id hth =>
      refine ⟨hkept, h.covered, h.ended, fun id' c hc hf => ?_, h.awaited⟩
      exact (h.nothingLeft id' c hc hf).imp_left fun hout hin => hout (List.mem_filter.mp hin).1
  | removesFromKillScript th id hth =>
      refine ⟨hkept, h.covered, h.ended, fun id' c hc hf => ?_, h.awaited⟩
      exact (h.nothingLeft id' c hc hf).imp_right fun hout hin => hout (List.mem_filter.mp hin).1
  | flags =>
      refine ⟨hkept, nofun, ?_, h.nothingLeft, nofun⟩
      rintro tasks tried (hend | hend)
      · cases hend
      · cases hend
  | takes tasks hperm =>
      refine ⟨hkept, fun order horder id c hc hs => ?_, ?_, h.nothingLeft,
        fun order horder id hid c hc hf => ?_⟩
      · obtain rfl := Option.some.inj horder
        exact (h.kept.unfinished id c hc (Or.inr hs)).imp_left hperm.mem_iff.mpr
      · rintro order tried (hend | hend)
        · cases hend
        · cases hend
      · obtain rfl := Option.some.inj horder
        exact (h.nothingLeft id c hc hf).1 (hperm.mem_iff.mp hid)
  | completes tasks tried ho hwaiting hsequence =>
      subst ho
      have hsnap : s.ending.snapshot = some tasks := by
        rw [hwaiting]
        rfl
      refine ⟨hkept, fun order horder => h.covered order (hsnap.trans horder), ?_, h.nothingLeft,
        fun order horder => h.awaited order (hsnap.trans horder)⟩
      rintro order tried' (hend | hend)
      · cases hend
        cases tried with
        | success =>
            intro id hid
            exact sequence_success hsequence _ (List.mem_map_of_mem hid)
        | failure => exact hguard.of_sequence hwaiting hsequence
      · cases hend
  | elapses tasks tried hdelayed =>
      have hsnap : s.ending.snapshot = some tasks := snapshot_of_ended (Or.inl hdelayed)
      refine ⟨hkept, fun order horder => h.covered order (hsnap.trans horder), ?_, h.nothingLeft,
        fun order horder => h.awaited order (hsnap.trans horder)⟩
      rintro order tried' (hend | hend)
      · cases hend
      · cases hend
        exact h.ended tasks tried (Or.inl hdelayed)

theorem Proper.over_runs (h : Reach Initial (Guarded Guard Steps) s) : Proper s := by
  refine h.invariant ?_ fun s o s' hs hstep => hs.step hstep.1 hstep.2
  rintro s ⟨hasKillScript, rfl⟩
  exact proper_initial hasKillScript

/-! ## The agent terminates after its tasks -/

/-- The agent terminates after its tasks, a failed `StartTask` leaves nothing behind
    and is never waited for, and only tasks that have terminated are removed. -/
structure Orderly (steps : State → Op → State → Prop) (s : State) : Prop where
  afterTasks : s.isTerminated = true → ∀ id, s.isStarted id = true →
    (s.terminatedOf id).isSome = true
  noStart : s.isTerminated = true → ∀ o s', steps s o s' → ∀ id, s'.isStarted id = true →
    s.isStarted id = true
  nothingLeft : ∀ id, s.isFailed id = true → id ∉ s.tasks ∧ id ∉ s.killScript
  neverAwaited : ∀ tasks, s.ending.snapshot = some tasks → ∀ id ∈ tasks, s.isFailed id = false
  removed : ∀ o s', Steps s o s' → ∀ id,
    (id ∈ s.tasks → id ∉ s'.tasks → (s.terminatedOf id).isSome = true) ∧
      (id ∈ s.killScript → id ∉ s'.killScript → (s.terminatedOf id).isSome = true)

theorem isStarted_iff : s.isStarted id = true ↔ ∃ c, s.commands id = some c ∧ c.started = true := by
  rw [State.isStarted]
  cases s.commands id with
  | none => simp
  | some c => simp

theorem isFailed_iff : s.isFailed id = true ↔ ∃ c, s.commands id = some c ∧ c.stage = .failed := by
  rw [State.isFailed]
  cases s.commands id with
  | none => simp
  | some c => simp

theorem ending_of_isTerminated (h : s.isTerminated = true) :
    ∃ tasks tried, s.ending = .terminated tasks tried := by
  rw [State.isTerminated] at h
  split at h
  · rename_i tasks tried hend
    exact ⟨tasks, tried, hend⟩
  · cases h

/-- The state in which a command starts its task has not been terminated. -/
theorem Proper.not_starting (h : Proper s) (hguard : Guard s (.go id)) (hc : s.commands id = some c)
    (hstage : c.stage = .start) : s.isTerminated = false := by
  refine Bool.eq_false_iff.mpr fun hterm => ?_
  obtain ⟨tasks, tried, hend⟩ := ending_of_isTerminated hterm
  have hawaited := hguard.of_go hc hstage
  rw [State.isAwaited, snapshot_of_ended (Or.inr hend)] at hawaited
  have hdone := h.ended tasks tried (Or.inr hend) id (of_decide_eq_true hawaited)
  rw [State.terminatedOf, hc] at hdone
  obtain ⟨-, -, hnone⟩ := not_started h.kept hc (by rw [hstage]; decide)
  have hdone : c.terminated.isSome = true := hdone
  rw [hnone] at hdone
  cases hdone

theorem Proper.noStart (h : Proper s) (hterm : s.isTerminated = true) (hguard : Guard s o)
    (hstep : TaskHandler.step s o = some s') (hs : s'.isStarted id = true) :
    s.isStarted id = true := by
  cases does_of_step h.kept hstep with
  | asks id' licensed hnew =>
      obtain ⟨c, hc, hs⟩ := isStarted_iff.mp hs
      by_cases hid : id = id'
      · subst hid
        obtain rfl := Option.some.inj (commands_setCommand_self.symm.trans hc)
        cases hs
      · exact isStarted_iff.mpr ⟨c, (commands_setCommand_of_ne hid).symm.trans hc, hs⟩
  | advances id' c c' tasks killScript hc ha hstarts hfails =>
      obtain ⟨b, hb, hs⟩ := isStarted_iff.mp hs
      by_cases hid : id = id'
      · subst hid
        obtain rfl := Option.some.inj (commands_setCommand_self.symm.trans hb)
        rcases hstarts hs with hs | ⟨rfl, hstage⟩
        · exact isStarted_iff.mpr ⟨c, hc, hs⟩
        · exact absurd (hterm.symm.trans (h.not_starting hguard hc hstage)) (by decide)
      · exact isStarted_iff.mpr ⟨b, (commands_setCommand_of_ne hid).symm.trans hb, hs⟩
  | closes th closer hterm => exact hs
  | unregisters th id' hth => exact hs
  | removesFromKillScript th id' hth => exact hs
  | flags => exact hs
  | takes tasks hperm => exact hs
  | completes tasks tried ho hwaiting hsequence => exact hs
  | elapses tasks tried hdelayed => exact hs

/-- In every run of proper steps the agent terminates after its tasks. -/
theorem orderly_over_runs (h : Reach Initial (Guarded Guard Steps) s) :
    Orderly (Guarded Guard Steps) s := by
  have hproper := Proper.over_runs h
  refine ⟨fun hterm id hs => ?_,
    fun hterm o s' hstep id hs => hproper.noStart hterm hstep.1 hstep.2 hs,
    fun id hf => ?_, fun tasks htasks id hid => ?_, fun o s' hstep id => hproper.kept.removed hstep⟩
  · obtain ⟨tasks, tried, hend⟩ := ending_of_isTerminated hterm
    obtain ⟨c, hc, hs⟩ := isStarted_iff.mp hs
    rcases hproper.covered tasks (snapshot_of_ended (Or.inr hend)) id c hc hs with hid | hdone
    · exact hproper.ended tasks tried (Or.inr hend) id hid
    · rw [State.terminatedOf, hc]
      exact hdone
  · obtain ⟨c, hc, hf⟩ := isFailed_iff.mp hf
    exact hproper.nothingLeft id c hc hf
  · refine Bool.eq_false_iff.mpr fun hf => ?_
    obtain ⟨c, hc, hf⟩ := isFailed_iff.mp hf
    exact hproper.awaited tasks htasks id hid c hc hf

/-- The operations of a `StartTask` up to its answer. -/
def startOps (id : AgentTaskId) : List Op := .startTask id true :: List.replicate 7 (.go id)

/-- A task is started and closed, another one cannot be created, and the agent is
    terminated. -/
def properRun : List Op :=
  startOps 0 ++ [.startTask 1 true, .go 1, .go 1, .throw 1 false, .terminates 0 .success,
    .closeTask 0 0, .close 0, .close 0, .close 0, .close 0, .terminate, .snapshot [],
    .sequenceCompletes, .elapsed]

theorem properRun_orderly : ∃ s, Reach Initial (Guarded Guard Steps) s ∧ s.isTerminated = true ∧
    Orderly (Guarded Guard Steps) s := by
  have h : (runAll (nextIf Guard step) (.initial true) properRun).map State.isTerminated
      = some true := by decide
  obtain ⟨s, hrun, hterm⟩ := Option.map_eq_some_iff.mp h
  have hreach : Reach Initial (Guarded Guard Steps) s :=
    (Reach.start ⟨true, rfl⟩).runAll (fun _ _ _ => nextIf_step fun _ _ _ hstep => hstep) hrun
  exact ⟨s, hreach, hterm, orderly_over_runs hreach⟩

/-! ## What goes wrong -/

/-- A task passes the check of the flag, and is started after the agent has terminated. -/
def lateStart : List Op :=
  [.startTask 0 true, .go 0, .go 0, .terminate, .snapshot [], .sequenceCompletes, .elapsed,
    .go 0, .go 0, .go 0, .go 0]

/-- One of two tasks ends with a failure. -/
def failedTask : List Op :=
  startOps 0 ++ startOps 1 ++ [.terminate, .snapshot [0, 1], .terminates 0 .failure,
    .sequenceCompletes, .elapsed]

/-- `start` throws; the agent waits for the task that was never started. -/
def failedStart : List Op :=
  [.startTask 0 true, .go 0, .go 0, .go 0, .go 0, .go 0, .throw 0 false, .terminate,
    .snapshot [0]]

theorem reach_of_run (ops : List Op) (P : State → Bool)
    (h : (runAll step (.initial true) ops).map P = some true) :
    ∃ s, Reach Initial Steps s ∧ P s = true := by
  obtain ⟨s, hrun, hP⟩ := Option.map_eq_some_iff.mp h
  exact ⟨s, (Reach.start ⟨true, rfl⟩).runAll (fun _ _ _ hstep => hstep) hrun, hP⟩

/-- Each of the three parts of the condition is needed. -/
theorem not_orderly :
    (∃ s, Reach Initial Steps s ∧
      (s.isTerminated && s.isStarted 0 && (s.terminatedOf 0).isNone) = true) ∧
    (∃ s, Reach Initial Steps s ∧
      (s.isTerminated && s.isStarted 1 && (s.terminatedOf 1).isNone) = true) ∧
    (∃ s, Reach Initial Steps s ∧
      (s.isFailed 0 && s.tasks == [0] && s.killScript == [0] &&
        s.ending == .waiting [0]) = true) ∧
    ¬∀ s, Reach Initial Steps s → Orderly Steps s := by
  have hlate := reach_of_run lateStart
    (fun s => s.isTerminated && s.isStarted 0 && (s.terminatedOf 0).isNone) (by decide)
  have hfailed := reach_of_run failedTask
    (fun s => s.isTerminated && s.isStarted 1 && (s.terminatedOf 1).isNone) (by decide)
  have hstart := reach_of_run failedStart
    (fun s => s.isFailed 0 && s.tasks == [0] && s.killScript == [0] &&
      s.ending == .waiting [0]) (by decide)
  refine ⟨hlate, hfailed, hstart, fun hall => ?_⟩
  obtain ⟨s, hreach, hP⟩ := hlate
  obtain ⟨hP, hnone⟩ := Bool.and_eq_true_iff.mp hP
  obtain ⟨hterm, hs⟩ := Bool.and_eq_true_iff.mp hP
  have hsome := (hall s hreach).afterTasks hterm 0 hs
  rw [Option.isNone_iff_eq_none.mp hnone] at hsome
  cases hsome

end TaskHandler
