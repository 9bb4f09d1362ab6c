import SchedulerEngine.RequisiteProofs
import SchedulerEngine.RunInvariantProofs
import Mathlib.Data.List.Perm.Basic

/-! # Announcements to the dependants

    `Dependencies` announces that a requisite has been loaded, is to be removed or has
    been removed.  It calls the handlers of the dependants one after another, with an
    iterator over the set in which they are registered.  A handler may change the
    registration, and the iterator that has been advanced beforehand is not used. -/

set_option linter.unusedSectionVars false

namespace Requisite

open RunInvariant

variable {D S : Type} [DecidableEq D] [DecidableEq S]

/-! ## Behind an element -/

/-- The elements behind `c`. -/
def rest (c : D) : List D → List D
  | [] => []
  | d :: l => if d = c then l else rest c l

theorem mem_of_mem_rest {c x : D} {l : List D} (h : x ∈ rest c l) : x ∈ l := by
  induction l with
  | nil => exact absurd h List.not_mem_nil
  | cons d l ih =>
      rw [rest] at h
      split at h
      · exact List.mem_cons_of_mem _ h
      · exact List.mem_cons_of_mem _ (ih h)

/-- What is behind the next element is behind this one. -/
theorem rest_of_next {c x : D} {l t : List D} (hnodup : l.Nodup) (h : rest c l = x :: t) :
    rest x l = t := by
  induction l with
  | nil => cases h
  | cons d l ih =>
      obtain ⟨hd, hl⟩ := List.nodup_cons.mp hnodup
      rw [rest] at h
      rw [rest]
      split at h
      · subst h
        have hne : d ≠ x := fun heq => hd (heq ▸ List.mem_cons_self)
        rw [if_neg hne, rest, if_pos rfl]
      · have hx : x ∈ l := mem_of_mem_rest (h ▸ List.mem_cons_self)
        have hne : d ≠ x := fun heq => hd (heq ▸ hx)
        rw [if_neg hne]
        exact ih hl h

/-! ## An announcement -/

inductive Kind where
  | loaded
  | toBeRemoved
  | removed
deriving DecidableEq

/-- How a handler ends. -/
inductive Outcome where
  | returned (result : Bool)
  | thrown
deriving DecidableEq

structure Announcement (D S : Type) where
  kind : Kind
  /-- The normalized path of the `File_based`. -/
  key : RequisitePath S
  /-- `*it2`, unless it is the end. -/
  current : Option D
  /-- The handler of `current` runs. -/
  inHandler : Bool
  /-- The element of the iterator has been erased. -/
  isDangling : Bool
  /-- Who was registered when the announcement began.  The code does not know it. -/
  registered : List D
  /-- Whose handlers have been called.  The code does not know it. -/
  called : List D

variable {a a' : Announcement D S} {g g' : Registry D S} {c : Scheduler D S}

namespace Announcement

def start (kind : Kind) (key : RequisitePath S) (g : Registry D S) : Announcement D S :=
  ⟨kind, key, (g.requestors key).head?, false, false, g.requestors key, []⟩

def call (a : Announcement D S) : Announcement D S :=
  { a with inHandler := true, called := a.current.toList ++ a.called }

/-- `it2++`. -/
def advance (g : Registry D S) (a : Announcement D S) : Announcement D S :=
  { a with
    inHandler := false
    current := a.current.bind fun d => (rest d (g.requestors a.key)).head? }

/-- Only `announce_requisite_loaded` catches an exception, and only
    `announce_requisite_to_be_removed` looks at the result. -/
def stops (a : Announcement D S) (o : Outcome) : Bool :=
  match a.kind, o with
  | .loaded, _ => false
  | .toBeRemoved, .returned result => !result
  | .toBeRemoved, .thrown => true
  | .removed, .returned _ => false
  | .removed, .thrown => true

/-- The registration has been changed. -/
def changed (g' : Registry D S) (a : Announcement D S) : Announcement D S :=
  { a with isDangling := a.isDangling || a.current.any fun d => !(g'.requestors a.key).contains d }

/-- Who is still to be called, of those who were registered at the beginning. -/
def remaining (g : Registry D S) (a : Announcement D S) : List D :=
  (a.current.elim [] fun d => rest d (g.requestors a.key)).filter fun d => a.registered.contains d

end Announcement

/-! ## Runs -/

structure State (D S : Type) where
  registry : Registry D S
  isAlive : D → Bool
  /-- The announcements that run, the innermost first. -/
  running : List (Announcement D S)
  /-- The announcements that have ended.  The code does not know them. -/
  finished : List (Announcement D S)
  /-- An iterator has been used whose element had been erased. -/
  isUndefined : Bool

inductive RunOp (D S : Type) where
  | construct (d : D)
  | addRequisite (d : D) (order : List D) (r : RequisitePath S)
  | removeRequisite (d : D) (r : RequisitePath S)
  | removeRequisites (d : D)
  | destruct (d : D)
  | announce (kind : Kind) (key : RequisitePath S)
  /-- The loop calls the next handler. -/
  | call
  | handlerEnds (o : Outcome)
  /-- The loop is at the end. -/
  | finish

/-- What becomes of the registration. -/
def registryAfter (c : Scheduler D S) (g : Registry D S) : RunOp D S → Registry D S
  | .addRequisite d order r =>
      match g.addRequisite c d order r with
      | .ok g' => g'
      | .error _ => g
  | .removeRequisite d r => g.removeRequisite c d r
  | .removeRequisites d => g.removeRequisites c d
  | .destruct d => g.destruct c d
  | _ => g

def State.setRegistry (g' : Registry D S) (s : State D S) : State D S :=
  { s with registry := g', running := s.running.map fun a => a.changed g' }

/-- The innermost announcement ends. -/
def State.pop (s : State D S) : State D S :=
  match s.running with
  | [] => s
  | a :: l => { s with running := l, finished := a :: s.finished }

/-- Its loop goes on after a handler. -/
def State.afterHandler (o : Outcome) (s : State D S) : State D S :=
  match s.running with
  | [] => s
  | a :: l =>
      if a.stops o then s.pop
      else if a.isDangling then { s with isUndefined := true }
      else { s with running := a.advance s.registry :: l }

def State.callHandler (s : State D S) : State D S :=
  match s.running with
  | [] => s
  | a :: l => { s with running := a.call :: l }

def perform (c : Scheduler D S) (s : State D S) (op : RunOp D S) : State D S :=
  match op with
  | .construct d => { s with isAlive := Function.update s.isAlive d true }
  | .destruct d =>
      { s.setRegistry (registryAfter c s.registry op) with
        isAlive := Function.update s.isAlive d false }
  | .announce kind key => { s with running := .start kind key s.registry :: s.running }
  | .call => s.callHandler
  | .handlerEnds o => s.afterHandler o
  | .finish => s.pop
  | _ => s.setRegistry (registryAfter c s.registry op)

/-- Other code runs: outside of the announcements, or in a handler. -/
def canAct (s : State D S) : Prop := ∀ a ∈ s.running.head?, a.inHandler = true

/-- What an operation needs: the dependant exists, the hash set has the new element, and
    the loop is where it goes on. -/
def Fits (c : Scheduler D S) (s : State D S) : RunOp D S → Prop
  | .construct d => canAct s ∧ s.isAlive d = false
  | .addRequisite d order r => canAct s ∧ s.isAlive d = true ∧
      (d ∉ s.registry.requestors (c.normalized r) →
        order.Perm (d :: s.registry.requestors (c.normalized r)))
  | .removeRequisite d _ => canAct s ∧ s.isAlive d = true
  | .removeRequisites d => canAct s ∧ s.isAlive d = true
  | .destruct d => canAct s ∧ s.isAlive d = true
  | .announce _ key => canAct s ∧ c.normalized key = key
  | .call => ∃ a ∈ s.running.head?, a.inHandler = false ∧ a.current.isSome = true
  | .handlerEnds _ => ∃ a ∈ s.running.head?, a.inHandler = true ∧ a.current.isSome = true
  | .finish => ∃ a ∈ s.running.head?, a.inHandler = false ∧ a.current = none

def Allowed (c : Scheduler D S) (s : State D S) (op : RunOp D S) : Prop :=
  s.isUndefined = false ∧ Fits c s op

def RunStep (c : Scheduler D S) (s : State D S) (op : RunOp D S) (s' : State D S) : Prop :=
  Allowed c s op ∧ s' = perform c s op

/-- No dependant exists. -/
structure Initial (s : State D S) : Prop where
  registry : s.registry = ⟨fun _ => [], fun _ => [], fun _ => []⟩
  isAlive : s.isAlive = fun _ => false
  running : s.running = []
  finished : s.finished = []
  isUndefined : s.isUndefined = false

/-! ## What is claimed, and when it holds -/

structure Lawful (s : State D S) : Prop where
  registered_iff : ∀ d r, d ∈ s.registry.requestors r ↔ r ∈ s.registry.requisiteSets d
  destroyed : ∀ d, s.isAlive d = false → ∀ r, d ∉ s.registry.requestors r
  calledOnce : ∀ a ∈ s.finished, ∀ d ∈ a.registered, a.called.count d = 1
  isUndefined : s.isUndefined = false

/-- The iterator of a running announcement stays valid, and those behind it stay behind it. -/
def Undisturbed (g g' : Registry D S) (a : Announcement D S) : Prop :=
  (∀ d ∈ a.current, d ∈ g'.requestors a.key) ∧ (a.remaining g').Perm (a.remaining g)

/-- `remove_requisites` is not called for a dependant that has some and goes on living,
    and no handler stops an announcement before the last one. -/
def Completes (s : State D S) : RunOp D S → Prop
  | .removeRequisites d => s.registry.requisiteSets d = []
  | .handlerEnds o => ∀ a ∈ s.running.head?, a.stops o = true → a.remaining s.registry = []
  | _ => True

def Good (c : Scheduler D S) (s : State D S) (op : RunOp D S) : Prop :=
  (∀ a ∈ s.running, Undisturbed s.registry (registryAfter c s.registry op) a) ∧ Completes s op

/-! ## The invariant -/

variable {s s' : State D S} {d : D} {r : RequisitePath S} {op : RunOp D S} {o : Outcome}

/-- Who is called next, if it was registered at the beginning. -/
def Announcement.pending (a : Announcement D S) : List D :=
  if a.inHandler then [] else a.current.toList.filter fun d => a.registered.contains d

/-- Everybody who was registered has been called, or will be. -/
structure Sound (g : Registry D S) (a : Announcement D S) : Prop where
  isDangling : a.isDangling = false
  current : ∀ d ∈ a.current, d ∈ g.requestors a.key
  nodup : a.registered.Nodup
  accounted : ((a.called.filter fun d => a.registered.contains d) ++
    (a.pending ++ a.remaining g)).Perm a.registered

theorem pending_of_loop (h : a.inHandler = false) :
    a.pending = a.current.toList.filter fun d => a.registered.contains d := by
  rw [Announcement.pending, if_neg]
  rw [h]
  exact Bool.false_ne_true

theorem pending_of_handler (h : a.inHandler = true) : a.pending = [] := by
  rw [Announcement.pending, if_pos h]

structure Inv (c : Scheduler D S) (s : State D S) : Prop where
  wellFormed : WellFormed c s.registry
  destroyed : ∀ d, s.isAlive d = false → s.registry.requisiteSets d = []
  running : ∀ a ∈ s.running, Sound s.registry a
  calledOnce : ∀ a ∈ s.finished, ∀ d ∈ a.registered, a.called.count d = 1
  isUndefined : s.isUndefined = false

theorem lawful_of_inv (h : Inv c s) : Lawful s := by
  refine ⟨h.wellFormed.registered_iff, ?_, h.calledOnce, h.isUndefined⟩
  intro d hdead r hmem
  rw [h.wellFormed.registered_iff, h.destroyed d hdead] at hmem
  exact absurd hmem List.not_mem_nil

theorem inv_initial (h : Initial s) : Inv c s := by
  refine ⟨⟨?_, ?_, ?_, ?_⟩, ?_, ?_, ?_, h.isUndefined⟩
  · intro d r
    rw [h.registry]
    exact iff_of_false List.not_mem_nil List.not_mem_nil
  · intro r
    rw [h.registry]
    exact List.nodup_nil
  · intro d
    rw [h.registry]
    exact List.nodup_nil
  · intro d r hr
    rw [h.registry] at hr
    exact absurd hr List.not_mem_nil
  · intro d _
    rw [h.registry]
  · intro a ha
    rw [h.running] at ha
    exact absurd ha List.not_mem_nil
  · intro a ha
    rw [h.finished] at ha
    exact absurd ha List.not_mem_nil

/-! ### An announcement goes on -/

theorem Sound.start {kind : Kind} {key : RequisitePath S} (h : WellFormed c g) :
    Sound g (.start kind key g) := by
  refine ⟨rfl, ?_, h.nodup_requestors key, ?_⟩
  · intro d hd
    exact List.mem_of_mem_head? hd
  · show (([] : List D) ++ _).Perm (g.requestors key)
    rw [List.nil_append, pending_of_loop (a := .start kind key g) rfl]
    show (((g.requestors key).head?.toList.filter fun d => (g.requestors key).contains d) ++
      (((g.requestors key).head?.elim [] fun d => rest d (g.requestors key)).filter
        fun d => (g.requestors key).contains d)).Perm _
    rw [← List.filter_append]
    cases hl : g.requestors key with
    | nil => exact List.Perm.refl _
    | cons d l =>
        have hall : List.filter (fun x => (d :: l).contains x) (d :: l) = d :: l := by
          refine List.filter_eq_self.mpr ?_
          intro x hx
          exact List.contains_iff_mem.mpr hx
        show (List.filter _ ([d] ++ rest d (d :: l))).Perm (d :: l)
        rw [rest, if_pos rfl, List.singleton_append, hall]

/-- The handler of the current dependant is called. -/
theorem Sound.call (h : Sound g a) (hloop : a.inHandler = false) : Sound g a.call := by
  refine ⟨h.isDangling, h.current, h.nodup, ?_⟩
  have hacc := h.accounted
  rw [pending_of_loop hloop] at hacc
  refine List.Perm.trans ?_ hacc
  show ((List.filter _ (a.current.toList ++ a.called)) ++ ([] ++ a.remaining g)).Perm _
  rw [List.filter_append, List.nil_append, ← List.append_assoc]
  exact List.Perm.append_right _ List.perm_append_comm

/-- The iterator goes on. -/
theorem Sound.advance (h : Sound g a) (hwf : WellFormed c g) (hin : a.inHandler = true) :
    Sound g (a.advance g) := by
  have hacc := h.accounted
  rw [pending_of_handler hin, List.nil_append] at hacc
  refine ⟨h.isDangling, ?_, h.nodup, ?_⟩
  · intro d hd
    obtain ⟨e, -, he⟩ := Option.bind_eq_some_iff.mp hd
    exact mem_of_mem_rest (List.mem_of_mem_head? he)
  · refine List.Perm.trans (List.Perm.append_left _ (List.Perm.of_eq ?_)) hacc
    rw [pending_of_loop (a := a.advance g) rfl, Announcement.remaining, Announcement.remaining]
    show List.filter _ _ ++ List.filter _ _ = _
    rw [← List.filter_append]
    refine congrArg (List.filter _) ?_
    -- the next element and those behind it are those behind this one
    show (a.current.bind fun d => (rest d (g.requestors a.key)).head?).toList ++
      ((a.current.bind fun d => (rest d (g.requestors a.key)).head?).elim [] fun d =>
        rest d (g.requestors a.key)) = a.current.elim [] fun d => rest d (g.requestors a.key)
    cases a.current with
    | none => rfl
    | some d =>
        rw [Option.bind_some, Option.elim_some]
        cases hrest : rest d (g.requestors a.key) with
        | nil => rfl
        | cons x t =>
            show [x] ++ rest x (g.requestors a.key) = x :: t
            rw [rest_of_next (hwf.nodup_requestors a.key) hrest]
            rfl

/-- The registration is changed, but not in front of the iterator. -/
theorem Sound.changed (h : Sound g a) (hun : Undisturbed g g' a) : Sound g' (a.changed g') := by
  refine ⟨?_, hun.1, h.nodup, ?_⟩
  · show (a.isDangling || a.current.any _) = false
    rw [h.isDangling, Bool.false_or]
    cases hcur : a.current with
    | none => rfl
    | some d =>
        show (!(g'.requestors a.key).contains d) = false
        rw [List.contains_iff_mem.mpr (hun.1 d hcur)]
        rfl
  · exact List.Perm.trans (List.Perm.append_left _ (List.Perm.append_left _ hun.2)) h.accounted

/-- Nobody is left to be called. -/
theorem Sound.calledOnce (h : Sound g a) (hpending : a.pending = []) (hrest : a.remaining g = [])
    (hd : d ∈ a.registered) : a.called.count d = 1 := by
  have hacc := h.accounted
  rw [hpending, hrest, List.append_nil, List.append_nil] at hacc
  have hcount := hacc.count_eq d
  rw [List.count_filter (by exact List.contains_iff_mem.mpr hd),
    List.count_eq_one_of_mem h.nodup hd] at hcount
  exact hcount

/-! ### Every step -/

/-- The registration is changed by other code. -/
theorem inv_setRegistry (h : Inv c s) (hwf : WellFormed c g')
    (hdestroyed : ∀ d, s.isAlive d = false → g'.requisiteSets d = [])
    (hun : ∀ a ∈ s.running, Undisturbed s.registry g' a) : Inv c (s.setRegistry g') := by
  refine ⟨hwf, hdestroyed, ?_, h.calledOnce, h.isUndefined⟩
  intro a ha
  obtain ⟨b, hb, rfl⟩ := List.mem_map.mp ha
  exact (h.running b hb).changed (hun b hb)

theorem inv_addRequisite {order : List D} (h : Inv c s) (hlive : s.isAlive d = true)
    (horder : d ∉ s.registry.requestors (c.normalized r) →
      order.Perm (d :: s.registry.requestors (c.normalized r)))
    (hun : ∀ a ∈ s.running,
      Undisturbed s.registry (registryAfter c s.registry (.addRequisite d order r)) a) :
    Inv c (perform c s (.addRequisite d order r)) := by
  show Inv c (s.setRegistry (registryAfter c s.registry (.addRequisite d order r)))
  refine inv_setRegistry h ?_ ?_ hun
  · rw [registryAfter]
    split
    · rename_i g' hadd
      exact h.wellFormed.addRequisite horder hadd
    · exact h.wellFormed
  · intro e hdead
    have hne : e ≠ d := by
      rintro rfl
      rw [hlive] at hdead
      cases hdead
    rw [registryAfter]
    split
    · rename_i g' hadd
      rw [addRequisite_of_ne hadd hne]
      exact h.destroyed e hdead
    · exact h.destroyed e hdead

theorem inv_removeRequisite (h : Inv c s) (hlive : s.isAlive d = true)
    (hun : ∀ a ∈ s.running, Undisturbed s.registry (s.registry.removeRequisite c d r) a) :
    Inv c (perform c s (.removeRequisite d r)) := by
  refine inv_setRegistry h h.wellFormed.removeRequisite ?_ hun
  intro e hdead
  have hne : e ≠ d := by
    rintro rfl
    rw [hlive] at hdead
    cases hdead
  show (s.registry.removeRequisite c d r).requisiteSets e = []
  rw [removeRequisite_of_ne hne]
  exact h.destroyed e hdead

/-- There is nothing to be removed. -/
theorem inv_removeRequisites (h : Inv c s) (hnone : s.registry.requisiteSets d = [])
    (hun : ∀ a ∈ s.running, Undisturbed s.registry (s.registry.removeRequisites c d) a) :
    Inv c (perform c s (.removeRequisites d)) := by
  have hsame : s.registry.removeRequisites c d = s.registry := by
    rw [Registry.removeRequisites, hnone]
    rfl
  refine inv_setRegistry h ?_ ?_ hun
  · rw [registryAfter, hsame]
    exact h.wellFormed
  · intro e hdead
    rw [registryAfter, hsame]
    exact h.destroyed e hdead

theorem inv_destruct (h : Inv c s)
    (hun : ∀ a ∈ s.running, Undisturbed s.registry (s.registry.destruct c d) a) :
    Inv c (perform c s (.destruct d)) := by
  refine ⟨h.wellFormed.destruct, ?_, ?_, h.calledOnce, h.isUndefined⟩
  · intro e hdead
    show (s.registry.destruct c d).requisiteSets e = []
    rw [destruct_sets]
    split
    · rfl
    · rename_i hne
      have hdead' : Function.update s.isAlive d false e = false := hdead
      rw [Function.update_of_ne hne] at hdead'
      exact h.destroyed e hdead'
  · intro a ha
    obtain ⟨b, hb, rfl⟩ := List.mem_map.mp ha
    exact (h.running b hb).changed (hun b hb)

theorem inv_construct (h : Inv c s) : Inv c (perform c s (.construct d)) := by
  refine ⟨h.wellFormed, ?_, h.running, h.calledOnce, h.isUndefined⟩
  intro e hdead
  have hdead' : Function.update s.isAlive d true e = false := hdead
  by_cases he : e = d
  · subst he
    rw [Function.update_self] at hdead'
    cases hdead'
  · rw [Function.update_of_ne he] at hdead'
    exact h.destroyed e hdead'

theorem inv_announce {kind : Kind} {key : RequisitePath S} (h : Inv c s) :
    Inv c (perform c s (.announce kind key)) := by
  refine ⟨h.wellFormed, h.destroyed, ?_, h.calledOnce, h.isUndefined⟩
  rintro a (_ | ⟨_, ha⟩)
  · exact Sound.start h.wellFormed
  · exact h.running a ha

/-- The innermost announcement is replaced. -/
theorem Inv.replaceHead {l : List (Announcement D S)} (h : Inv c s) (hrun : s.running = a :: l)
    (hsound : Sound s.registry a') : Inv c { s with running := a' :: l } := by
  refine ⟨h.wellFormed, h.destroyed, ?_, h.calledOnce, h.isUndefined⟩
  rintro b (_ | ⟨_, hb⟩)
  · exact hsound
  · exact h.running b (hrun ▸ List.mem_cons_of_mem _ hb)

theorem Inv.pop (h : Inv c s) (hnone : ∀ a ∈ s.running.head?,
    a.pending = [] ∧ a.remaining s.registry = []) : Inv c s.pop := by
  rw [State.pop]
  cases hrun : s.running with
  | nil => exact h
  | cons a l =>
      have hmem : a ∈ s.running := hrun ▸ List.mem_cons_self
      rw [hrun] at hnone
      obtain ⟨hpending, hrest⟩ := hnone a rfl
      refine ⟨h.wellFormed, h.destroyed, ?_, ?_, h.isUndefined⟩
      · intro b hb
        exact h.running b (hrun ▸ List.mem_cons_of_mem _ hb)
      · rintro b (_ | ⟨_, hb⟩)
        · exact fun d => (h.running a hmem).calledOnce hpending hrest
        · exact h.calledOnce b hb

theorem inv_call (h : Inv c s) (hfits : Fits c s .call) : Inv c (perform c s .call) := by
  obtain ⟨a, ha, hloop, -⟩ := hfits
  obtain ⟨l, hl⟩ := List.head?_eq_some_iff.mp ha
  show Inv c s.callHandler
  rw [State.callHandler, hl]
  exact h.replaceHead hl ((h.running a (hl ▸ List.mem_cons_self)).call hloop)

theorem inv_handlerEnds (h : Inv c s) (hfits : Fits c s (.handlerEnds o))
    (hcomplete : Completes s (.handlerEnds o)) : Inv c (perform c s (.handlerEnds o)) := by
  obtain ⟨a, ha, hin, -⟩ := hfits
  obtain ⟨l, hl⟩ := List.head?_eq_some_iff.mp ha
  have hsound := h.running a (hl ▸ List.mem_cons_self)
  show Inv c (s.afterHandler o)
  rw [State.afterHandler]
  simp only [hl]
  split
  · rename_i hstops
    refine h.pop ?_
    intro b hb
    rw [ha] at hb
    cases hb
    exact ⟨pending_of_handler hin, hcomplete a ha hstops⟩
  · rw [hsound.isDangling, if_neg Bool.false_ne_true]
    exact h.replaceHead hl (hsound.advance h.wellFormed hin)

theorem inv_finish (h : Inv c s) (hfits : Fits c s .finish) : Inv c (perform c s .finish) := by
  obtain ⟨a, ha, hloop, hend⟩ := hfits
  refine h.pop ?_
  intro b hb
  rw [ha] at hb
  cases hb
  rw [pending_of_loop hloop, Announcement.remaining, hend]
  exact ⟨rfl, rfl⟩

theorem inv_step (h : Inv c s) (hgood : Good c s op) (hstep : RunStep c s op s') : Inv c s' := by
  obtain ⟨⟨-, hfits⟩, rfl⟩ := hstep
  obtain ⟨hun, hcomplete⟩ := hgood
  cases op with
  | construct d => exact inv_construct h
  | addRequisite d order r => exact inv_addRequisite h hfits.2.1 hfits.2.2 hun
  | removeRequisite d r => exact inv_removeRequisite h hfits.2 hun
  | removeRequisites d => exact inv_removeRequisites h hcomplete hun
  | destruct d => exact inv_destruct h hun
  | announce kind key => exact inv_announce h
  | call => exact inv_call h hfits
  | handlerEnds o => exact inv_handlerEnds h hfits hcomplete
  | finish => exact inv_finish h hfits

/-- In every run whose announcements are neither disturbed nor stopped, both sides of the
    registration agree, and every announcement has called everybody once. -/
theorem announcements_lawful (h : Reach Initial (Guarded (Good c) (RunStep c)) s) : Lawful s :=
  lawful_of_inv (h.invariant (fun _ => inv_initial)
    fun _ _ _ hinv hstep => inv_step hinv hstep.1 hstep.2)

/-! ## Closed runs -/

instance (c : Scheduler D S) (s : State D S) (op : RunOp D S) : Decidable (Allowed c s op) :=
  match op with
  | .construct d => inferInstanceAs (Decidable (s.isUndefined = false ∧
      (∀ a ∈ s.running.head?, a.inHandler = true) ∧ s.isAlive d = false))
  | .addRequisite d order r => inferInstanceAs (Decidable (s.isUndefined = false ∧
      (∀ a ∈ s.running.head?, a.inHandler = true) ∧ s.isAlive d = true ∧
      (d ∉ s.registry.requestors (c.normalized r) →
        order.Perm (d :: s.registry.requestors (c.normalized r)))))
  | .removeRequisite d _ => inferInstanceAs (Decidable (s.isUndefined = false ∧
      (∀ a ∈ s.running.head?, a.inHandler = true) ∧ s.isAlive d = true))
  | .removeRequisites d => inferInstanceAs (Decidable (s.isUndefined = false ∧
      (∀ a ∈ s.running.head?, a.inHandler = true) ∧ s.isAlive d = true))
  | .destruct d => inferInstanceAs (Decidable (s.isUndefined = false ∧
      (∀ a ∈ s.running.head?, a.inHandler = true) ∧ s.isAlive d = true))
  | .announce _ key => inferInstanceAs (Decidable (s.isUndefined = false ∧
      (∀ a ∈ s.running.head?, a.inHandler = true) ∧ c.normalized key = key))
  | .call => inferInstanceAs (Decidable (s.isUndefined = false ∧
      ∃ a ∈ s.running.head?, a.inHandler = false ∧ a.current.isSome = true))
  | .handlerEnds _ => inferInstanceAs (Decidable (s.isUndefined = false ∧
      ∃ a ∈ s.running.head?, a.inHandler = true ∧ a.current.isSome = true))
  | .finish => inferInstanceAs (Decidable (s.isUndefined = false ∧
      ∃ a ∈ s.running.head?, a.inHandler = false ∧ a.current = none))

instance (s : State D S) (op : RunOp D S) : Decidable (Completes s op) :=
  match op with
  | .removeRequisites d => inferInstanceAs (Decidable (s.registry.requisiteSets d = []))
  | .handlerEnds o => inferInstanceAs (Decidable
      (∀ a ∈ s.running.head?, a.stops o = true → a.remaining s.registry = []))
  | .construct _ | .addRequisite _ _ _ | .removeRequisite _ _ | .destruct _ | .announce _ _
  | .call | .finish => isTrue trivial

instance (g g' : Registry D S) (a : Announcement D S) : Decidable (Undisturbed g g' a) :=
  inferInstanceAs (Decidable
    ((∀ d ∈ a.current, d ∈ g'.requestors a.key) ∧ (a.remaining g').Perm (a.remaining g)))

instance (c : Scheduler D S) (s : State D S) (op : RunOp D S) : Decidable (Good c s op) :=
  inferInstanceAs (Decidable
    ((∀ a ∈ s.running, Undisturbed s.registry (registryAfter c s.registry op) a) ∧
      Completes s op))

def attempt (c : Scheduler D S) : State D S → RunOp D S → Option (State D S) :=
  nextIf (Allowed c) fun s op => some (perform c s op)

theorem attempt_step (s : State D S) (op : RunOp D S) (s' : State D S)
    (h : attempt c s op = some s') : RunStep c s op s' := by
  show Guarded (Allowed c) (fun s op s' => s' = perform c s op) s op s'
  exact nextIf_step (fun _ _ _ h => (Option.some.inj h).symm) h

/-- Dependants with numbers in one subsystem, none of them with a path of its own. -/
def plain : Scheduler Nat Unit := ⟨fun _ path => path, fun _ _ => rfl, fun _ => none⟩

def noDependant : State Nat Unit :=
  ⟨⟨fun _ => [], fun _ => [], fun _ => []⟩, fun _ => false, [], [], false⟩

theorem noDependant_initial : Initial noDependant := ⟨rfl, rfl, rfl, rfl, rfl⟩

/-- Two dependants ask for `/a`. -/
def twoDependants : List (RunOp Nat Unit) :=
  [.construct 1, .construct 2, .addRequisite 1 [1] ⟨(), "/a"⟩, .addRequisite 2 [2, 1] ⟨(), "/a"⟩]

/-- One of them throws, the other one asks for another path while it is told. -/
def quietAnnouncement : List (RunOp Nat Unit) :=
  twoDependants ++ [.announce .loaded ⟨(), "/a"⟩, .call, .handlerEnds .thrown, .call,
    .addRequisite 1 [1] ⟨(), "/b"⟩, .handlerEnds (.returned true), .finish, .destruct 1]

theorem announcements_lawful_quietAnnouncement :
    ∃ s, runAll (nextIf (Good plain) (attempt plain)) noDependant quietAnnouncement = some s ∧
      (s.finished.map fun a => a.called) = [[1, 2]] ∧
      s.registry.requestors ⟨(), "/a"⟩ = [2] ∧ Lawful s := by
  have hrun : runAll (nextIf (Good plain) (attempt plain)) noDependant quietAnnouncement =
      some _ := rfl
  exact ⟨_, hrun, rfl, rfl, announcements_lawful
    ((Reach.start noDependant_initial).runAll (fun _ _ _ => nextIf_step attempt_step) hrun)⟩

/-- A dependant that gives up its requisite when it is told leaves the iterator behind. -/
theorem removal_in_handler :
    ¬∀ s, Reach Initial (RunStep plain) s → Lawful s := by
  intro h
  have hrun : runAll (attempt plain) noDependant (twoDependants ++
      [.announce .loaded ⟨(), "/a"⟩, .call, .removeRequisite 2 ⟨(), "/a"⟩,
        .handlerEnds (.returned true)]) = some _ := rfl
  have hlawful := h _ ((Reach.start noDependant_initial).runAll attempt_step hrun)
  have hundefined := hlawful.isUndefined
  revert hundefined
  decide

end Requisite
