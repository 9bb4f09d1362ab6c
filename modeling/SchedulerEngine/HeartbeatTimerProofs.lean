import Mathlib.Logic.Function.Basic
import SchedulerEngine.RunInvariantProofs

/-! # The heartbeat timers of several operations

    The service keeps one `currentHeartbeatTimer` for all operations.  The
    completion of an operation cancels what it finds there. -/

namespace HeartbeatTimer

open RunInvariant

/-- A timer, with its operation; a cancelled one with the operation whose
    completion has cancelled it. -/
inductive Timer where
  | unset
  | pending (operation : Nat)
  | elapsed (operation : Nat)
  | canceled (operation canceler : Nat)
deriving DecidableEq, Repr

/-- The client's side of an operation: no request yet, a request that is not
    answered, a heartbeat response, the final response. -/
inductive Client where
  | absent
  | waiting
  | heartbeat
  | answered
deriving DecidableEq, Repr

structure State where
  clients : Nat → Client
  completed : Nat → Bool
  /-- the completion's second callback has not run yet -/
  cancelling : Nat → Bool
  timers : Nat → Timer
  nextTimer : Nat
  currentHeartbeatTimer : Option Nat

def State.start : State :=
  ⟨fun _ => .absent, fun _ => false, fun _ => false, fun _ => .unset, 0, none⟩

/-! ## The steps -/

inductive Op where
  | startHeartbeat (a : Nat)
  | continueHeartbeat (a : Nat)
  | elapse (t : Nat)
  /-- the operation is completed, and its request answered -/
  | complete (a : Nat)
  /-- `responseFuture onComplete`: cancel the current timer -/
  | cancelTimer (a : Nat)
deriving DecidableEq, Repr

/-- `startHeartbeatPeriod`: a new timer, which is then the current one. -/
def State.startHeartbeatPeriod (s : State) (a : Nat) (client : Client) : State :=
  { s with
    clients := Function.update s.clients a client
    timers := Function.update s.timers s.nextTimer (.pending a)
    nextTimer := s.nextTimer + 1
    currentHeartbeatTimer := some s.nextTimer }

/-- A request that waits is answered. -/
def respond (clients : Nat → Client) (a : Nat) (response : Client) : Nat → Client :=
  if clients a = .waiting then Function.update clients a response else clients

/-- `timerService.cancel`: nothing happens to a timer that has elapsed. -/
def Timer.cancel (timer : Timer) (a : Nat) : Timer :=
  match timer with
  | .pending operation => .canceled operation a
  | timer => timer

def step (s : State) : Op → Option State
  | .startHeartbeat a =>
      if s.clients a = .absent then some (s.startHeartbeatPeriod a .waiting) else none
  | .continueHeartbeat a =>
      -- the response of a completed operation is there at once
      if s.clients a = .heartbeat then
        some (s.startHeartbeatPeriod a (if s.completed a then .answered else .waiting))
      else none
  | .elapse t =>
      match s.timers t with
      | .pending a => some { s with
          timers := Function.update s.timers t (.elapsed a)
          clients := respond s.clients a .heartbeat }
      | _ => none
  | .complete a =>
      if s.clients a ≠ .absent ∧ s.completed a = false then
        some { s with
          completed := Function.update s.completed a true
          cancelling := Function.update s.cancelling a true
          clients := respond s.clients a .answered }
      else none
  | .cancelTimer a =>
      if s.cancelling a then
        some { s with
          cancelling := Function.update s.cancelling a false
          timers := match s.currentHeartbeatTimer with
            | none => s.timers
            | some t => Function.update s.timers t ((s.timers t).cancel a) }
      else none

def Steps : State → Op → State → Prop := fun s op s' => step s op = some s'

/-! ## Every operation its timer -/

/-- A request that is not answered has a pending timer of its operation, timers are
    cancelled by their own operation only, and a timer answers its own only. -/
structure OwnTimers (s : State) : Prop where
  pending : ∀ a, s.clients a = .waiting → ∃ t, s.timers t = .pending a
  canceled : ∀ t a b, s.timers t = .canceled a b → b = a
  elapses : ∀ t a s', s.timers t = .pending a → Steps s (.elapse t) s' →
    ∀ b, b ≠ a → s'.clients b = s.clients b

/-- The timer that a completion finds is its own, or no longer pending. -/
def cancelsOwn (s : State) : Op → Bool
  | .cancelTimer a =>
      match s.currentHeartbeatTimer with
      | none => true
      | some t =>
          match s.timers t with
          | .pending operation => operation = a
          | _ => true
  | _ => true

/-- What the service keeps. -/
structure Kept (s : State) : Prop where
  absent : ∀ a, s.clients a = .absent → s.completed a = false
  pending : ∀ a, s.clients a = .waiting → s.completed a = false ∧ ∃ t, s.timers t = .pending a
  cancelling : ∀ a, s.cancelling a = true → s.completed a = true
  canceled : ∀ t a b, s.timers t = .canceled a b → b = a
  fresh : ∀ t, s.nextTimer ≤ t → s.timers t = .unset

theorem kept_start : Kept .start := ⟨fun _ _ => rfl, nofun, nofun, nofun, fun _ _ => rfl⟩

variable {s s' : State} {a t : Nat}

/-- Only the request of the operation is answered. -/
theorem respond_of_ne {clients : Nat → Client} {b : Nat} {response : Client} (hne : b ≠ a) :
    respond clients a response b = clients b := by
  rw [respond]
  split
  · exact Function.update_of_ne hne _ _
  · rfl

/-- What still waits is another operation's request. -/
theorem waiting_of_respond {clients : Nat → Client} {b : Nat} {response : Client}
    (hb : respond clients a response b = .waiting) (hresponse : response ≠ .waiting) :
    b ≠ a ∧ clients b = .waiting := by
  by_cases hba : b = a
  · subst hba
    rw [respond] at hb
    split at hb
    · rw [Function.update_self] at hb
      exact absurd hb hresponse
    · rename_i hno
      exact absurd hb hno
  · exact ⟨hba, (respond_of_ne hba).symm.trans hb⟩

/-- Nobody becomes absent. -/
theorem absent_of_respond {clients : Nat → Client} {b : Nat} {response : Client}
    (hb : respond clients a response b = .absent) (hresponse : response ≠ .absent) :
    clients b = .absent := by
  rw [respond] at hb
  split at hb
  · by_cases hba : b = a
    · rw [hba, Function.update_self] at hb
      exact absurd hb hresponse
    · exact (Function.update_of_ne hba _ _).symm.trans hb
  · exact hb

/-- A new timer hides none that was there. -/
theorem Kept.pending_update (h : Kept s) {b : Nat} (hb : ∃ t, s.timers t = .pending b) :
    ∃ t, Function.update s.timers s.nextTimer (.pending a) t = .pending b := by
  obtain ⟨t, ht⟩ := hb
  have hne : t ≠ s.nextTimer := by
    rintro rfl
    rw [h.fresh _ (Nat.le_refl _)] at ht
    cases ht
  exact ⟨t, (Function.update_of_ne hne _ _).trans ht⟩

theorem Kept.startHeartbeatPeriod (h : Kept s) {client : Client} (habsent : client ≠ .absent)
    (hclient : client = .waiting → s.completed a = false) :
    Kept (s.startHeartbeatPeriod a client) := by
  refine ⟨?_, ?_, h.cancelling, ?_, ?_⟩
  · intro b hb
    by_cases hba : b = a
    · subst hba
      simp only [State.startHeartbeatPeriod, Function.update_self] at hb
      exact absurd hb habsent
    · exact h.absent b ((Function.update_of_ne hba _ _).symm.trans hb)
  · intro b hb
    by_cases hba : b = a
    · subst hba
      simp only [State.startHeartbeatPeriod, Function.update_self] at hb
      exact ⟨hclient hb, s.nextTimer, Function.update_self ..⟩
    · have hwaiting : s.clients b = .waiting := (Function.update_of_ne hba _ _).symm.trans hb
      exact ⟨(h.pending b hwaiting).1, h.pending_update (h.pending b hwaiting).2⟩
  · intro t b c ht
    by_cases hne : t = s.nextTimer
    · subst hne
      simp only [State.startHeartbeatPeriod, Function.update_self] at ht
      cases ht
    · exact h.canceled t b c ((Function.update_of_ne hne _ _).symm.trans ht)
  · intro t ht
    have ht : s.nextTimer + 1 ≤ t := ht
    exact (Function.update_of_ne (Nat.ne_of_gt ht) _ _).trans (h.fresh t (Nat.le_of_succ_le ht))

/-- A timer elapses: only its operation's request is answered. -/
theorem kept_elapse (h : Kept s) (hstep : step s (.elapse t) = some s') : Kept s' := by
  simp only [step] at hstep
  split at hstep
  · rename_i a ha
    cases hstep
    refine ⟨?_, ?_, h.cancelling, ?_, ?_⟩
    · intro b hb
      have hb : respond s.clients a .heartbeat b = .absent := hb
      exact h.absent b (absent_of_respond hb nofun)
    · intro b hb
      have hb : respond s.clients a .heartbeat b = .waiting := hb
      have hother := waiting_of_respond hb nofun
      obtain ⟨hcompleted, u, hu⟩ := h.pending b hother.2
      have hne : u ≠ t := by
        rintro rfl
        rw [ha] at hu
        exact hother.1 (Timer.pending.inj hu).symm
      exact ⟨hcompleted, u, (Function.update_of_ne hne _ _).trans hu⟩
    · intro u b c hu
      by_cases hne : u = t
      · subst hne
        simp only [Function.update_self] at hu
        cases hu
      · exact h.canceled u b c ((Function.update_of_ne hne _ _).symm.trans hu)
    · intro u hu
      have hne : u ≠ t := by
        rintro rfl
        rw [h.fresh _ hu] at ha
        cases ha
      exact (Function.update_of_ne hne _ _).trans (h.fresh u hu)
  · cases hstep

theorem kept_complete (h : Kept s) (hstep : step s (.complete a) = some s') : Kept s' := by
  simp only [step] at hstep
  split at hstep
  · rename_i hclient
    cases hstep
    refine ⟨?_, ?_, ?_, h.canceled, h.fresh⟩
    · intro b hb
      have hrespond : respond s.clients a .answered b = .absent := hb
      have habsent := absent_of_respond hrespond nofun
      have hba : b ≠ a := by
        rintro rfl
        exact hclient.1 habsent
      exact (Function.update_of_ne hba _ _).trans (h.absent b habsent)
    · intro b hb
      have hb : respond s.clients a .answered b = .waiting := hb
      obtain ⟨hba, hb⟩ := waiting_of_respond hb nofun
      obtain ⟨hcompleted, hpending⟩ := h.pending b hb
      exact ⟨(Function.update_of_ne hba _ _).trans hcompleted, hpending⟩
    · intro b hb
      by_cases hba : b = a
      · rw [hba]
        exact Function.update_self ..
      · have hcancel : s.cancelling b = true := (Function.update_of_ne hba _ _).symm.trans hb
        exact (Function.update_of_ne hba _ _).trans (h.cancelling b hcancel)
  · cases hstep

/-- A completion that finds its own timer takes it from nobody. -/
theorem kept_cancelTimer (h : Kept s) (hown : cancelsOwn s (.cancelTimer a) = true)
    (hstep : step s (.cancelTimer a) = some s') : Kept s' := by
  simp only [step] at hstep
  split at hstep
  · rename_i hcancelling
    cases hstep
    have hcancel : ∀ b, Function.update s.cancelling a false b = true → s.completed b = true := by
      intro b hb
      by_cases hba : b = a
      · rw [hba, Function.update_self] at hb
        cases hb
      · rw [Function.update_of_ne hba] at hb
        exact h.cancelling b hb
    cases hcurrent : s.currentHeartbeatTimer with
    | none => exact ⟨h.absent, h.pending, hcancel, h.canceled, h.fresh⟩
    | some t =>
        simp only [cancelsOwn, hcurrent] at hown
        cases ht : s.timers t with
        | pending operation =>
            simp only [ht, decide_eq_true_eq] at hown
            subst hown
            refine ⟨h.absent, ?_, hcancel, ?_, ?_⟩
            · intro b hb
              obtain ⟨hcompleted, u, hu⟩ := h.pending b hb
              have hne : u ≠ t := by
                rintro rfl
                rw [ht] at hu
                rw [← Timer.pending.inj hu, h.cancelling _ hcancelling] at hcompleted
                cases hcompleted
              exact ⟨hcompleted, u, (Function.update_of_ne hne _ _).trans hu⟩
            · intro u b c hu
              by_cases hne : u = t
              · subst hne
                simp only [ht, Timer.cancel, Function.update_self] at hu
                cases hu
                rfl
              · exact h.canceled u b c ((Function.update_of_ne hne _ _).symm.trans hu)
            · intro u hu
              have hne : u ≠ t := by
                rintro rfl
                rw [h.fresh _ hu] at ht
                cases ht
              exact (Function.update_of_ne hne _ _).trans (h.fresh u hu)
        | _ =>
            have hsame : Function.update s.timers t ((s.timers t).cancel a) = s.timers := by
              rw [Function.update_eq_self_iff, ht]
              rfl
            dsimp only
            rw [hsame]
            exact ⟨h.absent, h.pending, hcancel, h.canceled, h.fresh⟩
  · cases hstep

theorem Kept.step (h : Kept s) {op : Op} (hown : cancelsOwn s op = true)
    (hstep : Steps s op s') : Kept s' := by
  have hstep : HeartbeatTimer.step s op = some s' := hstep
  cases op with
  | startHeartbeat a =>
      simp only [HeartbeatTimer.step] at hstep
      split at hstep
      · rename_i habsent
        cases hstep
        exact h.startHeartbeatPeriod nofun fun _ => h.absent a habsent
      · cases hstep
  | continueHeartbeat a =>
      simp only [HeartbeatTimer.step] at hstep
      split at hstep
      · cases hstep
        refine h.startHeartbeatPeriod ?_ ?_
        · split <;> exact nofun
        · split
          · exact nofun
          · rename_i hcompleted
            exact fun _ => Bool.eq_false_iff.mpr hcompleted
      · cases hstep
  | elapse t => exact kept_elapse h hstep
  | complete a => exact kept_complete h hstep
  | cancelTimer a => exact kept_cancelTimer h hown hstep

/-! ## Runs -/

theorem Kept.ownTimers (h : Kept s) : OwnTimers s := by
  refine ⟨fun a ha => (h.pending a ha).2, h.canceled, ?_⟩
  intro t a s' ht hstep b hba
  have hstep : HeartbeatTimer.step s (.elapse t) = some s' := hstep
  simp only [HeartbeatTimer.step, ht] at hstep
  cases hstep
  exact respond_of_ne hba

/-- Two operations, and the completion of the first, which has started its timer
    earlier. -/
def laterTimer : List Op :=
  [.startHeartbeat 0, .startHeartbeat 1, .complete 0, .cancelTimer 0]

theorem not_ownTimers_laterTimer : ¬∀ s, Reach (· = .start) Steps s → OwnTimers s := by
  intro hall
  obtain ⟨s, hrun, ht⟩ : ∃ s, runAll step .start laterTimer = some s ∧
      s.timers 1 = .canceled 1 0 := ⟨_, rfl, rfl⟩
  have hreach : Reach (· = .start) Steps s := Reach.runAll (fun _ _ _ h => h) (Reach.start rfl) hrun
  exact absurd ((hall s hreach).canceled 1 1 0 ht) (by decide)

/-- Every request that is not answered has its timer, in every run in which no
    completion finds another operation's pending timer. -/
theorem ownTimers_of_cancelsOwn (s : State)
    (h : Reach (· = .start) (Guarded (fun s op => cancelsOwn s op = true) Steps) s) :
    OwnTimers s := by
  have hkept : Kept s := h.invariant
    (fun s₀ h0 => by rw [h0]; exact kept_start)
    (fun _ _ _ hk hstep => hk.step hstep.1 hstep.2)
  exact hkept.ownTimers

/-- The operation that has started its timer last is completed first. -/
def lastTimer : List Op :=
  [.startHeartbeat 0, .startHeartbeat 1, .complete 1, .cancelTimer 1]

theorem ownTimers_of_cancelsOwn_lastTimer :
    ∃ s, runAll (nextIf (fun s op => cancelsOwn s op = true) step) .start lastTimer = some s ∧
      s.clients 0 = .waiting ∧ OwnTimers s := by
  obtain ⟨s, hrun, hwaiting⟩ : ∃ s,
      runAll (nextIf (fun s op => cancelsOwn s op = true) step) .start lastTimer = some s ∧
        s.clients 0 = .waiting := ⟨_, rfl, rfl⟩
  refine ⟨s, hrun, hwaiting, ownTimers_of_cancelsOwn s ?_⟩
  exact Reach.runAll (fun _ _ _ h => nextIf_step (fun _ _ _ h => h) h) (Reach.start rfl) hrun

end HeartbeatTimer
