import Mathlib.Logic.Function.Basic
import SchedulerEngine.RunInvariantProofs

/-! # The answers to the requests of one operation

    A `PendingOperation` answers a request through a promise, which is renewed at
    the end of a heartbeat period.  The completion of the operation, the heartbeat
    timers and the requests of the client read, renew and complete these promises
    in separate steps. -/

namespace HeartbeatAnswer

open RunInvariant

/-! ## The operation, its timers and its client -/

/-- What a promise is completed with: the response with a heartbeat id, or the
    operation's own response or failure. -/
inductive Answer where
  | heartbeat (id : Nat)
  | final
deriving DecidableEq, Repr

/-- A request in `startHeartbeatPeriod`, and its future. -/
inductive Request where
  | absent
  | starting
  | reading
  | waiting (promise : Nat)
deriving DecidableEq, Repr

/-- The timer of a request, in `respondWithHeartbeat` when it has elapsed.  One
    that is cancelled does not elapse. -/
inductive Timer where
  | unset
  | running
  | inserting
  | renewing
  | responding (oldPromise : Nat)
  | removing
  | done
deriving DecidableEq, Repr

/-- `responseFuture onComplete`.  `during` is the last request when it began. -/
inductive Callback where
  | waiting
  | trying (during promise : Nat)
  | gettingAgain (during : Nat)
  | completing (during promise : Nat)
  | done (during : Nat)
  | threw (during : Nat)
deriving DecidableEq, Repr

/-- The promises are numbered as they are made, the requests as they come.  The
    timer of request `k` generates the heartbeat id `k`. -/
structure State where
  promises : Nat → Option Answer
  current : Nat
  nextPromise : Nat
  pendingOperations : Nat → Bool
  last : Nat
  requests : Nat → Request
  timers : Nat → Timer
  callback : Callback
  rejected : Bool

/-- The first request, and the operation not completed. -/
def State.start : State :=
  ⟨fun _ => none, 0, 1, fun _ => false, 0, fun k => if k = 0 then .starting else .absent,
    fun _ => .unset, .waiting, false⟩

def State.setTimer (s : State) (k : Nat) (timer : Timer) : State :=
  { s with timers := Function.update s.timers k timer }

def State.setRequest (s : State) (k : Nat) (request : Request) : State :=
  { s with requests := Function.update s.requests k request }

/-- `tryComplete` and `trySuccess`. -/
def State.tryComplete (s : State) (promise : Nat) (answer : Answer) : Bool × State :=
  match s.promises promise with
  | none => (true, { s with promises := Function.update s.promises promise (some answer) })
  | some _ => (false, s)

/-! ## The steps -/

inductive Op where
  /-- `currentHeartbeatTimer = timerService.delay(..)` -/
  | startTimer (k : Nat)
  /-- `pendingOperation.currentFuture` -/
  | currentFuture (k : Nat)
  /-- the next request of the client -/
  | continueHeartbeat
  | elapse (k : Nat)
  | insertId (k : Nat)
  | renewPromise (k : Nat)
  | trySuccess (k : Nat)
  | removeId (k : Nat)
  /-- the operation is completed, `currentPromiseRef.get` -/
  | complete
  | tryComplete
  | getAgain
  | completeAgain
deriving DecidableEq, Repr

def step (s : State) : Op → Option State
  | .startTimer k =>
      match s.requests k with
      | .starting => some ((s.setTimer k .running).setRequest k .reading)
      | _ => none
  | .currentFuture k =>
      match s.requests k with
      | .reading => some (s.setRequest k (.waiting s.current))
      | _ => none
  | .continueHeartbeat =>
      match s.requests s.last with
      | .waiting promise =>
          match s.promises promise with
          | some (.heartbeat id) =>
              if s.pendingOperations id then
                some { s.setRequest (s.last + 1) .starting with
                  pendingOperations := Function.update s.pendingOperations id false
                  last := s.last + 1 }
              else some { s with rejected := true }
          | _ => none
      | _ => none
  | .elapse k =>
      match s.timers k with
      | .running => some (s.setTimer k .inserting)
      | _ => none
  | .insertId k =>
      match s.timers k with
      | .inserting => some { s.setTimer k .renewing with
          pendingOperations := Function.update s.pendingOperations k true }
      | _ => none
  | .renewPromise k =>
      match s.timers k with
      | .renewing => some { s.setTimer k (.responding s.current) with
          current := s.nextPromise
          nextPromise := s.nextPromise + 1 }
      | _ => none
  | .trySuccess k =>
      match s.timers k with
      | .responding oldPromise =>
          let (responded, s) := s.tryComplete oldPromise (.heartbeat k)
          some (s.setTimer k (if responded then .done else .removing))
      | _ => none
  | .removeId k =>
      match s.timers k with
      | .removing => some { s.setTimer k .done with
          pendingOperations := Function.update s.pendingOperations k false }
      | _ => none
  | .complete =>
      match s.callback with
      | .waiting => some { s with callback := .trying s.last s.current }
      | _ => none
  | .tryComplete =>
      match s.callback with
      | .trying during promise =>
          let (completed, s) := s.tryComplete promise .final
          some { s with callback := if completed then .done during else .gettingAgain during }
      | _ => none
  | .getAgain =>
      match s.callback with
      | .gettingAgain during => some { s with callback := .completing during s.current }
      | _ => none
  | .completeAgain =>
      -- `complete` throws where the promise is completed already
      match s.callback with
      | .completing during promise =>
          let (completed, s) := s.tryComplete promise .final
          some { s with callback := if completed then .done during else .threw during }
      | _ => none

def Steps : State → Op → State → Prop := fun s op s' => step s op = some s'

/-! ## The answers -/

/-- What a request has been answered. -/
def State.answer (s : State) (k : Nat) : Option Answer :=
  match s.requests k with
  | .waiting promise => s.promises promise
  | _ => none

def Callback.ended : Callback → Bool
  | .done _ => true
  | .threw _ => true
  | _ => false

def Callback.during : Callback → Option Nat
  | .waiting => none
  | .trying during _ => some during
  | .gettingAgain during => some during
  | .completing during _ => some during
  | .done during => some during
  | .threw during => some during

/-- No answer is lost. -/
structure Answered (s : State) : Prop where
  /-- every request but the last is answered by a heartbeat response, with its own id -/
  heartbeats : ∀ k < s.last, s.answer k = some (.heartbeat k)
  /-- no other request waits for the same answer -/
  ownPromise : ∀ j k promise, s.requests j = .waiting promise → s.requests k = .waiting promise →
    j = k
  /-- an answer has been got by a request, or will be got by the next -/
  notLost : ∀ promise, s.promises promise ≠ none →
    promise = s.current ∨ ∃ k, s.requests k = .waiting promise
  /-- a request that waits gets the next answer, or its timer is about to answer -/
  served : ∀ promise, s.requests s.last = .waiting promise → s.promises promise = none →
    promise = s.current ∨ s.timers s.last = .responding promise
  /-- the completed operation has given its response -/
  final : s.callback.ended = true → ∃ promise, s.promises promise = some .final
  finalOnce : ∀ i j, s.promises i = some .final → s.promises j = some .final → i = j
  /-- to the request of the time when it was completed, or to the next -/
  finalInTime : ∀ k during, s.callback.during = some during → s.answer k = some .final →
    k = during ∨ k = during + 1
  /-- no heartbeat id is refused -/
  accepted : s.rejected = false

/-- A promise is renewed only after its request has got its future, and while the
    completion is under way no request that has come after its beginning renews the
    promise before it is read again, or is answered by its timer. -/
def undisturbed (s : State) : Op → Bool
  | .renewPromise k =>
      (match s.requests k with
        | .waiting _ => true
        | _ => false) &&
      (match s.callback with
        | .trying during _ => k ≤ during
        | .gettingAgain during => k ≤ during
        | _ => true)
  | .trySuccess k =>
      match s.callback with
      | .completing during _ => k ≤ during
      | _ => true
  | _ => true

/-! ## The invariant -/

/-- The promise is not completed with a heartbeat response. -/
def NoHeartbeat (answer : Option Answer) : Prop := answer = none ∨ answer = some .final

/-- The operation has not given its response. -/
def NoFinal (promises : Nat → Option Answer) : Prop := ∀ promise, promises promise ≠ some .final

/-- The last request, by the place of its timer: request `k` waits for promise `k`,
    which is current until the timer renews it. -/
def LastKept (s : State) : Prop :=
  match s.timers s.last with
  | .unset =>
      s.requests s.last = .starting ∧ s.current = s.last ∧ NoHeartbeat (s.promises s.last)
  | .running | .inserting =>
      (s.requests s.last = .reading ∨ s.requests s.last = .waiting s.last) ∧
        s.current = s.last ∧ NoHeartbeat (s.promises s.last)
  | .renewing =>
      (s.requests s.last = .reading ∨ s.requests s.last = .waiting s.last) ∧
        s.current = s.last ∧ NoHeartbeat (s.promises s.last) ∧
        s.pendingOperations s.last = true
  | .responding oldPromise =>
      s.requests s.last = .waiting s.last ∧ oldPromise = s.last ∧ s.current = s.last + 1 ∧
        NoHeartbeat (s.promises s.last) ∧ s.pendingOperations s.last = true
  | .removing =>
      s.requests s.last = .waiting s.last ∧ s.current = s.last + 1 ∧
        s.promises s.last = some .final
  | .done =>
      s.requests s.last = .waiting s.last ∧ s.current = s.last + 1 ∧
        (s.promises s.last = some .final ∨
          s.promises s.last = some (.heartbeat s.last) ∧ s.pendingOperations s.last = true)

/-- The completion: until it has found a promise that is not completed, the promise
    after the one of its beginning is free. -/
def CallbackKept (s : State) : Prop :=
  match s.callback with
  | .waiting => NoFinal s.promises
  | .trying during promise =>
      NoFinal s.promises ∧ (promise = during ∨ promise = during + 1) ∧ promise ≤ s.current ∧
        s.current ≤ during + 1 ∧ s.promises (during + 1) = none
  | .gettingAgain during =>
      NoFinal s.promises ∧ s.current = during + 1 ∧ s.promises (during + 1) = none
  | .completing during promise =>
      NoFinal s.promises ∧ promise = during + 1 ∧ during + 1 ≤ s.current ∧
        s.promises (during + 1) = none
  | .done during =>
      ∃ promise, (promise = during ∨ promise = during + 1) ∧ promise ≤ s.current ∧
        s.promises promise = some .final ∧ ∀ p, s.promises p = some .final → p = promise
  | .threw _ => False

structure Kept (s : State) : Prop where
  past : ∀ k < s.last, s.requests k = .waiting k ∧ s.timers k = .done ∧
    s.promises k = some (.heartbeat k)
  future : ∀ k, s.last < k → s.requests k = .absent ∧ s.timers k = .unset
  next : s.nextPromise = s.current + 1
  fresh : ∀ promise, s.current < promise → s.promises promise = none
  beyond : NoHeartbeat (s.promises (s.last + 1))
  lastKept : LastKept s
  callbackKept : CallbackKept s
  accepted : s.rejected = false

theorem kept_start : Kept .start where
  past _ hk := absurd hk (Nat.not_lt_zero _)
  future _ hk := ⟨if_neg (Nat.pos_iff_ne_zero.mp hk), rfl⟩
  next := rfl
  fresh _ _ := rfl
  beyond := .inl rfl
  lastKept := ⟨rfl, rfl, .inl rfl⟩
  callbackKept _ := nofun
  accepted := rfl

variable {s s' : State} {k : Nat}

/-- Only the timer of the last request is under way. -/
theorem Kept.last_of_timer (h : Kept s) (hunset : s.timers k ≠ .unset)
    (hdone : s.timers k ≠ .done) : k = s.last := by
  rcases Nat.lt_trichotomy k s.last with hlt | heq | hgt
  · exact absurd (h.past k hlt).2.1 hdone
  · exact heq
  · exact absurd (h.future k hgt).2 hunset

/-- Only the last request is on its way. -/
theorem Kept.last_of_request (h : Kept s) (habsent : s.requests k ≠ .absent)
    (hwaiting : s.requests k ≠ .waiting k) : k = s.last := by
  rcases Nat.lt_trichotomy k s.last with hlt | heq | hgt
  · exact absurd (h.past k hlt).1 hwaiting
  · exact heq
  · exact absurd (h.future k hgt).1 habsent

theorem Kept.current_le (h : Kept s) : s.current = s.last ∨ s.current = s.last + 1 := by
  have hlast := h.lastKept
  unfold LastKept at hlast
  split at hlast <;> grind

/-- What a step of the last request and its timer leaves alone: the other requests
    and the promises of the earlier ones. -/
theorem Kept.of_last (h : Kept s) (hlast : s'.last = s.last)
    (hrequests : ∀ k, k ≠ s.last → s'.requests k = s.requests k)
    (htimers : ∀ k, k ≠ s.last → s'.timers k = s.timers k)
    (hpromises : ∀ k < s.last, s'.promises k = s.promises k)
    (hnext : s'.nextPromise = s'.current + 1)
    (hfresh : ∀ promise, s'.current < promise → s'.promises promise = none)
    (hbeyond : NoHeartbeat (s'.promises (s.last + 1)))
    (hlastKept : LastKept s') (hcallback : CallbackKept s') (haccepted : s'.rejected = false) :
    Kept s' where
  past k hk := by
    rw [hlast] at hk
    rw [hrequests k (Nat.ne_of_lt hk), htimers k (Nat.ne_of_lt hk), hpromises k hk]
    exact h.past k hk
  future k hk := by
    rw [hlast] at hk
    rw [hrequests k (Nat.ne_of_gt hk), htimers k (Nat.ne_of_gt hk)]
    exact h.future k hk
  next := hnext
  fresh := hfresh
  beyond := by rwa [hlast]
  lastKept := hlastKept
  callbackKept := hcallback
  accepted := haccepted

/-! ## The request and its timer -/

theorem kept_startTimer (h : Kept s) (hstep : step s (.startTimer k) = some s') : Kept s' := by
  simp only [step] at hstep
  split at hstep
  · rename_i hstarting
    cases hstep
    obtain rfl := h.last_of_request (by rw [hstarting]; exact nofun) (by rw [hstarting]; exact nofun)
    have hlast := h.lastKept
    refine h.of_last rfl (fun _ hk => Function.update_of_ne hk _ _)
      (fun _ hk => Function.update_of_ne hk _ _) (fun _ _ => rfl) h.next h.fresh h.beyond ?_
      h.callbackKept h.accepted
    simp only [LastKept, State.setTimer, State.setRequest, Function.update_self] at hlast ⊢
    split at hlast <;> grind
  · cases hstep

/-- The request reads its own promise: it is not renewed yet. -/
theorem kept_currentFuture (h : Kept s) (hstep : step s (.currentFuture k) = some s') :
    Kept s' := by
  simp only [step] at hstep
  split at hstep
  · rename_i hreading
    cases hstep
    obtain rfl := h.last_of_request (by rw [hreading]; exact nofun) (by rw [hreading]; exact nofun)
    have hlast := h.lastKept
    refine h.of_last rfl (fun _ hk => Function.update_of_ne hk _ _) (fun _ _ => rfl)
      (fun _ _ => rfl) h.next h.fresh h.beyond ?_ h.callbackKept h.accepted
    simp only [LastKept, State.setRequest, Function.update_self] at hlast ⊢
    split at hlast <;> grind
  · cases hstep

theorem kept_elapse (h : Kept s) (hstep : step s (.elapse k) = some s') : Kept s' := by
  simp only [step] at hstep
  split at hstep
  · rename_i hrunning
    cases hstep
    obtain rfl := h.last_of_timer (by rw [hrunning]; exact nofun) (by rw [hrunning]; exact nofun)
    have hlast := h.lastKept
    refine h.of_last rfl (fun _ _ => rfl) (fun _ hk => Function.update_of_ne hk _ _)
      (fun _ _ => rfl) h.next h.fresh h.beyond ?_ h.callbackKept h.accepted
    simp only [LastKept, hrunning, State.setTimer, Function.update_self] at hlast ⊢
    exact hlast
  · cases hstep

theorem kept_insertId (h : Kept s) (hstep : step s (.insertId k) = some s') : Kept s' := by
  simp only [step] at hstep
  split at hstep
  · rename_i hinserting
    cases hstep
    obtain rfl := h.last_of_timer (by rw [hinserting]; exact nofun)
      (by rw [hinserting]; exact nofun)
    have hlast := h.lastKept
    refine h.of_last rfl (fun _ _ => rfl) (fun _ hk => Function.update_of_ne hk _ _)
      (fun _ _ => rfl) h.next h.fresh h.beyond ?_ h.callbackKept h.accepted
    simp only [LastKept, hinserting, State.setTimer, Function.update_self, and_true] at hlast ⊢
    exact hlast
  · cases hstep

theorem kept_removeId (h : Kept s) (hstep : step s (.removeId k) = some s') : Kept s' := by
  simp only [step] at hstep
  split at hstep
  · rename_i hremoving
    cases hstep
    obtain rfl := h.last_of_timer (by rw [hremoving]; exact nofun) (by rw [hremoving]; exact nofun)
    have hlast := h.lastKept
    refine h.of_last rfl (fun _ _ => rfl) (fun _ hk => Function.update_of_ne hk _ _)
      (fun _ _ => rfl) h.next h.fresh h.beyond ?_ h.callbackKept h.accepted
    simp only [LastKept, hremoving, State.setTimer, Function.update_self] at hlast ⊢
    exact ⟨hlast.1, hlast.2.1, .inl hlast.2.2⟩
  · cases hstep

/-- A new promise: the completion still finds the one it may need. -/
theorem kept_renewPromise (h : Kept s) (hundisturbed : undisturbed s (.renewPromise k) = true)
    (hstep : step s (.renewPromise k) = some s') : Kept s' := by
  simp only [step] at hstep
  split at hstep
  · rename_i hrenewing
    cases hstep
    obtain rfl := h.last_of_timer (by rw [hrenewing]; exact nofun) (by rw [hrenewing]; exact nofun)
    have hlast := h.lastKept
    simp only [LastKept, hrenewing] at hlast
    obtain ⟨hrequest, hcurrent, hpromise, hid⟩ := hlast
    obtain ⟨hread, hduring⟩ := Bool.and_eq_true_iff.mp hundisturbed
    refine h.of_last rfl (fun _ _ => rfl) (fun _ hk => Function.update_of_ne hk _ _)
      (fun _ _ => rfl) rfl ?_ h.beyond ?_ ?_ h.accepted
    · intro promise hlt
      have hnext := h.next
      exact h.fresh promise (by dsimp only at hlt; omega)
    · have hwaiting : s.requests s.last = .waiting s.last := by
        rcases hrequest with hreading | hwaiting
        · rw [hreading] at hread
          cases hread
        · exact hwaiting
      simp only [LastKept, State.setTimer, Function.update_self]
      exact ⟨hwaiting, hcurrent, by rw [h.next, hcurrent], hpromise, hid⟩
    · have hcallback := h.callbackKept
      have hnext := h.next
      simp only [CallbackKept, State.setTimer] at hcallback ⊢
      split at hcallback <;> grind
  · cases hstep

/-- A heartbeat response is not the final one. -/
theorem heartbeat_update {promises : Nat → Option Answer} {promise id : Nat}
    (hnone : promises promise = none) (p : Nat) :
    Function.update promises promise (some (.heartbeat id)) p = some .final ↔
      promises p = some .final := by
  by_cases hp : p = promise
  · rw [hp, Function.update_self, hnone]
    exact ⟨nofun, nofun⟩
  · rw [Function.update_of_ne hp]

/-- The heartbeat response, unless the operation has given its own. -/
theorem kept_trySuccess (h : Kept s) (hundisturbed : undisturbed s (.trySuccess k) = true)
    (hstep : step s (.trySuccess k) = some s') : Kept s' := by
  simp only [step] at hstep
  split at hstep
  · rename_i oldPromise hresponding
    obtain rfl := h.last_of_timer (by rw [hresponding]; exact nofun)
      (by rw [hresponding]; exact nofun)
    have hlast := h.lastKept
    simp only [LastKept, hresponding] at hlast
    obtain ⟨hrequest, rfl, hcurrent, hpromise, hid⟩ := hlast
    rcases hpromise with hnone | hfinal
    · simp only [State.tryComplete, hnone, if_true] at hstep
      cases hstep
      refine h.of_last rfl (fun _ _ => rfl) (fun _ hk => Function.update_of_ne hk _ _)
        (fun _ hk => Function.update_of_ne (Nat.ne_of_lt hk) _ _) h.next ?_ ?_ ?_ ?_ h.accepted
      · intro promise hlt
        have hne : promise ≠ s.last := by
          dsimp only [State.setTimer] at hlt
          omega
        exact (Function.update_of_ne hne _ _).trans (h.fresh promise hlt)
      · simp only [State.setTimer, Function.update_of_ne (Nat.succ_ne_self s.last)]
        exact h.beyond
      · simp only [LastKept, State.setTimer, Function.update_self]
        exact ⟨hrequest, hcurrent, .inr ⟨trivial, hid⟩⟩
      · -- the promise that the completion may need is a later one
        have hlater : ∀ p, s.last < p → Function.update s.promises s.last
            (some (.heartbeat s.last)) p = s.promises p :=
          fun p hp => Function.update_of_ne (Nat.ne_of_gt hp) _ _
        have hcallback := h.callbackKept
        simp only [undisturbed] at hundisturbed
        simp only [CallbackKept, State.setTimer, NoFinal, ne_eq, heartbeat_update hnone]
          at hcallback ⊢
        split at hcallback <;> grind
    · simp only [State.tryComplete, hfinal] at hstep
      cases hstep
      refine h.of_last rfl (fun _ _ => rfl) (fun _ hk => Function.update_of_ne hk _ _)
        (fun _ _ => rfl) h.next h.fresh h.beyond ?_ h.callbackKept h.accepted
      simp only [LastKept, State.setTimer, Function.update_self]
      exact ⟨hrequest, hcurrent, hfinal⟩
  · cases hstep

/-! ## The client -/

/-- The last request, once it has a heartbeat response. -/
theorem Kept.of_heartbeat (h : Kept s) {promise id : Nat}
    (hrequest : s.requests s.last = .waiting promise)
    (hpromise : s.promises promise = some (.heartbeat id)) :
    promise = s.last ∧ id = s.last ∧ s.timers s.last = .done ∧ s.current = s.last + 1 ∧
      s.pendingOperations s.last = true := by
  have hlast := h.lastKept
  simp only [LastKept, NoHeartbeat] at hlast
  split at hlast <;> grind

/-- The next request is accepted, and finds the promise of its number. -/
theorem kept_continueHeartbeat (h : Kept s) (hstep : step s .continueHeartbeat = some s') :
    Kept s' := by
  simp only [step] at hstep
  split at hstep
  · rename_i promise hrequest
    split at hstep
    · rename_i id hpromise
      obtain ⟨rfl, rfl, htimer, hcurrent, hid⟩ := h.of_heartbeat hrequest hpromise
      rw [if_pos hid] at hstep
      cases hstep
      refine ⟨?_, ?_, h.next, h.fresh, ?_, ?_, h.callbackKept, h.accepted⟩
      · intro k hk
        have hne : k ≠ s.last + 1 := Nat.ne_of_lt hk
        simp only [State.setRequest, Function.update_of_ne hne]
        rcases Nat.lt_succ_iff_lt_or_eq.mp hk with hlt | rfl
        · exact h.past k hlt
        · exact ⟨hrequest, htimer, hpromise⟩
      · intro k hk
        have hk : s.last + 1 < k := hk
        simp only [State.setRequest, Function.update_of_ne (Nat.ne_of_gt hk)]
        exact h.future k (Nat.lt_of_succ_lt hk)
      · refine .inl (h.fresh _ ?_)
        rw [hcurrent]
        exact Nat.lt_succ_self _
      · simp only [LastKept, State.setRequest, Function.update_self,
          (h.future (s.last + 1) (Nat.lt_succ_self _)).2]
        exact ⟨trivial, hcurrent, h.beyond⟩
    · cases hstep
  · cases hstep

/-! ## The completion -/

theorem kept_complete (h : Kept s) (hstep : step s .complete = some s') : Kept s' := by
  simp only [step] at hstep
  split at hstep
  · rename_i hwaiting
    cases hstep
    have hcallback := h.callbackKept
    simp only [CallbackKept, hwaiting] at hcallback
    refine ⟨h.past, h.future, h.next, h.fresh, h.beyond, h.lastKept, ?_, h.accepted⟩
    refine ⟨hcallback, h.current_le, Nat.le_refl _, ?_, ?_⟩
    · rcases h.current_le with hle | hle <;> dsimp only <;> omega
    · rcases h.beyond with hnone | hfinal
      · exact hnone
      · exact absurd hfinal (hcallback _)
  · cases hstep

/-- The response goes to a promise that is not completed. -/
theorem Kept.giveFinal (h : Kept s) {during promise : Nat} (hnone : s.promises promise = none)
    (hle : promise ≤ s.current) (hduring : promise = during ∨ promise = during + 1)
    (hno : NoFinal s.promises) :
    Kept { s with
      promises := Function.update s.promises promise (some .final), callback := .done during } := by
  have hlast : s.last ≤ promise := by
    by_contra hlt
    have hpast := (h.past promise (Nat.lt_of_not_le hlt)).2.2
    rw [hnone] at hpast
    cases hpast
  refine h.of_last rfl (fun _ _ => rfl) (fun _ _ => rfl) ?_ h.next ?_ ?_ ?_ ?_ h.accepted
  · intro k hk
    exact Function.update_of_ne (Nat.ne_of_lt (Nat.lt_of_lt_of_le hk hlast)) _ _
  · intro p hp
    have hne : p ≠ promise := Nat.ne_of_gt (Nat.lt_of_le_of_lt hle hp)
    exact (Function.update_of_ne hne _ _).trans (h.fresh p hp)
  · by_cases heq : s.last + 1 = promise
    · exact .inr (by rw [← heq]; exact Function.update_self ..)
    · dsimp only
      rw [Function.update_of_ne heq]
      exact h.beyond
  · have hkept := h.lastKept
    by_cases heq : promise = s.last
    · subst heq
      simp only [LastKept, NoHeartbeat, Function.update_self, hnone] at hkept ⊢
      split at hkept <;> grind
    · simp only [LastKept, Function.update_of_ne (Ne.symm heq)] at hkept ⊢
      exact hkept
  · refine ⟨promise, hduring, hle, Function.update_self .., ?_⟩
    intro p hp
    by_contra hne
    dsimp only at hp
    rw [Function.update_of_ne hne] at hp
    exact hno p hp

theorem kept_tryComplete (h : Kept s) (hstep : step s .tryComplete = some s') : Kept s' := by
  simp only [step] at hstep
  split at hstep
  · rename_i during promise htrying
    have hcallback := h.callbackKept
    simp only [CallbackKept, htrying] at hcallback
    obtain ⟨hno, hduring, hle, hcurrent, hfree⟩ := hcallback
    cases hpromise : s.promises promise with
    | none =>
        simp only [State.tryComplete, hpromise] at hstep
        cases hstep
        exact h.giveFinal hpromise hle hduring hno
    | some answer =>
        simp only [State.tryComplete, hpromise] at hstep
        cases hstep
        refine ⟨h.past, h.future, h.next, h.fresh, h.beyond, h.lastKept, ?_, h.accepted⟩
        -- it was the promise of the beginning, and its request has been answered
        obtain rfl : promise = during := by
          rcases hduring with heq | heq
          · exact heq
          · rw [heq, hfree] at hpromise
            cases hpromise
        have hanswered : promise + 1 ≤ s.current := by
          rcases Nat.lt_trichotomy promise s.last with hlt | heq | hgt
          · rcases h.current_le with hcur | hcur <;> omega
          · have hlast := h.lastKept
            have hfinal := hno promise
            subst heq
            simp only [LastKept, NoHeartbeat] at hlast
            split at hlast <;> grind
          · -- nobody has answered a request that has not come
            have heq : promise = s.last + 1 := by
              rcases h.current_le with hcur | hcur <;> omega
            rcases h.beyond with hnone | hfinal
            · rw [← heq, hpromise] at hnone
              cases hnone
            · exact absurd hfinal (hno _)
        exact ⟨hno, Nat.le_antisymm hcurrent hanswered, hfree⟩
  · cases hstep

theorem kept_getAgain (h : Kept s) (hstep : step s .getAgain = some s') : Kept s' := by
  simp only [step] at hstep
  split at hstep
  · rename_i during hgetting
    cases hstep
    have hcallback := h.callbackKept
    simp only [CallbackKept, hgetting] at hcallback
    obtain ⟨hno, hcurrent, hfree⟩ := hcallback
    refine ⟨h.past, h.future, h.next, h.fresh, h.beyond, h.lastKept, ?_, h.accepted⟩
    exact ⟨hno, hcurrent, Nat.le_of_eq hcurrent.symm, hfree⟩
  · cases hstep

/-- The promise read again is free. -/
theorem kept_completeAgain (h : Kept s) (hstep : step s .completeAgain = some s') : Kept s' := by
  simp only [step] at hstep
  split at hstep
  · rename_i during promise hcompleting
    have hcallback := h.callbackKept
    simp only [CallbackKept, hcompleting] at hcallback
    obtain ⟨hno, rfl, hle, hfree⟩ := hcallback
    simp only [State.tryComplete, hfree] at hstep
    cases hstep
    exact h.giveFinal hfree hle (.inr rfl) hno
  · cases hstep

/-- One step that does not disturb the completion. -/
theorem Kept.step (h : Kept s) {op : Op} (hundisturbed : undisturbed s op = true)
    (hstep : Steps s op s') : Kept s' := by
  have hstep : HeartbeatAnswer.step s op = some s' := hstep
  cases op with
  | startTimer k => exact kept_startTimer h hstep
  | currentFuture k => exact kept_currentFuture h hstep
  | continueHeartbeat => exact kept_continueHeartbeat h hstep
  | elapse k => exact kept_elapse h hstep
  | insertId k => exact kept_insertId h hstep
  | renewPromise k => exact kept_renewPromise h hundisturbed hstep
  | trySuccess k => exact kept_trySuccess h hundisturbed hstep
  | removeId k => exact kept_removeId h hstep
  | complete => exact kept_complete h hstep
  | tryComplete => exact kept_tryComplete h hstep
  | getAgain => exact kept_getAgain h hstep
  | completeAgain => exact kept_completeAgain h hstep

/-! ## What is answered -/

theorem Kept.waiting_eq (h : Kept s) {promise : Nat} (hk : s.requests k = .waiting promise) :
    promise = k := by
  rcases Nat.lt_trichotomy k s.last with hlt | heq | hgt
  · exact Request.waiting.inj (hk.symm.trans (h.past k hlt).1)
  · subst heq
    have hlast := h.lastKept
    simp only [LastKept] at hlast
    split at hlast <;> grind
  · rw [(h.future k hgt).1] at hk
    cases hk

theorem Kept.answer_of_lt (h : Kept s) (hk : k < s.last) :
    s.answer k = some (.heartbeat k) := by
  obtain ⟨hrequest, -, hpromise⟩ := h.past k hk
  rw [State.answer, hrequest]
  exact hpromise

/-- A completed promise is current, or its request waits for it. -/
theorem Kept.notLost (h : Kept s) {promise : Nat} (hp : s.promises promise ≠ none) :
    promise = s.current ∨ ∃ k, s.requests k = .waiting promise := by
  rcases Nat.lt_trichotomy promise s.last with hlt | heq | hgt
  · exact .inr ⟨promise, (h.past promise hlt).1⟩
  · subst heq
    have hlast := h.lastKept
    simp only [LastKept] at hlast
    split at hlast <;> grind
  · -- only the promise after the last request's
    refine .inl ?_
    by_contra hne
    refine hp (h.fresh promise ?_)
    rcases h.current_le with hcur | hcur <;> omega

theorem Kept.answered (h : Kept s) : Answered s := by
  refine ⟨fun k hk => h.answer_of_lt hk, ?_, fun p hp => h.notLost hp, ?_, ?_, ?_, ?_, h.accepted⟩
  · intro j k promise hj hk
    rw [← h.waiting_eq hj, h.waiting_eq hk]
  · intro promise hwaiting hnone
    obtain rfl := h.waiting_eq hwaiting
    have hlast := h.lastKept
    simp only [LastKept] at hlast
    split at hlast <;> grind
  · intro hended
    have hcallback := h.callbackKept
    simp only [CallbackKept] at hcallback
    split at hcallback
    all_goals
      rename_i hc
      simp only [hc, Callback.ended] at hended
    · cases hended
    · cases hended
    · cases hended
    · cases hended
    · obtain ⟨promise, -, -, hfinal, -⟩ := hcallback
      exact ⟨promise, hfinal⟩
    · exact hcallback.elim
  · intro i j hi hj
    have hcallback := h.callbackKept
    simp only [CallbackKept, NoFinal] at hcallback
    split at hcallback <;> grind
  · intro k during hduring hanswer
    have hpromise : s.promises k = some .final := by
      rw [State.answer] at hanswer
      split at hanswer
      · rename_i promise hk
        rw [h.waiting_eq hk] at hanswer
        exact hanswer
      · cases hanswer
    have hcallback := h.callbackKept
    simp only [CallbackKept, NoFinal, Callback.during] at hcallback hduring
    split at hcallback <;> grind

/-! ## Runs -/

/-- Two heartbeat periods end while the completion is under way: the second
    promise, too, is completed when it is to get the response. -/
def twoPeriods : List Op :=
  [.startTimer 0, .currentFuture 0, .complete,
    .elapse 0, .insertId 0, .renewPromise 0, .trySuccess 0, .tryComplete, .getAgain,
    .continueHeartbeat, .startTimer 1, .currentFuture 1,
    .elapse 1, .insertId 1, .renewPromise 1, .trySuccess 1, .completeAgain]

theorem not_answered_twoPeriods :
    ¬∀ s, Reach (· = .start) Steps s → Answered s := by
  intro hall
  obtain ⟨s, hrun, hended, hp⟩ : ∃ s, runAll step .start twoPeriods = some s ∧
      s.callback.ended = true ∧ s.promises = Function.update (Function.update (fun _ => none) 0
        (some (.heartbeat 0))) 1 (some (.heartbeat 1)) := ⟨_, rfl, rfl, rfl⟩
  have hreach : Reach (· = .start) Steps s := Reach.runAll (fun _ _ _ h => h) (Reach.start rfl) hrun
  obtain ⟨promise, hfinal⟩ := (hall s hreach).final hended
  rw [hp, heartbeat_update rfl, heartbeat_update rfl] at hfinal
  cases hfinal

/-- Every request is answered once, and the response is given once, in every run in
    which the renewals disturb neither a request nor the completion. -/
theorem answered_of_undisturbed (s : State)
    (h : Reach (· = .start) (Guarded (fun s op => undisturbed s op = true) Steps) s) :
    Answered s := by
  have hkept : Kept s := h.invariant
    (fun s₀ h0 => by rw [h0]; exact kept_start)
    (fun _ _ _ hk hstep => hk.step hstep.1 hstep.2)
  exact hkept.answered

/-- One period ends while the completion is under way. -/
def onePeriod : List Op :=
  [.startTimer 0, .currentFuture 0, .complete,
    .elapse 0, .insertId 0, .renewPromise 0, .trySuccess 0, .tryComplete, .getAgain,
    .continueHeartbeat, .startTimer 1, .currentFuture 1, .completeAgain]

theorem answered_of_undisturbed_onePeriod :
    ∃ s, runAll (nextIf (fun s op => undisturbed s op = true) step) .start onePeriod = some s ∧
      s.answer 0 = some (.heartbeat 0) ∧ s.answer 1 = some .final ∧ Answered s := by
  obtain ⟨s, hrun, h0, h1⟩ : ∃ s,
      runAll (nextIf (fun s op => undisturbed s op = true) step) .start onePeriod = some s ∧
        s.answer 0 = some (.heartbeat 0) ∧ s.answer 1 = some .final := ⟨_, rfl, rfl, rfl⟩
  refine ⟨s, hrun, h0, h1, answered_of_undisturbed s ?_⟩
  exact Reach.runAll (fun _ _ _ h => nextIf_step (fun _ _ _ h => h) h) (Reach.start rfl) hrun

end HeartbeatAnswer
