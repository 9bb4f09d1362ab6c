import Mathlib.Logic.Function.Basic
import SchedulerEngine.RunInvariantProofs
import SchedulerEngine.TimerQueueProofs

/-! # The clock of the timer service

    Threads that add and cancel timers, and the one clock thread, which waits for
    the head of the queue.  An adder wakes the clock only if its timer comes
    before the head that it has read before the insertion. -/

namespace TimerService

open RunInvariant

/-! ## Timers, threads and the clock -/

/-- `Timer`; `instant` is its `at`, in nanoseconds. -/
structure Timer where
  id : Nat
  instant : Int
deriving DecidableEq, Repr

def Timer.atEpochMilli (timer : Timer) : Int := timer.instant / 1000000

def neverMillis : Int := 9223372036854775807

def neverTimer : Timer := ⟨0, neverMillis * 1000000⟩

/-- Who starts or wakes the clock: `add`, `cancel` or a clock that has terminated. -/
inductive Caller where
  | add
  | cancel
  | clock
deriving DecidableEq, Repr

/-- Where a thread is. -/
inductive Thread where
  | away
  | reading (timer : Timer)
  | inserting (timer : Timer) (t : Int)
  | starting (caller : Caller)
  | waking (caller : Caller)
  | removing (timer : Timer)
  | checking
deriving DecidableEq, Repr

/-- Where the clock thread is in its loop.  A `sleep` of the loop is a pause
    between two of its steps. -/
inductive Clock where
  | off
  | turn
  | waitUntil (atMillis : Int)
  | entering (atMillis : Int)
  | blocked (atMillis : Int)
  | idle
  | idling
  | timedOut
deriving DecidableEq, Repr

structure State where
  queue : List Timer
  signaled : Bool
  isRunning : Bool
  completed : List Timer
  clock : Clock
  threads : Nat → Thread

def State.start : State := ⟨[neverTimer], false, false, [], .off, fun _ => .away⟩

def State.setThread (s : State) (th : Nat) (thread : Thread) : State :=
  { s with threads := Function.update s.threads th thread }

def State.setClock (s : State) (clock : Clock) : State := { s with clock := clock }

/-- `nonEmpty`. -/
def State.nonEmpty (s : State) : Bool :=
  match s.queue.head? with
  | none => false
  | some head => head != neverTimer

/-! ## The steps -/

inductive Op where
  | add (th : Nat) (timer : Timer) (now : Int)
  | nextInstant (th : Nat)
  | queueAdd (th : Nat)
  | compareAndSet (th : Nat)
  | signal (th : Nat)
  | cancel (th : Nat) (timer : Timer)
  | queueRemove (th : Nat)
  | popNext (nowMillis : Int)
  | remainingMillis (nowMillis : Int)
  | await
  | awake
  | terminate (th : Nat)
  | checkNonEmpty (th : Nat)
deriving DecidableEq, Repr

/-- One step of a thread or of the clock, as far as it can be made.  `idleTimeout`
    says whether an idle clock stops waiting after some time. -/
def step (idleTimeout : Bool) (s : State) : Op → Option State
  | .add th timer now =>
      if s.threads th = .away ∧ timer.atEpochMilli < neverMillis then
        if timer.instant ≤ now then some { s with completed := timer :: s.completed }
        else some (s.setThread th (.reading timer))
      else none
  | .nextInstant th =>
      match s.threads th, s.queue.head? with
      | .reading timer, some head => some (s.setThread th (.inserting timer head.instant))
      | _, _ => none
  | .queueAdd th =>
      match s.threads th with
      | .inserting timer t =>
          some { s.setThread th (if timer.instant < t then .starting .add else .away) with
            queue := TimerQueue.insert Timer.atEpochMilli timer s.queue }
      | _ => none
  | .compareAndSet th =>
      match s.threads th with
      | .starting caller =>
          if s.isRunning then some (s.setThread th (.waking caller))
          else some { s.setThread th .away with isRunning := true, clock := .turn }
      | _ => none
  | .signal th =>
      match s.threads th with
      | .waking _ => some { s.setThread th .away with signaled := true }
      | _ => none
  | .cancel th timer =>
      if s.threads th = .away ∧ timer.atEpochMilli < neverMillis then
        some (s.setThread th (.removing timer))
      else none
  | .queueRemove th =>
      match s.threads th with
      | .removing timer =>
          some { s.setThread th (.waking .cancel) with
            queue := s.queue.eraseP
              (TimerQueue.isEntry Timer.atEpochMilli timer.atEpochMilli timer) }
      | _ => none
  | .popNext nowMillis =>
      if s.clock = .turn ∧ nowMillis < neverMillis then
        match TimerQueue.popNext Timer.atEpochMilli nowMillis s.queue with
        | .ok (.inl atMillis, queue) =>
            some { s.setClock (if atMillis = neverMillis then .idle else .waitUntil atMillis) with
              queue := queue }
        | .ok (.inr timer, queue) =>
            some { s with queue := queue, completed := timer :: s.completed }
        | .error _ => none
      else none
  | .remainingMillis nowMillis =>
      match s.clock with
      | .waitUntil atMillis =>
          some (s.setClock (if 0 < atMillis - nowMillis then .entering atMillis else .turn))
      | _ => none
  | .await =>
      match s.clock with
      | .entering atMillis =>
          if s.signaled then some { s.setClock .turn with signaled := false }
          else some (s.setClock (.blocked atMillis))
      | .idle =>
          if s.signaled then some { s.setClock .turn with signaled := false }
          else some (s.setClock .idling)
      | _ => none
  | .awake =>
      -- after a signal, after the time, or for no reason
      match s.clock with
      | .blocked _ => some { s.setClock .turn with signaled := false }
      | .idling =>
          some { s.setClock (if idleTimeout && !s.signaled then .timedOut else .turn) with
            signaled := false }
      | _ => none
  | .terminate th =>
      if s.clock = .timedOut ∧ s.threads th = .away then
        some { s.setThread th .checking with isRunning := false, clock := .off }
      else none
  | .checkNonEmpty th =>
      match s.threads th with
      | .checking => some (s.setThread th (if s.nonEmpty then .starting .clock else .away))
      | _ => none

def Steps (idleTimeout : Bool) : State → Op → State → Prop :=
  fun s op s' => step idleTimeout s op = some s'

/-! ## No lost wake-up -/

/-- The instant until which the clock thread is blocked. -/
def Clock.blockedUntil : Clock → Option Int
  | .blocked atMillis => some atMillis
  | .idling => some neverMillis
  | _ => none

/-- The thread is in the middle of an `add`. -/
def Thread.adds : Thread → Bool
  | .reading _ => true
  | .inserting _ _ => true
  | .starting caller => caller = .add
  | .waking caller => caller = .add
  | _ => false

/-- While the clock sleeps, and nobody is about to wake it, nothing in the queue
    comes before the end of its sleep. -/
def WakesInTime (s : State) : Prop :=
  ∀ t, s.clock.blockedUntil = some t → s.signaled = false → (∀ th, (s.threads th).adds = false) →
    ∀ timer ∈ s.queue, t ≤ timer.atEpochMilli

/-- The instant the clock has decided to wait for. -/
def Clock.target : Clock → Option Int
  | .waitUntil atMillis => some atMillis
  | .entering atMillis => some atMillis
  | .blocked atMillis => some atMillis
  | .idle => some neverMillis
  | .idling => some neverMillis
  | _ => none

/-- The thread is going to wake the clock for a timer that it has added. -/
def Thread.wakes : Thread → Bool
  | .starting caller => caller = .add
  | .waking caller => caller = .add
  | _ => false

/-- The thread is going to see whether the clock has to be started. -/
def Thread.starts : Thread → Bool
  | .starting _ => true
  | .checking => true
  | _ => false

/-- The timer a thread works on. -/
def Thread.timer : Thread → Option Timer
  | .reading timer => some timer
  | .inserting timer _ => some timer
  | .removing timer => some timer
  | _ => none

/-- What the service keeps: the queue is sorted and ends with the marker, a clock
    that waits too long will be woken, and one that is off will be started. -/
structure Kept (s : State) : Prop where
  inOrder : TimerQueue.InOrder Timer.atEpochMilli s.queue
  marker : neverTimer ∈ s.queue
  others : ∀ timer ∈ s.queue, timer = neverTimer ∨ timer.atEpochMilli < neverMillis
  working : ∀ th timer, (s.threads th).timer = some timer → timer.atEpochMilli < neverMillis
  running : s.isRunning = false ↔ s.clock = .off
  woken : ∀ t, s.clock.target = some t → ∀ timer ∈ s.queue, timer.atEpochMilli < t →
    s.signaled = true ∨ ∃ th, (s.threads th).wakes = true
  started : s.isRunning = false → ∀ timer ∈ s.queue, timer.atEpochMilli < neverMillis →
    ∃ th, (s.threads th).starts = true

theorem kept_start : Kept .start where
  inOrder := List.pairwise_singleton _ _
  marker := List.mem_singleton_self _
  others timer h := .inl (List.mem_singleton.mp h)
  working _ _ h := by cases h
  running := ⟨fun _ => rfl, fun _ => rfl⟩
  woken _ h := by cases h
  started _ timer h hlt := by
    rw [List.mem_singleton.mp h] at hlt
    exact absurd hlt (by decide)

/-! ## The threads -/

section Threads

variable {threads : Nat → Thread} {th : Nat} {thread : Thread}

theorem exists_update {P : Thread → Bool} (h : ∃ i, P (threads i) = true)
    (hth : P (threads th) = true → P thread = true) :
    ∃ i, P (Function.update threads th thread i) = true := by
  obtain ⟨i, hi⟩ := h
  by_cases hne : i = th
  · subst hne
    exact ⟨i, by rw [Function.update_self]; exact hth hi⟩
  · exact ⟨i, by rw [Function.update_of_ne hne]; exact hi⟩

theorem timer_update (h : ∀ i timer, (threads i).timer = some timer → timer.atEpochMilli < neverMillis)
    (hth : ∀ timer, thread.timer = some timer → timer.atEpochMilli < neverMillis) :
    ∀ i timer, (Function.update threads th thread i).timer = some timer →
      timer.atEpochMilli < neverMillis := by
  intro i timer htimer
  by_cases hne : i = th
  · subst hne
    rw [Function.update_self] at htimer
    exact hth timer htimer
  · rw [Function.update_of_ne hne] at htimer
    exact h i timer htimer

end Threads

variable {s s' : State} {th : Nat} {idleTimeout : Bool}

/-- A thread goes on, and still does what it was going to do for the clock. -/
theorem Kept.setThread (h : Kept s) {thread : Thread}
    (hwakes : (s.threads th).wakes = true → thread.wakes = true)
    (hstarts : s.isRunning = false → (s.threads th).starts = true → thread.starts = true)
    (htimer : ∀ timer, thread.timer = some timer → timer.atEpochMilli < neverMillis) :
    Kept (s.setThread th thread) where
  inOrder := h.inOrder
  marker := h.marker
  others := h.others
  working := timer_update h.working htimer
  running := h.running
  woken t ht timer hmem hlt := (h.woken t ht timer hmem hlt).imp id fun hex =>
    exists_update hex hwakes
  started hoff timer hmem hlt := exists_update (h.started hoff timer hmem hlt) (hstarts hoff)

/-- The clock is awake. -/
theorem Kept.awaken (h : Kept s) {clock : Clock} (signaled : Bool) (hclock : s.clock ≠ .off)
    (hoff : clock ≠ .off) (htarget : clock.target = none) :
    Kept { s.setClock clock with signaled := signaled } where
  inOrder := h.inOrder
  marker := h.marker
  others := h.others
  working := h.working
  running := ⟨fun hrun => absurd (h.running.mp hrun) hclock, fun hc => absurd hc hoff⟩
  woken t ht := by
    have hnone : none = some t := htarget.symm.trans ht
    cases hnone
  started hrun := absurd (h.running.mp hrun) hclock

/-- The clock goes on with what it has decided. -/
theorem Kept.setClock (h : Kept s) {clock : Clock} (hclock : s.clock ≠ .off)
    (hoff : clock ≠ .off) (htarget : clock.target = s.clock.target) :
    Kept (s.setClock clock) where
  inOrder := h.inOrder
  marker := h.marker
  others := h.others
  working := h.working
  running := ⟨fun hrun => absurd (h.running.mp hrun) hclock, fun hc => absurd hc hoff⟩
  woken t ht := h.woken t (htarget ▸ ht)
  started hrun := absurd (h.running.mp hrun) hclock

/-- Timers go, the marker stays. -/
theorem Kept.sublist (h : Kept s) {queue : List Timer} (hsub : queue.Sublist s.queue)
    (hmarker : neverTimer ∈ queue) : Kept { s with queue := queue } where
  inOrder := h.inOrder.sublist hsub
  marker := hmarker
  others timer hmem := h.others timer (hsub.subset hmem)
  working := h.working
  running := h.running
  woken t ht timer hmem := h.woken t ht timer (hsub.subset hmem)
  started hrun timer hmem := h.started hrun timer (hsub.subset hmem)

/-- What has been completed does not matter. -/
theorem Kept.complete (h : Kept s) (completed : List Timer) :
    Kept { s with completed := completed } :=
  ⟨h.inOrder, h.marker, h.others, h.working, h.running, h.woken, h.started⟩

/-! ## The steps one by one -/

/-- The insertion of a timer of which the clock need not know is behind some other. -/
def currentHead (s : State) : Op → Bool
  | .queueAdd th =>
      match s.threads th with
      | .inserting timer t =>
          timer.instant < t || s.queue.any fun queued => queued.atEpochMilli ≤ timer.atEpochMilli
      | _ => true
  | _ => true

theorem mem_insert {timer queued : Timer} {queue : List Timer} :
    queued ∈ TimerQueue.insert Timer.atEpochMilli timer queue ↔ queued = timer ∨ queued ∈ queue :=
  List.mem_orderedInsert _

theorem kept_queueAdd (h : Kept s) {timer : Timer} {t : Int}
    (hth : s.threads th = .inserting timer t)
    (hcurrent : timer.instant < t ∨ ∃ queued ∈ s.queue, queued.atEpochMilli ≤ timer.atEpochMilli) :
    Kept { s.setThread th (if timer.instant < t then .starting .add else .away) with
      queue := TimerQueue.insert Timer.atEpochMilli timer s.queue } := by
  have hbefore : timer.atEpochMilli < neverMillis := h.working th timer (by rw [hth]; rfl)
  have hwakes : ∀ thread, (s.threads th).wakes = true → Thread.wakes thread = true := by
    rw [hth]
    intro _ hfalse
    cases hfalse
  have hstarts : ∀ thread, (s.threads th).starts = true → Thread.starts thread = true := by
    rw [hth]
    intro _ hfalse
    cases hfalse
  have htimer : ∀ queued, Thread.timer (if timer.instant < t then .starting .add else .away)
      = some queued → queued.atEpochMilli < neverMillis := by
    intro queued hqueued
    split at hqueued <;> cases hqueued
  have hset : Kept (s.setThread th (if timer.instant < t then .starting .add else .away)) :=
    h.setThread (hwakes _) (fun _ => hstarts _) htimer
  -- the timer is announced, or stands behind one that was there
  have hback : timer.instant < t ∧ (∃ i, ((s.setThread th (if timer.instant < t then
        .starting .add else .away)).threads i) = .starting .add) ∨
      ∃ queued ∈ s.queue, queued.atEpochMilli ≤ timer.atEpochMilli := by
    rcases hcurrent with hlt | hqueued
    · refine Or.inl ⟨hlt, th, ?_⟩
      rw [if_pos hlt]
      exact Function.update_self th _ _
    · exact Or.inr hqueued
  refine ⟨h.inOrder.insert timer, mem_insert.mpr (.inr h.marker), ?_, hset.working, h.running,
    ?_, ?_⟩
  · intro queued hmem
    rcases mem_insert.mp hmem with rfl | hmem
    · exact .inr hbefore
    · exact h.others queued hmem
  · intro T hT queued hmem hlt
    rcases mem_insert.mp hmem with rfl | hmem
    · rcases hback with ⟨_, i, hi⟩ | ⟨first, hfirst, hle⟩
      · exact .inr ⟨i, by rw [hi]; rfl⟩
      · exact hset.woken T hT first hfirst (lt_of_le_of_lt hle hlt)
    · exact hset.woken T hT queued hmem hlt
  · intro hrun queued hmem hlt
    rcases mem_insert.mp hmem with rfl | hmem
    · rcases hback with ⟨_, i, hi⟩ | ⟨first, hfirst, hle⟩
      · exact ⟨i, by rw [hi]; rfl⟩
      · exact hset.started hrun first hfirst (lt_of_le_of_lt hle hlt)
    · exact hset.started hrun queued hmem hlt

/-- `popNext` on a queue with the marker. -/
theorem popNext_cases (h : Kept s) {nowMillis : Int} (hnow : nowMillis < neverMillis) :
    (∃ head, head ∈ s.queue ∧ (∀ timer ∈ s.queue, head.atEpochMilli ≤ timer.atEpochMilli) ∧
      TimerQueue.popNext Timer.atEpochMilli nowMillis s.queue
        = .ok (.inl head.atEpochMilli, s.queue)) ∨
      ∃ head rest, s.queue = head :: rest ∧ neverTimer ∈ rest ∧
        TimerQueue.popNext Timer.atEpochMilli nowMillis s.queue = .ok (.inr head, rest) := by
  cases hqueue : s.queue with
  | nil =>
      have hmarker := h.marker
      rw [hqueue] at hmarker
      cases hmarker
  | cons head rest =>
      have horder := h.inOrder
      have hmarker := h.marker
      rw [hqueue] at horder hmarker
      by_cases hlt : nowMillis < head.atEpochMilli
      · refine Or.inl ⟨head, List.mem_cons_self, ?_, ?_⟩
        · intro timer hmem
          rcases List.mem_cons.mp hmem with rfl | hmem
          · exact le_refl _
          · exact (List.pairwise_cons.mp horder).1 timer hmem
        · rw [TimerQueue.popNext, if_pos hlt]
      · refine Or.inr ⟨head, rest, rfl, ?_, ?_⟩
        · rcases List.mem_cons.mp hmarker with rfl | hmem
          · exact absurd hnow hlt
          · exact hmem
        · rw [TimerQueue.popNext, if_neg hlt]

theorem kept_popNext (h : Kept s) {nowMillis : Int}
    (hstep : step idleTimeout s (.popNext nowMillis) = some s') : Kept s' := by
  simp only [step] at hstep
  split at hstep
  · rename_i hturn
    have hclock : s.clock ≠ .off := by
      rw [hturn.1]
      exact nofun
    rcases popNext_cases h hturn.2 with ⟨head, hhead, hleast, hpop⟩ | ⟨head, rest, hqueue, hmarker, hpop⟩
    · rw [hpop] at hstep
      cases hstep
      refine ⟨h.inOrder, h.marker, h.others, h.working, ?_, ?_, ?_⟩
      · refine ⟨fun hrun => absurd (h.running.mp hrun) hclock, fun hc => ?_⟩
        dsimp only [State.setClock] at hc
        split at hc <;> cases hc
      · intro t ht timer hmem hlt
        -- the clock waits for the head
        have htarget : t = head.atEpochMilli := by
          dsimp only [State.setClock] at ht
          split at ht
          · rename_i hnever
            exact (Option.some.inj ht).symm.trans hnever.symm
          · exact (Option.some.inj ht).symm
        rw [htarget] at hlt
        exact absurd (hleast timer hmem) (not_le_of_gt hlt)
      · intro hrun
        exact absurd (h.running.mp hrun) hclock
    · rw [hpop] at hstep
      cases hstep
      exact (h.sublist (hqueue ▸ List.sublist_cons_self head rest) hmarker).complete _
  · cases hstep

theorem kept_compareAndSet (h : Kept s)
    (hstep : step idleTimeout s (.compareAndSet th) = some s') : Kept s' := by
  simp only [step] at hstep
  split at hstep
  · rename_i caller hth
    split at hstep
    · rename_i hrun
      cases hstep
      refine h.setThread ?_ ?_ nofun
      · rw [hth]
        exact id
      · intro hoff
        rw [hrun] at hoff
        cases hoff
    · cases hstep
      exact ⟨h.inOrder, h.marker, h.others, timer_update h.working nofun,
        ⟨nofun, nofun⟩, nofun, nofun⟩
  · cases hstep

theorem kept_signal (h : Kept s) (hstep : step idleTimeout s (.signal th) = some s') :
    Kept s' := by
  simp only [step] at hstep
  split at hstep
  · rename_i caller hth
    cases hstep
    refine ⟨h.inOrder, h.marker, h.others, timer_update h.working nofun, h.running,
      fun _ _ _ _ _ => .inl rfl, ?_⟩
    intro hrun timer hmem hlt
    refine exists_update (h.started hrun timer hmem hlt) ?_
    rw [hth]
    exact nofun
  · cases hstep

theorem kept_queueRemove (h : Kept s)
    (hstep : step idleTimeout s (.queueRemove th) = some s') : Kept s' := by
  simp only [step] at hstep
  split at hstep
  · rename_i timer hth
    cases hstep
    have hset : Kept (s.setThread th (.waking .cancel)) := by
      refine h.setThread ?_ ?_ nofun
      · rw [hth]
        exact nofun
      · intro _
        rw [hth]
        exact nofun
    refine hset.sublist List.eraseP_sublist ((List.mem_eraseP_of_neg ?_).mpr h.marker)
    -- the marker is later than every timer that is cancelled
    have hlt := h.working th timer (by rw [hth]; rfl)
    intro hentry
    have hkey : neverTimer.atEpochMilli = timer.atEpochMilli :=
      of_decide_eq_true (Bool.and_eq_true_iff.mp hentry).1
    rw [← hkey] at hlt
    exact absurd hlt (by decide)
  · cases hstep

theorem kept_await (h : Kept s) (hstep : step idleTimeout s .await = some s') : Kept s' := by
  simp only [step] at hstep
  split at hstep
  · rename_i atMillis hclock
    split at hstep
    · cases hstep
      exact h.awaken false (by rw [hclock]; exact nofun) nofun rfl
    · cases hstep
      exact h.setClock (by rw [hclock]; exact nofun) nofun (by rw [hclock]; rfl)
  · rename_i hclock
    split at hstep
    · cases hstep
      exact h.awaken false (by rw [hclock]; exact nofun) nofun rfl
    · cases hstep
      exact h.setClock (by rw [hclock]; exact nofun) nofun (by rw [hclock]; rfl)
  · cases hstep

theorem kept_awake (h : Kept s) (hstep : step idleTimeout s .awake = some s') : Kept s' := by
  simp only [step] at hstep
  split at hstep
  · rename_i atMillis hclock
    cases hstep
    exact h.awaken false (by rw [hclock]; exact nofun) nofun rfl
  · rename_i hclock
    cases hstep
    refine h.awaken false (by rw [hclock]; exact nofun) ?_ ?_
    · split <;> exact nofun
    · split <;> rfl
  · cases hstep

theorem kept_remainingMillis (h : Kept s) {nowMillis : Int}
    (hstep : step idleTimeout s (.remainingMillis nowMillis) = some s') : Kept s' := by
  simp only [step] at hstep
  split at hstep
  · rename_i atMillis hclock
    cases hstep
    have hon : s.clock ≠ .off := by
      rw [hclock]
      exact nofun
    by_cases hpos : 0 < atMillis - nowMillis
    · rw [if_pos hpos]
      exact h.setClock hon nofun (by rw [hclock]; rfl)
    · rw [if_neg hpos]
      exact @Kept.awaken _ h .turn s.signaled hon nofun rfl
  · cases hstep

/-- A clock that terminates leaves a thread that looks at the queue once more. -/
theorem kept_terminate (h : Kept s) (hstep : step idleTimeout s (.terminate th) = some s') :
    Kept s' := by
  simp only [step] at hstep
  split at hstep
  · cases hstep
    refine ⟨h.inOrder, h.marker, h.others, timer_update h.working nofun,
      ⟨fun _ => rfl, fun _ => rfl⟩, nofun, fun _ _ _ _ => ⟨th, ?_⟩⟩
    show Thread.starts (Function.update s.threads th .checking th) = true
    rw [Function.update_self]
    rfl
  · cases hstep

theorem nonEmpty_of_mem (h : Kept s) {timer : Timer} (hmem : timer ∈ s.queue)
    (hlt : timer.atEpochMilli < neverMillis) : s.nonEmpty = true := by
  cases hqueue : s.queue with
  | nil =>
      rw [hqueue] at hmem
      cases hmem
  | cons head rest =>
      rw [State.nonEmpty, hqueue]
      refine bne_iff_ne.mpr fun hnever => ?_
      have horder := h.inOrder
      rw [hqueue] at horder hmem
      rcases List.mem_cons.mp hmem with rfl | hrest
      · rw [hnever] at hlt
        exact absurd hlt (by decide)
      · have hle := (List.pairwise_cons.mp horder).1 timer hrest
        rw [hnever] at hle
        exact absurd hlt (not_lt_of_ge hle)

theorem kept_checkNonEmpty (h : Kept s)
    (hstep : step idleTimeout s (.checkNonEmpty th) = some s') : Kept s' := by
  simp only [step] at hstep
  split at hstep
  · rename_i hth
    cases hstep
    have hwakes : ∀ thread, (s.threads th).wakes = true → Thread.wakes thread = true := by
      rw [hth]
      exact nofun
    have hset : Kept (s.setThread th (.starting .clock)) :=
      h.setThread (hwakes _) (fun _ _ => rfl) nofun
    cases hempty : s.nonEmpty with
    | true => exact hset
    | false =>
        refine ⟨h.inOrder, h.marker, h.others, timer_update h.working nofun, h.running,
          fun t ht timer hmem hlt => (h.woken t ht timer hmem hlt).imp id
            fun hex => exists_update hex (hwakes _), ?_⟩
        intro _ timer hmem hlt
        rw [nonEmpty_of_mem h hmem hlt] at hempty
        cases hempty
  · cases hstep

/-- One step, if a timer that is inserted is announced where it has to be. -/
theorem Kept.step (h : Kept s) {op : Op} (hcurrent : currentHead s op = true)
    (hstep : Steps idleTimeout s op s') : Kept s' := by
  have hstep : TimerService.step idleTimeout s op = some s' := hstep
  cases op with
  | add th timer now =>
      simp only [TimerService.step] at hstep
      split at hstep
      · rename_i haway
        split at hstep
        · cases hstep
          exact h.complete _
        · cases hstep
          refine h.setThread ?_ ?_ ?_
          · rw [haway.1]
            exact nofun
          · intro _
            rw [haway.1]
            exact nofun
          · intro working hworking
            cases hworking
            exact haway.2
      · cases hstep
  | nextInstant th =>
      simp only [TimerService.step] at hstep
      split at hstep
      · rename_i timer head hth _
        cases hstep
        refine h.setThread ?_ ?_ ?_
        · rw [hth]
          exact nofun
        · intro _
          rw [hth]
          exact nofun
        · intro working hworking
          cases hworking
          exact h.working th timer (by rw [hth]; rfl)
      · cases hstep
  | queueAdd th =>
      simp only [TimerService.step] at hstep
      split at hstep
      · rename_i timer t hth
        cases hstep
        refine kept_queueAdd h hth ?_
        simp only [currentHead, hth, Bool.or_eq_true, decide_eq_true_eq, List.any_eq_true]
          at hcurrent
        exact hcurrent
      · cases hstep
  | compareAndSet th => exact kept_compareAndSet h hstep
  | signal th => exact kept_signal h hstep
  | cancel th timer =>
      simp only [TimerService.step] at hstep
      split at hstep
      · rename_i haway
        cases hstep
        refine h.setThread ?_ ?_ ?_
        · rw [haway.1]
          exact nofun
        · intro _
          rw [haway.1]
          exact nofun
        · intro working hworking
          cases hworking
          exact haway.2
      · cases hstep
  | queueRemove th => exact kept_queueRemove h hstep
  | popNext nowMillis => exact kept_popNext h hstep
  | remainingMillis nowMillis => exact kept_remainingMillis h hstep
  | await => exact kept_await h hstep
  | awake => exact kept_awake h hstep
  | terminate th => exact kept_terminate h hstep
  | checkNonEmpty th => exact kept_checkNonEmpty h hstep

/-! ## Runs -/

theorem Thread.adds_of_wakes {thread : Thread} (h : thread.wakes = true) : thread.adds = true := by
  cases thread with
  | starting caller => exact h
  | waking caller => exact h
  | _ => cases h

theorem Clock.target_of_blockedUntil {clock : Clock} {t : Int} (h : clock.blockedUntil = some t) :
    clock.target = some t := by
  cases clock with
  | blocked atMillis => exact h
  | idling => exact h
  | _ => cases h

theorem Kept.wakesInTime (h : Kept s) : WakesInTime s := by
  intro t ht hsignaled hadds timer hmem
  by_contra hlt
  rcases h.woken t (Clock.target_of_blockedUntil ht) timer hmem (lt_of_not_ge hlt) with hsig | ⟨th, hth⟩
  · rw [hsignaled] at hsig
    cases hsig
  · have hadding := Thread.adds_of_wakes hth
    rw [hadds th] at hadding
    cases hadding

/-- A clock that is off leaves nothing behind. -/
def StartedInTime (s : State) : Prop :=
  s.isRunning = false → (∀ th, (s.threads th).starts = false) →
    ∀ timer ∈ s.queue, timer = neverTimer

theorem Kept.startedInTime (h : Kept s) : StartedInTime s := by
  intro hoff hstarts timer hmem
  rcases h.others timer hmem with hnever | hlt
  · exact hnever
  · obtain ⟨th, hth⟩ := h.started hoff timer hmem hlt
    rw [hstarts th] at hth
    cases hth

/-- Two timers: the clock takes the first while the second is on its way into the
    queue, and then sleeps without limit. -/
def staleHead : List Op :=
  [.add 0 ⟨1, 10000000⟩ 0, .nextInstant 0, .queueAdd 0, .compareAndSet 0,
    .popNext 0, .remainingMillis 0, .await,
    .add 0 ⟨2, 20000000⟩ 5000000, .nextInstant 0,
    .awake, .popNext 10, .popNext 10, .await,
    .queueAdd 0]

theorem not_wakesInTime_staleHead :
    ¬∀ (idleTimeout : Bool) (s : State),
      Reach (· = .start) (Steps idleTimeout) s → WakesInTime s := by
  intro hall
  obtain ⟨s, hrun, hs⟩ : ∃ s, runAll (step false) .start staleHead = some s ∧
      (s.clock = .idling ∧ s.signaled = false ∧ s.threads 0 = .away ∧
        (∀ th, th ≠ 0 → s.threads th = .away) ∧ (⟨2, 20000000⟩ : Timer) ∈ s.queue) := by
    refine ⟨_, rfl, rfl, rfl, rfl, ?_, List.mem_cons_self⟩
    intro th hth
    simp only [State.setThread, State.setClock, Function.update_of_ne hth, State.start]
  obtain ⟨hclock, hsignaled, hzero, hothers, hmem⟩ := hs
  have hreach : Reach (· = .start) (Steps false) s :=
    Reach.runAll (fun _ _ _ h => h) (Reach.start rfl) hrun
  have hadds : ∀ th, (s.threads th).adds = false := by
    intro th
    by_cases hth : th = 0
    · rw [hth, hzero]
      rfl
    · rw [hothers th hth]
      rfl
  have hle := hall false s hreach neverMillis (by rw [hclock]; rfl) hsignaled hadds _ hmem
  exact absurd hle (by decide)

/-- The clock wakes in time, and is started in time, in every run in which a timer
    that does not wake the clock is inserted behind one that is no later. -/
theorem wakesInTime_of_currentHead (idleTimeout : Bool) (s : State)
    (h : Reach (· = .start)
      (Guarded (fun s op => currentHead s op = true) (Steps idleTimeout)) s) :
    WakesInTime s ∧ StartedInTime s := by
  have hkept : Kept s := h.invariant
    (fun s₀ h0 => by rw [h0]; exact kept_start)
    (fun _ _ _ hk hstep => hk.step hstep.1 hstep.2)
  exact ⟨hkept.wakesInTime, hkept.startedInTime⟩

/-- Two timers, the second behind the first. -/
def secondBehind : List Op :=
  [.add 0 ⟨1, 10000000⟩ 0, .add 1 ⟨2, 20000000⟩ 0, .nextInstant 0, .queueAdd 0, .nextInstant 1,
    .compareAndSet 0, .popNext 0, .remainingMillis 0, .await, .queueAdd 1]

theorem wakesInTime_of_currentHead_secondBehind :
    ∃ s, runAll (nextIf (fun s op => currentHead s op = true) (step true)) .start secondBehind
      = some s ∧ s.clock = .blocked 10 ∧ s.signaled = false ∧ WakesInTime s ∧ StartedInTime s := by
  obtain ⟨s, hrun, hclock, hsignaled⟩ : ∃ s,
      runAll (nextIf (fun s op => currentHead s op = true) (step true)) .start secondBehind
        = some s ∧ s.clock = .blocked 10 ∧ s.signaled = false := ⟨_, rfl, rfl, rfl⟩
  refine ⟨s, hrun, hclock, hsignaled, wakesInTime_of_currentHead true s ?_⟩
  exact Reach.runAll (fun _ _ _ h => nextIf_step (fun _ _ _ h => h) h) (Reach.start rfl) hrun

end TimerService
