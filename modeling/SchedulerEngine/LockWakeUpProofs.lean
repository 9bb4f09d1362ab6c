import SchedulerEngine.LockSubsystemProofs

/-! # Waking the waiters of a lock

    When a lock gets freer, `Lock::notify_waiting_requestor` looks at one
    requestor: the head of the exclusive queue, or if that is empty the head of
    the other one.  Whether it can proceed depends on all its locks.  If it
    cannot, nobody is called, although somebody else in the two queues may be
    able to. -/

set_option linter.unusedSectionVars false

namespace LockWakeUp

open FileBased RunInvariant Execution Execution.Exec LockState LockSubsystem

variable {H R : Type} [DecidableEq H] [DecidableEq R]

/-- An enqueued requestor with a use in a queue of the lock. -/
def Waits (s : Locks H R) (path : String) (r : R) : Prop :=
  s.isEnqueued r = true
    ∧ ∃ l mode u, s.locks path = some l ∧ u ∈ l.waitingQueues mode ∧ u.requestor = r

/-- An enqueued requestor at the lock that finds all its locks available. -/
def CanProceed (s : Locks H R) (path : String) (r : R) : Prop :=
  Waits s path r ∧ s.locksAreAvailableForHolder r none = true

/-- The steps that make a lock freer: a release that returns true, and a raised
    limit. -/
inductive Frees (s : Locks H R) : String → Locks H R → Prop where
  | release {h : H} {u : Use R} {s' : Locks H R} :
      releaseLockFor h u s = (.ok true, s') → Frees s u.lockPath s'
  | raise {path : String} {l : Lock H R} {n : Int} {s' : Locks H R} :
      s.locks path = some l → l.maxNonExclusive < n →
      setMaxNonExclusive path n s = (.ok (), s') → Frees s path s'

/-- The step from `s` to `s'` called a requestor that can proceed, if there is
    one at the lock. -/
def NoLostWakeUp (s s' : Locks H R) (path : String) : Prop :=
  (∃ r, CanProceed s' path r) →
    ∃ r, CanProceed s' path r ∧ s'.wakeUps = s.wakeUps ++ [r]

/-- If anybody at the lock can proceed, then the head of the queue that is looked
    at finds all its locks available. -/
def HeadCanProceed (s : Locks H R) (path : String) : Prop :=
  (∃ r, CanProceed s path r) →
    ∃ l r, s.locks path = some l ∧ l.nextRequestor = some r
      ∧ s.locksAreAvailableForHolder r none = true

variable {s s' : Locks H R} {path : String} {l l' : Lock H R} {r : R} {u : Use R}

/-! ## Availability -/

theorem itsMyTurn_of_none (ht : l.itsMyTurn u none = true) (o : Option H) :
    l.itsMyTurn u o = true := by
  unfold Lock.itsMyTurn at ht ⊢
  rw [Bool.and_eq_true] at ht ⊢
  exact ⟨isFreeFor_some_of_none ht.1 o, ht.2⟩

theorem availableLoop_of_none (o : Option H) {us : List (Use R)} {turn turn' : Bool}
    (hturn : turn = true → turn' = true) (ha : s.availableLoop none us turn = true) :
    s.availableLoop o us turn' = true := by
  induction us generalizing turn turn' with
  | nil => exact hturn ha
  | cons a us ih =>
      unfold Locks.availableLoop at ha ⊢
      cases hl : s.locks a.lockPath with
      | none => rw [hl] at ha; cases ha
      | some l =>
          rw [hl] at ha
          by_cases hfree : l.isFreeFor a none = true
          · simp only [if_pos hfree] at ha
            simp only [if_pos (isFreeFor_some_of_none hfree o)]
            refine ih (fun hor => ?_) ha
            rw [Bool.or_eq_true] at hor ⊢
            exact hor.imp hturn fun ht => itsMyTurn_of_none ht o
          · simp only [if_neg hfree] at ha
            cases ha

/-- What is available for nobody in particular is available for the requestor's
    own holder. -/
theorem locksAreAvailable_of_none (ha : s.locksAreAvailableForHolder r none = true) :
    s.locksAreAvailable r = true :=
  availableLoop_of_none _ id ha

/-! ## What a freeing step does -/

/-- A freeing step stores the lock and looks at its next requestor. -/
theorem Frees.spec (hf : Frees s path s') :
    ∃ l', s' = (s.setLock path l').notifyWaitingRequestor l' := by
  cases hf with
  | @release h u _ hrun =>
      unfold releaseLockFor at hrun
      cases hl : s.locks u.lockPath with
      | none =>
          rw [bind_run, lock_run_none hl] at hrun
          cases hrun
      | some l =>
          rw [bind_run, lock_run_some hl] at hrun
          simp only [bind_run, ofExcept_run] at hrun
          cases hok : l.releaseLockFor h u with
          | error e => rw [hok] at hrun; cases hrun
          | ok res =>
              obtain ⟨b, l'⟩ := res
              rw [hok] at hrun
              cases b with
              | false => cases hrun
              | true =>
                  cases hrun
                  exact ⟨l', rfl⟩
  | @raise _ l n _ hl hlt hrun =>
      unfold setMaxNonExclusive at hrun
      rw [bind_run, lock_run_some hl] at hrun
      have hset : l.setMaxNonExclusive n = (true, { l with maxNonExclusive := n }) :=
        if_pos (by omega)
      dsimp only at hrun
      rw [hset] at hrun
      cases hrun
      exact ⟨_, rfl⟩

theorem notify_locks : (s.notifyWaitingRequestor l).locks = s.locks := by
  unfold Locks.notifyWaitingRequestor
  cases l.nextRequestor with
  | none => rfl
  | some r => show (if s.locksAreAvailable r then _ else _ : Locks H R).locks = _; split <;> rfl

theorem notify_useList : (s.notifyWaitingRequestor l).useList = s.useList := by
  unfold Locks.notifyWaitingRequestor
  cases l.nextRequestor with
  | none => rfl
  | some r => show (if s.locksAreAvailable r then _ else _ : Locks H R).useList = _; split <;> rfl

/-- Availability is a matter of the locks. -/
theorem availableLoop_congr (hlocks : s'.locks = s.locks) (o : Option H) (us : List (Use R))
    (turn : Bool) : s'.availableLoop o us turn = s.availableLoop o us turn := by
  induction us generalizing turn with
  | nil => rfl
  | cons a us ih =>
      unfold Locks.availableLoop
      rw [hlocks]
      simp only [ih]

theorem notify_available (o : Option H) :
    (s.notifyWaitingRequestor l).locksAreAvailableForHolder r o
      = s.locksAreAvailableForHolder r o := by
  unfold Locks.locksAreAvailableForHolder
  rw [notify_useList]
  exact availableLoop_congr notify_locks o _ _

theorem frees_inv (hinv : Inv s) (hf : Frees s path s') : Inv s' := by
  cases hf with
  | @release h u _ hrun =>
      have := keeps_releaseLockFor (h := h) (u := u) s hinv
      unfold final at this
      rw [hrun] at this
      exact this
  | @raise _ _ n _ _ _ hrun =>
      have := @keeps_setMaxNonExclusive H R _ _ path n s hinv
      unfold final at this
      rw [hrun] at this
      exact this

/-- The next requestor of a lock waits there. -/
theorem waits_of_nextRequestor (hinv : Inv s) (hl : s.locks path = some l)
    (hn : l.nextRequestor = some r) : Waits s path r := by
  have hmem : ∃ mode u, u ∈ l.waitingQueues mode ∧ u.requestor = r := by
    unfold Lock.nextRequestor at hn
    cases hq : l.waitingQueues .exclusive with
    | cons u us =>
        rw [hq] at hn
        refine ⟨.exclusive, u, ?_, Option.some.inj hn⟩
        rw [hq]
        exact List.mem_cons_self ..
    | nil =>
        rw [hq] at hn
        cases hq' : l.waitingQueues .nonExclusive with
        | nil => rw [hq'] at hn; cases hn
        | cons u us =>
            rw [hq'] at hn
            refine ⟨.nonExclusive, u, ?_, Option.some.inj hn⟩
            rw [hq']
            exact List.mem_cons_self ..
  obtain ⟨mode, u, hu, rfl⟩ := hmem
  exact ⟨(hinv.queuedBy u ⟨path, l, mode, hl, hu⟩).2, l, mode, u, hl, hu, rfl⟩

/-- **WHEN NO WAKE-UP IS LOST**: after a release or a raised limit in any state
    that calls lead to, some requestor that can proceed is called if there is
    one, exactly when the head of the queue looked at is such a requestor. -/
theorem no_lost_wake_up_iff (s s' : Locks H R) (path : String) (hr : Reachable s)
    (hf : Frees s path s') : NoLostWakeUp s s' path ↔ HeadCanProceed s' path := by
  have hinv' := frees_inv (inv_of_reachable hr) hf
  obtain ⟨l', hs'⟩ := hf.spec
  have hl' : s'.locks path = some l' := by
    rw [hs', notify_locks]
    exact setLock_locks_self
  constructor
  · intro hlost hsome
    obtain ⟨r, ⟨_, havail⟩, hcalls⟩ := hlost hsome
    refine ⟨l', r, hl', ?_, havail⟩
    rw [hs'] at hcalls
    unfold Locks.notifyWaitingRequestor at hcalls
    cases hn : l'.nextRequestor with
    | none =>
        rw [hn] at hcalls
        exact absurd hcalls (by simp)
    | some r' =>
        rw [hn] at hcalls
        by_cases ha : (s.setLock path l').locksAreAvailable r' = true
        · simp only [if_pos ha] at hcalls
          have : s.wakeUps ++ [r'] = s.wakeUps ++ [r] := hcalls
          rw [List.append_cancel_left_eq, List.singleton_inj] at this
          rw [this]
        · simp only [if_neg ha] at hcalls
          exact absurd hcalls (by simp)
  · intro hhead hsome
    obtain ⟨l, r, hl, hn, havail⟩ := hhead hsome
    rw [hl'] at hl
    cases hl
    refine ⟨r, ⟨waits_of_nextRequestor hinv' hl' hn, havail⟩, ?_⟩
    rw [hs', notify_available] at havail
    rw [hs']
    unfold Locks.notifyWaitingRequestor
    rw [hn]
    show (if (s.setLock path l').locksAreAvailable r then (s.setLock path l').wakeUp r
      else s.setLock path l').wakeUps = _
    rw [if_pos (locksAreAvailable_of_none havail)]
    rfl

/-! ## Where the head is enough, and where not -/

/-- Requestors that wait for this lock alone, and all in one of its queues: the
    first of them can proceed if any can. -/
theorem headCanProceed_of_one_queue (hl : s.locks path = some l)
    (hone : l.waitingQueues .exclusive = [] ∨ l.waitingQueues .nonExclusive = [])
    (hsingle : ∀ mode, ∀ u ∈ l.waitingQueues mode,
      u.lockMode = mode ∧ u.lockPath = path ∧ s.useList u.requestor = [u]) :
    HeadCanProceed s path := by
  rintro ⟨r, ⟨_, k, mode, u, hk, hu, rfl⟩, havail⟩
  rw [hl] at hk
  cases hk
  obtain ⟨hmode, hpath, huse⟩ := hsingle mode u hu
  refine ⟨l, u.requestor, hl, ?_, havail⟩
  -- the one use has its turn, so it stands first in its queue
  unfold Locks.locksAreAvailableForHolder at havail
  rw [huse] at havail
  unfold Locks.availableLoop at havail
  rw [hpath, hl] at havail
  have hturn : l.itsMyTurn u none = true := by
    by_cases hfree : l.isFreeFor u none = true
    · simp only [if_pos hfree, Bool.false_or] at havail
      exact havail
    · simp only [if_neg hfree] at havail
      cases havail
  unfold Lock.itsMyTurn at hturn
  rw [Bool.and_eq_true, hmode] at hturn
  cases hq : l.waitingQueues mode with
  | nil => rw [hq] at hu; exact absurd hu List.not_mem_nil
  | cons first us =>
      rw [hq] at hturn
      have hfirst : first = u := of_decide_eq_true hturn.2
      subst hfirst
      unfold Lock.nextRequestor
      cases mode with
      | exclusive => rw [hq]
      | nonExclusive =>
          have hnil : l.waitingQueues .exclusive = [] :=
            hone.resolve_right fun hn => by rw [hn] at hq; cases hq
          rw [hnil, hq]
          rfl

theorem noUse_own (r : Nat) (u : Use Nat) (hu : u ∈ ([] : List (Use Nat))) : u.requestor = r :=
  absurd hu List.not_mem_nil

theorem noUse_nodup (_ : Nat) : ([] : List (Use Nat)).Nodup := List.nodup_nil

/-- Before its first call. -/
def noLocks : Locks Nat Nat :=
  ⟨fun _ => none, fun _ => [], fun _ => false, fun _ => [], fun _ => none, [],
    noUse_own, noUse_nodup⟩

theorem noLocks_reachable : Reachable noLocks :=
  Reach.start ⟨fun _ => rfl, fun _ => rfl, fun _ => rfl, fun _ => rfl, rfl⟩

/-- The locks `a` and `b` are held; 7 waits for both of them, exclusively, and
    after it 8 waits for `a`, non-exclusively. -/
def twoWaiters : Locks Nat Nat :=
  noLocks.run [
    .addLock "a" "Lock a", .activateBase "a" .active,
    .addLock "b" "Lock b", .activateBase "b" .active,
    .addLockUse 7 "a" .exclusive, .addLockUse 7 "b" .exclusive,
    .addLockUse 8 "a" .nonExclusive,
    .addLockUse 9 "a" .exclusive, .addLockUse 10 "b" .exclusive,
    .addRequestor 1 9, .holdLocks 1 9, .addRequestor 2 10, .holdLocks 2 10,
    .enqueueLockRequests 7 none, .enqueueLockRequests 8 none]

/-- The holder of `a` gives it back. -/
def afterRelease (s : Locks Nat Nat) : Locks Nat Nat :=
  final (releaseLockFor 1 ⟨9, "a", .exclusive⟩) s

theorem twoWaiters_reachable : Reachable twoWaiters := reachable_run noLocks_reachable _

theorem twoWaiters_frees : Frees twoWaiters "a" (afterRelease twoWaiters) :=
  Frees.release (u := ⟨9, "a", .exclusive⟩) (Prod.ext (by decide) rfl)

/-- 7 cannot proceed, so nobody is called; 8 could. -/
theorem wake_up_lost :
    ¬ ∀ (s s' : Locks Nat Nat) (path : String), Reachable s → Frees s path s' →
        NoLostWakeUp s s' path := by
  intro hall
  have hwaits : Waits (afterRelease twoWaiters) "a" 8 :=
    ⟨by decide, ((afterRelease twoWaiters).locks "a").get (by decide), .nonExclusive,
      ⟨8, "a", .nonExclusive⟩, (Option.some_get _).symm, by decide, rfl⟩
  obtain ⟨r, _, hcalls⟩ := hall twoWaiters _ "a" twoWaiters_reachable twoWaiters_frees
    ⟨8, hwaits, by decide⟩
  have hnone : (afterRelease twoWaiters).wakeUps = twoWaiters.wakeUps := by decide
  rw [hnone] at hcalls
  simp at hcalls

/-- Only 8 waits for `a`. -/
def oneWaiter : Locks Nat Nat :=
  noLocks.run [
    .addLock "a" "Lock a", .activateBase "a" .active,
    .addLockUse 8 "a" .nonExclusive, .addLockUse 9 "a" .exclusive,
    .addRequestor 1 9, .holdLocks 1 9, .enqueueLockRequests 8 none]

theorem oneWaiter_woken : NoLostWakeUp oneWaiter (afterRelease oneWaiter) "a" :=
  (no_lost_wake_up_iff oneWaiter (afterRelease oneWaiter) "a"
    (reachable_run noLocks_reachable _)
    (Frees.release (u := ⟨9, "a", .exclusive⟩) (Prod.ext (by decide) rfl))).mpr
    fun _ => ⟨((afterRelease oneWaiter).locks "a").get (by decide), 8,
      (Option.some_get _).symm, by decide, by decide⟩

end LockWakeUp
