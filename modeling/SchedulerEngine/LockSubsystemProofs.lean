import SchedulerEngine.ExecutionProofs
import SchedulerEngine.LockStateProofs

/-! # Locks, requestors and holders

    `Lock_subsystem` finds locks by path.  A `Requestor` (a job or a task) has a
    list of uses, waits in the queues of their locks, and is called when its
    turn may have come; a `Holder` (a task) takes and gives back the locks of
    the requestors it knows.

    Whatever is called in whatever order, every lock of the subsystem stays in
    a state of the one-lock model, and a queue names only uses of requestors
    that are enqueued. -/

set_option linter.unusedSectionVars false

namespace LockSubsystem

open FileBased RunInvariant Execution Execution.Exec LockState

/-- `Lock_subsystem` with its requestors and holders. -/
structure Locks (H R : Type) where
  /-- `_file_based_map`, by normalized path. -/
  locks : String → Option (Lock H R)
  /-- `Requestor::_use_list`. -/
  useList : R → List (Use R)
  /-- `Requestor::_is_enqueued`. -/
  isEnqueued : R → Bool
  /-- `Holder::_requestor_set`. -/
  requestorSet : H → List R
  /-- The holder for which the requestor's `locks_are_available()` asks: the
      task's own `_lock_holder`, or NULL for a job. -/
  ownHolder : R → Option H
  /-- The calls of `on_locks_are_available` so far. -/
  wakeUps : List R
  uses_own : ∀ r, ∀ u ∈ useList r, u.requestor = r
  uses_nodup : ∀ r, (useList r).Nodup

variable {H R : Type} [DecidableEq H] [DecidableEq R]

/-- A method call on the subsystem's objects. -/
abbrev Call (H R : Type) := Exec (Locks H R) Failure

/-! ## Reading and writing one lock -/

/-- The subsystem with another lock at the path. -/
def Locks.setLock (s : Locks H R) (path : String) (l : Lock H R) : Locks H R :=
  { s with locks := Function.update s.locks path (some l) }

/-- `Lock_subsystem::lock`: throws when no lock has the path. -/
def lock (path : String) : Call H R (Lock H R) := do
  let s ← get
  match s.locks path with
  | some l => pure l
  | none => throw (.xc "SCHEDULER-161" ["Lock", path])

/-- Change the lock at the path by a method that cannot fail. -/
def modifyLock (path : String) (op : LockOp H R) : Call H R Unit := do
  let l ← lock path
  modify (·.setLock path (op.apply l))

/-! ## Requestor -/

/-- The loop of `Requestor::locks_are_available_for_holder`, from `its_my_turn`. -/
def Locks.availableLoop (s : Locks H R) (holder : Option H) : List (Use R) → Bool → Bool
  | [], itsMyTurn => itsMyTurn
  | u :: rest, itsMyTurn =>
      match s.locks u.lockPath with
      | none => false
      | some l =>
          if l.isFreeFor u holder then
            s.availableLoop holder rest (itsMyTurn || l.itsMyTurn u holder)
          else false

/-- `Requestor::locks_are_available_for_holder`. -/
def Locks.locksAreAvailableForHolder (s : Locks H R) (r : R) (holder : Option H) : Bool :=
  s.availableLoop holder (s.useList r) false

/-- The virtual `Requestor::locks_are_available`. -/
def Locks.locksAreAvailable (s : Locks H R) (r : R) : Bool :=
  s.locksAreAvailableForHolder r (s.ownHolder r)

/-- `Requestor::locks_are_known`. -/
def Locks.locksAreKnown (s : Locks H R) (r : R) : Bool :=
  (s.useList r).all fun u => (s.locks u.lockPath).isSome

/-- `Requestor::add_lock_use`: the use with this path and mode, a new one if the
    requestor has none. -/
def addLockUse (r : R) (path : String) (mode : LockMode) : Call H R (Use R) := do
  let u : Use R := ⟨r, path, mode⟩
  modify fun s =>
    if h : u ∈ s.useList r then s
    else { s with
      useList := Function.update s.useList r (s.useList r ++ [u])
      uses_own := by
        intro r' v hv
        by_cases hr : r' = r
        · subst hr
          rw [Function.update_self, List.mem_append, List.mem_singleton] at hv
          exact hv.elim (s.uses_own r' v) fun hv => hv ▸ rfl
        · rw [Function.update_of_ne hr] at hv
          exact s.uses_own r' v hv
      uses_nodup := by
        intro r'
        by_cases hr : r' = r
        · subst hr
          rw [Function.update_self, List.nodup_append]
          refine ⟨s.uses_nodup r', List.nodup_singleton u, ?_⟩
          intro a ha b hb
          rw [List.mem_singleton] at hb
          subst hb
          rintro rfl
          exact h ha
        · rw [Function.update_of_ne hr]
          exact s.uses_nodup r' }
  pure u

/-- `Requestor::set_dom` with `Use::set_dom`, for one `<lock.use>` element:
    `path` is the absolute path of its `lock` attribute, `exclusive` its other
    attribute.  The new use is in the list before its attributes are checked. -/
def setDom (r : R) (path : String) (exclusive : Option Bool) : Call H R Unit := do
  let s ← get
  match (s.useList r).find? (·.lockPath = path) with
  | none =>
      let mode : LockMode :=
        if path = "" ∨ exclusive.getD true then .exclusive else .nonExclusive
      let _ ← addLockUse r path mode
      require (path ≠ "") (.xc "SCHEDULER-407" ["lock"])
  | some u =>
      require (path ≠ "") (.xc "SCHEDULER-407" ["lock"])
      let mode : LockMode :=
        if exclusive.getD (u.lockMode = .exclusive) then .exclusive else .nonExclusive
      require (u.lockMode = mode) (.xc "SCHEDULER-408" ["lock.use", "exclusive"])

/-- One round of the loop of `Requestor::enqueue_lock_requests`. -/
def enqueueUse (holder : Option H) (u : Use R) : Call H R Unit := do
  let l ← lock u.lockPath
  if holder.all fun h => !l.isHeldBy h u then
    modify (·.setLock u.lockPath (l.enqueueLockUse u).2)

/-- `Requestor::enqueue_lock_requests`. -/
def enqueueLockRequests (r : R) (holder : Option H) : Call H R Bool := do
  let s ← get
  require (!s.isEnqueued r) (.assertion "0")
  if s.locksAreKnown r then
    modify fun s => { s with isEnqueued := Function.update s.isEnqueued r true }
    forEach (enqueueUse holder) (s.useList r)
    pure true
  else pure false

/-- One round of the loop of `Requestor::dequeue_lock_requests`. -/
def Locks.dequeueUse (u : Use R) (s : Locks H R) : Locks H R :=
  match s.locks u.lockPath with
  | some l => s.setLock u.lockPath (l.dequeueLockUse u)
  | none => s

/-- `Requestor::dequeue_lock_requests`. -/
def dequeueLockRequests (r : R) : Call H R Unit := do
  let s ← get
  if s.isEnqueued r then
    forEach (fun u => modify (Locks.dequeueUse u)) (s.useList r)
    modify fun s => { s with isEnqueued := Function.update s.isEnqueued r false }

/-! ## Notification -/

/-- A call of `on_locks_are_available`; it only posts a call to the job or task. -/
def Locks.wakeUp (s : Locks H R) (r : R) : Locks H R :=
  { s with wakeUps := s.wakeUps ++ [r] }

/-- `Lock::notify_waiting_requestor` of the lock `l`. -/
def Locks.notifyWaitingRequestor (s : Locks H R) (l : Lock H R) : Locks H R :=
  match l.nextRequestor with
  | some r => if s.locksAreAvailable r then s.wakeUp r else s
  | none => s

/-- `Lock::set_max_non_exclusive`. -/
def setMaxNonExclusive (path : String) (maxNonExclusive : Int) : Call H R Unit := do
  let l ← lock path
  let (changed, l') := l.setMaxNonExclusive maxNonExclusive
  modify (·.setLock path l')
  if changed then modify (·.notifyWaitingRequestor l')

/-! ## Holder -/

/-- `Holder::is_known_requestor`. -/
def Locks.isKnownRequestor (s : Locks H R) (h : H) (r : R) : Bool :=
  decide (r ∈ s.requestorSet h)

/-- `Lock::require_lock_for`. -/
def requireLockFor (h : H) (u : Use R) : Call H R Bool := do
  let l ← lock u.lockPath
  let s ← get
  let (fresh, l') ← Exec.ofExcept (l.requireLockFor s.isKnownRequestor h u)
  modify (·.setLock u.lockPath l')
  pure fresh

/-- `Lock::release_lock_for`. -/
def releaseLockFor (h : H) (u : Use R) : Call H R Bool := do
  let l ← lock u.lockPath
  let (released, l') ← Exec.ofExcept (l.releaseLockFor h u)
  modify (·.setLock u.lockPath l')
  if released then modify (·.notifyWaitingRequestor l')
  pure released

/-- `Holder::hold_lock`. -/
def holdLock (h : H) (u : Use R) : Call H R Unit := do
  let _ ← requireLockFor h u

/-- `Holder::try_hold`. -/
def tryHold (h : H) (u : Use R) : Call H R Bool := do
  let l ← lock u.lockPath
  if l.isFreeFor u (some h) then
    holdLock h u
    pure true
  else pure false

/-- The holder holds the lock of the use with this use. -/
def Locks.holdsUse (s : Locks H R) (h : H) (u : Use R) : Bool :=
  (s.locks u.lockPath).any fun l => l.isHeldBy h u

/-- `Holder::is_holding_all_of`. -/
def Locks.isHoldingAllOf (s : Locks H R) (h : H) (r : R) : Bool :=
  !(s.useList r).isEmpty && (s.useList r).all (s.holdsUse h)

/-- `Holder::is_holding_none_of`. -/
def Locks.isHoldingNoneOf (s : Locks H R) (h : H) (r : R) : Bool :=
  !(s.useList r).any (s.holdsUse h)

/-- `Holder::hold_locks`. -/
def holdLocks (h : H) (r : R) : Call H R Unit := do
  let s ← get
  require (s.locksAreAvailableForHolder r (some h))
    (.assertion "requestor->locks_are_available_for_holder( this )")
  require (s.isKnownRequestor h r) (.assertion "is_known_requestor( requestor )")
  forEach (holdLock h) (s.useList r)
  let s ← get
  require (s.isHoldingAllOf h r) (.assertion "is_holding_all_of( requestor )")

/-- `Holder::release_locks( requestor )`: an exception is caught and logged. -/
def releaseLocksOf (h : H) (r : R) : Call H R Unit := do
  let s ← get
  require (s.isKnownRequestor h r) (.assertion "is_known_requestor( requestor )")
  forEach (fun u =>
    tryCatch (do let _ ← releaseLockFor h u) fun
      | .assertion text => throw (.assertion text)
      | _ => pure ()) (s.useList r)
  let s ← get
  require (s.isHoldingNoneOf h r) (.assertion "is_holding_none_of( requestor )")

/-- `Holder::release_locks()`. -/
def releaseLocks (h : H) : Call H R Unit := do
  let s ← get
  forEach (releaseLocksOf h) (s.requestorSet h)

/-- `Holder::add_requestor`. -/
def addRequestor (h : H) (r : R) : Call H R Unit := do
  let s ← get
  require (!s.isKnownRequestor h r) (.assertion "!is_known_requestor( requestor )")
  modify fun s => { s with
    requestorSet := Function.update s.requestorSet h (s.requestorSet h ++ [r]) }

/-- `Holder::remove_requestor`. -/
def removeRequestor (h : H) (r : R) : Call H R Unit := do
  let s ← get
  require (s.isKnownRequestor h r) (.assertion "is_known_requestor( requestor )")
  require (s.isHoldingNoneOf h r) (.assertion "is_holding_none_of( requestor )")
  releaseLocksOf h r
  modify fun s => { s with
    requestorSet := Function.update s.requestorSet h ((s.requestorSet h).erase r) }

/-! ## Coming and going of locks -/

/-- `Lock_folder::add_lock` of a new lock under a path that is not taken. -/
def addLock (path objName : String) : Call H R Unit := do
  let s ← get
  require ((s.locks path).isNone) (.assertion "!file_based_or_null( path )")
  modify (·.setLock path (Lock.new objName))

/-- `File_based::prepare_to_remove` of a lock.  The flag is set before
    `Lock::on_prepare_to_remove` asks for it, so that function's loop over the
    waiting requestors is never entered. -/
def prepareToRemove (path : String) : Call H R Unit :=
  modifyLock path (.setToBeRemoved true)

/-- `File_based::set_replacement`: the lock is no longer to be removed. -/
def setReplacement (path : String) : Call H R Unit :=
  modifyLock path (.setToBeRemoved false)

/-- `Lock::can_be_removed_now` and `File_based::remove_now`. -/
def removeNow (path : String) : Call H R Unit := do
  let l ← lock path
  if l.base.isToBeRemoved ∧ l.holderMap.keys.isEmpty then
    modify fun s => { s with locks := Function.update s.locks path none }

/-! ## Running a call -/

variable {s s' : Locks H R} {path : String} {l l' : Lock H R} {h : H} {r : R} {u v : Use R}

theorem lock_run_some (hl : s.locks path = some l) : lock path s = (.ok l, s) := by
  show (match s.locks path with
    | some l => pure l
    | none => throw (.xc "SCHEDULER-161" ["Lock", path]) : Call H R (Lock H R)) s = _
  rw [hl]
  rfl

theorem lock_run_none (hl : s.locks path = none) :
    lock path s = (.error (.xc "SCHEDULER-161" ["Lock", path]), s) := by
  show (match s.locks path with
    | some l => pure l
    | none => throw (.xc "SCHEDULER-161" ["Lock", path]) : Call H R (Lock H R)) s = _
  rw [hl]
  rfl

/-- What a call does with a lock it looks up first. -/
theorem final_lock_bind {α : Type} {f : Lock H R → Call H R α} {I : Locks H R → Prop}
    (hs : I s) (hf : ∀ l, s.locks path = some l → I (final (f l) s)) :
    I (final (lock path >>= f) s) := by
  cases hl : s.locks path with
  | none =>
      show I ((lock path >>= f) s).2
      rw [bind_run, lock_run_none hl]
      exact hs
  | some l =>
      show I ((lock path >>= f) s).2
      rw [bind_run, lock_run_some hl]
      exact hf l hl

@[simp] theorem setLock_locks_self : (s.setLock path l).locks path = some l :=
  Function.update_self ..

theorem setLock_locks_ne {p : String} (hp : p ≠ path) :
    (s.setLock path l).locks p = s.locks p :=
  Function.update_of_ne hp ..

/-- A lock after `setLock` is the new one or an old one elsewhere. -/
theorem setLock_cases {p : String} {k : Lock H R}
    (hk : (s.setLock path l).locks p = some k) :
    (p = path ∧ k = l) ∨ (p ≠ path ∧ s.locks p = some k) := by
  by_cases hp : p = path
  · subst hp
    rw [setLock_locks_self] at hk
    exact Or.inl ⟨rfl, (Option.some.inj hk).symm⟩
  · rw [setLock_locks_ne hp] at hk
    exact Or.inr ⟨hp, hk⟩

@[simp] theorem setLock_useList : (s.setLock path l).useList = s.useList := rfl
@[simp] theorem setLock_isEnqueued : (s.setLock path l).isEnqueued = s.isEnqueued := rfl
@[simp] theorem setLock_requestorSet : (s.setLock path l).requestorSet = s.requestorSet := rfl
@[simp] theorem setLock_ownHolder : (s.setLock path l).ownHolder = s.ownHolder := rfl
@[simp] theorem setLock_wakeUps : (s.setLock path l).wakeUps = s.wakeUps := rfl

/-! ## The invariant -/

/-- The use stands in a queue of some lock. -/
def Queued (s : Locks H R) (u : Use R) : Prop :=
  ∃ path l mode, s.locks path = some l ∧ u ∈ l.waitingQueues mode

/-- What every call keeps. -/
structure Inv (s : Locks H R) : Prop where
  /-- Each lock is in a state of the one-lock model. -/
  lockReach : ∀ path l, s.locks path = some l → Reach IsNew LockState.Step l
  /-- A use stands only in the queue of its own lock and mode. -/
  queuedAt : ∀ path l mode u, s.locks path = some l → u ∈ l.waitingQueues mode →
    u.lockPath = path ∧ u.lockMode = mode
  /-- Its requestor is enqueued and has it in its list. -/
  queuedBy : ∀ u, Queued s u →
    u ∈ s.useList u.requestor ∧ s.isEnqueued u.requestor = true
  /-- No use stands twice in a queue. -/
  queueNodup : ∀ path l mode, s.locks path = some l → (l.waitingQueues mode).Nodup

/-- Another state of one lock with the same queues, or shorter ones. -/
theorem Inv.setLock (hinv : Inv s) (hl : s.locks path = some l)
    (hreach : Reach IsNew LockState.Step l')
    (hq : ∀ mode, (l'.waitingQueues mode).Sublist (l.waitingQueues mode)) :
    Inv (s.setLock path l') where
  lockReach p k hk := by
    rcases setLock_cases hk with ⟨rfl, rfl⟩ | ⟨_, hk⟩
    · exact hreach
    · exact hinv.lockReach p k hk
  queuedAt p k mode u hk hu := by
    rcases setLock_cases hk with ⟨rfl, rfl⟩ | ⟨_, hk⟩
    · exact hinv.queuedAt p l mode u hl ((hq mode).subset hu)
    · exact hinv.queuedAt p k mode u hk hu
  queuedBy u hu := by
    obtain ⟨p, k, mode, hk, hmem⟩ := hu
    rcases setLock_cases hk with ⟨rfl, rfl⟩ | ⟨_, hk⟩
    · exact hinv.queuedBy u ⟨p, l, mode, hl, (hq mode).subset hmem⟩
    · exact hinv.queuedBy u ⟨p, k, mode, hk, hmem⟩
  queueNodup p k mode hk := by
    rcases setLock_cases hk with ⟨rfl, rfl⟩ | ⟨_, hk⟩
    · exact (hinv.queueNodup p l mode hl).sublist (hq mode)
    · exact hinv.queueNodup p k mode hk

/-- The invariant does not depend on holders and calls. -/
theorem Inv.congr (hinv : Inv s) (hlocks : s'.locks = s.locks)
    (huse : ∀ r, s.useList r ⊆ s'.useList r) (henq : s'.isEnqueued = s.isEnqueued) :
    Inv s' where
  lockReach p k hk := hinv.lockReach p k (hlocks ▸ hk)
  queuedAt p k mode u hk := hinv.queuedAt p k mode u (hlocks ▸ hk)
  queuedBy u hu := by
    obtain ⟨p, k, mode, hk, hmem⟩ := hu
    obtain ⟨h1, h2⟩ := hinv.queuedBy u ⟨p, k, mode, hlocks ▸ hk, hmem⟩
    exact ⟨huse u.requestor h1, henq ▸ h2⟩
  queueNodup p k mode hk := hinv.queueNodup p k mode (hlocks ▸ hk)

theorem Inv.notify (hinv : Inv s) (l : Lock H R) : Inv (s.notifyWaitingRequestor l) := by
  unfold Locks.notifyWaitingRequestor
  cases l.nextRequestor with
  | none => exact hinv
  | some r =>
      show Inv (if s.locksAreAvailable r then s.wakeUp r else s)
      by_cases ha : s.locksAreAvailable r = true
      · rw [if_pos ha]
        exact hinv.congr rfl (fun _ => List.Subset.refl _) rfl
      · rw [if_neg ha]
        exact hinv

/-! ## Every call keeps the invariant -/

theorem requireLockFor_reach {known : H → R → Bool} {b : Bool}
    (hr : Reach IsNew LockState.Step l) (hok : l.requireLockFor known h u = .ok (b, l')) :
    Reach IsNew LockState.Step l' := by
  refine hr.next (o := .requireLockFor known h u) ?_
  rw [LockState.Step, LockOp.apply, hok]

theorem releaseLockFor_reach {b : Bool} (hr : Reach IsNew LockState.Step l)
    (hok : l.releaseLockFor h u = .ok (b, l')) : Reach IsNew LockState.Step l' := by
  refine hr.next (o := .releaseLockFor h u) ?_
  rw [LockState.Step, LockOp.apply, hok]

theorem requireLockFor_queues {known : H → R → Bool} {b : Bool}
    (hok : l.requireLockFor known h u = .ok (b, l')) :
    l'.waitingQueues = l.waitingQueues := by
  rw [(requireLockFor_ok hok).2.2.2]
  rfl

theorem releaseLockFor_queues {b : Bool} (hex : Exclusivity l)
    (hok : l.releaseLockFor h u = .ok (b, l')) : l'.waitingQueues = l.waitingQueues := by
  rcases releaseLockFor_cases hex h u with ⟨_, heq⟩ | ⟨_, _, heq⟩ | ⟨_, _, _, heq⟩
    | ⟨_, _, _, _, heq⟩
  all_goals
    rw [heq] at hok
    cases hok
    rfl

/-- A method of one lock that leaves its queues alone. -/
theorem keeps_modifyLock {op : LockOp H R}
    (hq : ∀ l : Lock H R, (op.apply l).waitingQueues = l.waitingQueues) :
    Keeps Inv (modifyLock path op) := by
  intro s hs
  refine final_lock_bind hs fun l hl => ?_
  refine hs.setLock hl ((hs.lockReach path l hl).next rfl) fun mode => ?_
  rw [hq]

theorem keeps_requireLockFor : Keeps (Inv (H := H) (R := R)) (requireLockFor h u) := by
  intro s hs
  refine final_lock_bind hs fun l hl => ?_
  show Inv ((do
    let (fresh, l') ← Exec.ofExcept (l.requireLockFor s.isKnownRequestor h u)
    modify (·.setLock u.lockPath l')
    pure fresh : Call H R Bool) s).2
  rw [bind_run, ofExcept_run]
  cases hok : l.requireLockFor s.isKnownRequestor h u with
  | error e => exact hs
  | ok res =>
      refine hs.setLock hl (requireLockFor_reach (hs.lockReach _ l hl) hok) fun mode => ?_
      rw [requireLockFor_queues hok]

theorem keeps_releaseLockFor : Keeps (Inv (H := H) (R := R)) (releaseLockFor h u) := by
  intro s hs
  refine final_lock_bind hs fun l hl => ?_
  have hreach := hs.lockReach _ l hl
  obtain ⟨b, l', hok⟩ := releaseLockFor_returns (exclusivity_of_reach hreach) h u
  have hset : Inv (s.setLock u.lockPath l') := by
    refine hs.setLock hl (releaseLockFor_reach hreach hok) fun mode => ?_
    rw [releaseLockFor_queues (exclusivity_of_reach hreach) hok]
  show Inv ((do
    let (released, l') ← Exec.ofExcept (l.releaseLockFor h u)
    modify (·.setLock u.lockPath l')
    if released then modify (·.notifyWaitingRequestor l')
    pure released : Call H R Bool) s).2
  rw [bind_run, ofExcept_run, hok]
  cases b with
  | false => exact hset
  | true => exact hset.notify l'

theorem keeps_setMaxNonExclusive {n : Int} :
    Keeps (Inv (H := H) (R := R)) (setMaxNonExclusive path n) := by
  intro s hs
  refine final_lock_bind hs fun l hl => ?_
  have hset : Inv (s.setLock path (l.setMaxNonExclusive n).2) := by
    refine hs.setLock hl ((hs.lockReach path l hl).next (o := .setMaxNonExclusive n) rfl)
      fun mode => ?_
    unfold Lock.setMaxNonExclusive
    by_cases hn : l.maxNonExclusive ≠ n
    · rw [if_pos hn]
    · rw [if_neg hn]
  show Inv ((do
    modify (·.setLock path (l.setMaxNonExclusive n).2)
    if (l.setMaxNonExclusive n).1 then
      modify (·.notifyWaitingRequestor (l.setMaxNonExclusive n).2) : Call H R Unit) s).2
  cases hb : (l.setMaxNonExclusive n).1 with
  | false => exact hset
  | true => exact hset.notify _

theorem keeps_holdLock : Keeps (Inv (H := H) (R := R)) (holdLock h u) :=
  keeps_requireLockFor.bind fun _ => Keeps.pure ()

theorem keeps_tryHold : Keeps (Inv (H := H) (R := R)) (tryHold h u) := by
  intro s hs
  refine final_lock_bind hs fun l _ => ?_
  refine Keeps.ite (fun _ => ?_) (fun _ => ?_) s hs
  · exact keeps_holdLock.bind fun _ => Keeps.pure true
  · exact Keeps.pure false

theorem keeps_holdLocks : Keeps (Inv (H := H) (R := R)) (holdLocks h r) := by
  refine Keeps.get_bind fun s hs => ?_
  refine ((Keeps.require _ _).bind fun _ => (Keeps.require _ _).bind fun _ =>
    (Keeps.forEach fun u _ => keeps_holdLock).bind fun _ => ?_) s hs
  exact Keeps.get_bind fun s hs => Keeps.require _ _ s hs

theorem keeps_releaseLocksOf : Keeps (Inv (H := H) (R := R)) (releaseLocksOf h r) := by
  refine Keeps.get_bind fun s hs => ?_
  refine ((Keeps.require _ _).bind fun _ =>
    (Keeps.forEach fun u _ => ?_).bind fun _ => ?_) s hs
  · refine (keeps_releaseLockFor.bind fun _ => Keeps.pure ()).tryCatch fun e => ?_
    cases e with
    | assertion text => exact Keeps.throw _
    | xc _ _ => exact Keeps.pure ()
    | xcCause _ _ _ => exact Keeps.pure ()
    | function _ => exact Keeps.pure ()
  · exact Keeps.get_bind fun s hs => Keeps.require _ _ s hs

theorem keeps_releaseLocks : Keeps (Inv (H := H) (R := R)) (releaseLocks h) :=
  Keeps.get_bind fun s hs => Keeps.forEach (fun _ _ => keeps_releaseLocksOf) s hs

theorem keeps_addRequestor : Keeps (Inv (H := H) (R := R)) (addRequestor h r) := by
  refine Keeps.get_bind fun s hs => ?_
  refine ((Keeps.require _ _).bind fun _ => Keeps.modify fun s hs => ?_) s hs
  exact hs.congr rfl (fun _ => List.Subset.refl _) rfl

theorem keeps_removeRequestor : Keeps (Inv (H := H) (R := R)) (removeRequestor h r) := by
  refine Keeps.get_bind fun s hs => ?_
  refine ((Keeps.require _ _).bind fun _ => (Keeps.require _ _).bind fun _ =>
    keeps_releaseLocksOf.bind fun _ => Keeps.modify fun s hs => ?_) s hs
  exact hs.congr rfl (fun _ => List.Subset.refl _) rfl

theorem keeps_addLockUse {mode : LockMode} :
    Keeps (Inv (H := H) (R := R)) (addLockUse r path mode) := by
  refine Keeps.bind (Keeps.modify fun s hs => ?_) fun _ => Keeps.pure _
  by_cases hmem : (⟨r, path, mode⟩ : Use R) ∈ s.useList r
  · rw [dif_pos hmem]
    exact hs
  · rw [dif_neg hmem]
    refine hs.congr rfl (fun r' => ?_) rfl
    show s.useList r' ⊆ Function.update s.useList r (s.useList r ++ [_]) r'
    by_cases hr : r' = r
    · subst hr
      rw [Function.update_self]
      exact List.subset_append_left _ _
    · rw [Function.update_of_ne hr]
      exact List.Subset.refl _

theorem keeps_setDom {exclusive : Option Bool} :
    Keeps (Inv (H := H) (R := R)) (setDom r path exclusive) := by
  refine Keeps.get_bind fun s hs => ?_
  cases (s.useList r).find? (·.lockPath = path) with
  | none => exact (keeps_addLockUse.bind fun _ => Keeps.require _ _) s hs
  | some u => exact ((Keeps.require _ _).bind fun _ => Keeps.require _ _) s hs

theorem keeps_addLock {objName : String} :
    Keeps (Inv (H := H) (R := R)) (addLock path objName) := by
  refine Keeps.get_bind fun s hs => ?_
  cases hl : s.locks path with
  | some l => exact hs
  | none =>
      show Inv (s.setLock path (Lock.new objName))
      refine ⟨fun p k hk => ?_, fun p k mode u hk hu => ?_, fun u hu => ?_,
        fun p k mode hk => ?_⟩
      · rcases setLock_cases hk with ⟨rfl, rfl⟩ | ⟨_, hk⟩
        · exact Reach.start ⟨objName, rfl⟩
        · exact hs.lockReach p k hk
      · rcases setLock_cases hk with ⟨rfl, rfl⟩ | ⟨_, hk⟩
        · exact absurd hu List.not_mem_nil
        · exact hs.queuedAt p k mode u hk hu
      · obtain ⟨p, k, mode, hk, hmem⟩ := hu
        rcases setLock_cases hk with ⟨rfl, rfl⟩ | ⟨_, hk⟩
        · exact absurd hmem List.not_mem_nil
        · exact hs.queuedBy u ⟨p, k, mode, hk, hmem⟩
      · rcases setLock_cases hk with ⟨rfl, rfl⟩ | ⟨_, hk⟩
        · exact List.nodup_nil
        · exact hs.queueNodup p k mode hk

theorem keeps_removeNow : Keeps (Inv (H := H) (R := R)) (removeNow path) := by
  intro s hs
  refine final_lock_bind hs fun l _ => ?_
  refine Keeps.ite (fun _ => Keeps.modify fun s hs => ?_) (fun _ => Keeps.pure ()) s hs
  have hback : ∀ p k, Function.update s.locks path none p = some k → s.locks p = some k := by
    intro p k hk
    by_cases hp : p = path
    · subst hp
      rw [Function.update_self] at hk
      cases hk
    · rwa [Function.update_of_ne hp] at hk
  refine ⟨fun p k hk => hs.lockReach p k (hback p k hk),
    fun p k mode u hk => hs.queuedAt p k mode u (hback p k hk), fun u hu => ?_,
    fun p k mode hk => hs.queueNodup p k mode (hback p k hk)⟩
  obtain ⟨p, k, mode, hk, hmem⟩ := hu
  exact hs.queuedBy u ⟨p, k, mode, hback p k hk, hmem⟩

/-! ## Waiting -/

/-- One round of the loop of `dequeue_lock_requests`: the use is in no queue
    after it, and no use comes into one. -/
theorem dequeueUse_spec (hs : Inv s) (u : Use R) :
    Inv (s.dequeueUse u) ∧ ¬ Queued (s.dequeueUse u) u
      ∧ ∀ v, Queued (s.dequeueUse u) v → Queued s v := by
  unfold Locks.dequeueUse
  cases hl : s.locks u.lockPath with
  | none =>
      refine ⟨hs, ?_, fun _ hv => hv⟩
      rintro ⟨p, k, mode, hk, hmem⟩
      rw [← (hs.queuedAt p k mode u hk hmem).1, hl] at hk
      cases hk
  | some l =>
      have hsub : ∀ mode, ((l.dequeueLockUse u).waitingQueues mode).Sublist
          (l.waitingQueues mode) := by
        intro mode
        show (Function.update l.waitingQueues u.lockMode _ mode).Sublist _
        by_cases hm : mode = u.lockMode
        · subst hm
          rw [Function.update_self]
          exact List.erase_sublist
        · rw [Function.update_of_ne hm]
      refine ⟨hs.setLock hl ((hs.lockReach _ l hl).next (o := .dequeueLockUse u) rfl) hsub, ?_, ?_⟩
      · rintro ⟨p, k, mode, hk, hmem⟩
        rcases setLock_cases hk with ⟨rfl, rfl⟩ | ⟨hp, hk⟩
        · have hm : u.lockMode = mode := (hs.queuedAt _ l mode u hl ((hsub mode).subset hmem)).2
          subst hm
          change u ∈ Function.update l.waitingQueues u.lockMode _ u.lockMode at hmem
          rw [Function.update_self] at hmem
          exact (hs.queueNodup _ l _ hl).not_mem_erase hmem
        · exact hp (hs.queuedAt p k mode u hk hmem).1.symm
      · rintro v ⟨p, k, mode, hk, hmem⟩
        rcases setLock_cases hk with ⟨rfl, rfl⟩ | ⟨_, hk⟩
        · exact ⟨_, l, mode, hl, (hsub mode).subset hmem⟩
        · exact ⟨p, k, mode, hk, hmem⟩

/-- Clearing the flag of a requestor none of whose uses is in a queue. -/
theorem Inv.clearEnqueued (hs : Inv s) (hnone : ∀ u ∈ s.useList r, ¬ Queued s u) :
    Inv { s with isEnqueued := Function.update s.isEnqueued r false } where
  lockReach := hs.lockReach
  queuedAt := hs.queuedAt
  queuedBy u hu := by
    obtain ⟨h1, h2⟩ := hs.queuedBy u hu
    refine ⟨h1, ?_⟩
    have hne : u.requestor ≠ r := by
      rintro rfl
      exact hnone u h1 hu
    show Function.update s.isEnqueued r false u.requestor = true
    rw [Function.update_of_ne hne]
    exact h2
  queueNodup := hs.queueNodup

/-- One round of the loop of `enqueue_lock_requests` for a use in no queue of an
    enqueued requestor. -/
theorem enqueueLockUse_spec (hs : Inv s) (hl : s.locks u.lockPath = some l)
    (hmem : u ∈ s.useList u.requestor) (hflag : s.isEnqueued u.requestor = true)
    (hnew : ¬ Queued s u) :
    Inv (s.setLock u.lockPath (l.enqueueLockUse u).2)
      ∧ ∀ v, Queued (s.setLock u.lockPath (l.enqueueLockUse u).2) v → v = u ∨ Queued s v := by
  have hqueue : ∀ mode v, v ∈ (l.enqueueLockUse u).2.waitingQueues mode →
      (v = u ∧ mode = u.lockMode) ∨ v ∈ l.waitingQueues mode := by
    intro mode v hv
    change v ∈ Function.update l.waitingQueues u.lockMode _ mode at hv
    by_cases hm : mode = u.lockMode
    · subst hm
      rw [Function.update_self, List.mem_append, List.mem_singleton] at hv
      exact hv.symm.imp_left fun hv => ⟨hv, rfl⟩
    · rw [Function.update_of_ne hm] at hv
      exact Or.inr hv
  have hback : ∀ v, Queued (s.setLock u.lockPath (l.enqueueLockUse u).2) v →
      v = u ∨ Queued s v := by
    rintro v ⟨p, k, mode, hk, hv⟩
    rcases setLock_cases hk with ⟨rfl, rfl⟩ | ⟨_, hk⟩
    · exact (hqueue mode v hv).imp And.left fun hv => ⟨_, l, mode, hl, hv⟩
    · exact Or.inr ⟨p, k, mode, hk, hv⟩
  refine ⟨⟨fun p k hk => ?_, fun p k mode v hk hv => ?_, fun v hv => ?_,
    fun p k mode hk => ?_⟩, hback⟩
  · rcases setLock_cases hk with ⟨rfl, rfl⟩ | ⟨_, hk⟩
    · exact (hs.lockReach _ l hl).next (o := .enqueueLockUse u) rfl
    · exact hs.lockReach p k hk
  · rcases setLock_cases hk with ⟨rfl, rfl⟩ | ⟨_, hk⟩
    · rcases hqueue mode v hv with ⟨rfl, rfl⟩ | hv
      · exact ⟨rfl, rfl⟩
      · exact hs.queuedAt _ l mode v hl hv
    · exact hs.queuedAt p k mode v hk hv
  · rcases hback v hv with rfl | hv
    · exact ⟨hmem, hflag⟩
    · exact hs.queuedBy v hv
  · rcases setLock_cases hk with ⟨rfl, rfl⟩ | ⟨_, hk⟩
    · show (Function.update l.waitingQueues u.lockMode _ mode).Nodup
      by_cases hm : mode = u.lockMode
      · subst hm
        rw [Function.update_self, List.nodup_append]
        refine ⟨hs.queueNodup _ l _ hl, List.nodup_singleton u, ?_⟩
        intro a ha b hb
        rw [List.mem_singleton] at hb
        subst hb
        rintro rfl
        exact hnew ⟨_, l, _, hl, ha⟩
      · rw [Function.update_of_ne hm]
        exact hs.queueNodup _ l mode hl
    · exact hs.queueNodup p k mode hk

/-- The loop of `dequeue_lock_requests`: after it no use of the list is queued. -/
theorem dequeue_loop (us : List (Use R)) (hs : Inv s) :
    Inv (us.foldl (fun s u => s.dequeueUse u) s)
      ∧ (us.foldl (fun s u => s.dequeueUse u) s).useList = s.useList
      ∧ ∀ u, Queued (us.foldl (fun s u => s.dequeueUse u) s) u → Queued s u ∧ u ∉ us := by
  induction us generalizing s with
  | nil => exact ⟨hs, rfl, fun u hu => ⟨hu, List.not_mem_nil⟩⟩
  | cons a us ih =>
      obtain ⟨hinv, hnot, hback⟩ := dequeueUse_spec hs a
      have huse : (s.dequeueUse a).useList = s.useList := by
        unfold Locks.dequeueUse
        cases s.locks a.lockPath <;> rfl
      obtain ⟨h1, h2, h3⟩ := ih hinv
      refine ⟨h1, h2.trans huse, fun u hu => ?_⟩
      obtain ⟨hq, hmem⟩ := h3 u hu
      refine ⟨hback u hq, fun hcons => ?_⟩
      rcases List.mem_cons.mp hcons with rfl | hin
      · exact hnot hq
      · exact hmem hin

theorem keeps_dequeueLockRequests :
    Keeps (Inv (H := H) (R := R)) (dequeueLockRequests r) := by
  refine Keeps.get_bind fun s hs => ?_
  by_cases hflag : s.isEnqueued r = true
  · rw [if_pos hflag]
    show Inv ((do
      forEach (fun u => modify (Locks.dequeueUse u)) (s.useList r)
      modify fun s => { s with isEnqueued := Function.update s.isEnqueued r false } :
      Call H R Unit) s).2
    rw [bind_run, forEach_modify]
    obtain ⟨hinv, huse, hback⟩ := dequeue_loop (s.useList r) hs
    exact hinv.clearEnqueued fun u hu hq => (hback u hq).2 (huse ▸ hu)
  · rw [if_neg hflag]
    exact hs

/-- The loop of `enqueue_lock_requests` over uses in no queue of an enqueued
    requestor. -/
theorem enqueue_loop (holder : Option H) (us : List (Use R)) (hnd : us.Nodup) :
    Triple (fun s : Locks H R => Inv s ∧ s.isEnqueued r = true
        ∧ ∀ u ∈ us, u ∈ s.useList r ∧ ¬ Queued s u)
      (forEach (enqueueUse holder) us) (fun _ => Inv) (fun _ => Inv) := by
  induction us with
  | nil => exact Triple.pure fun s hs => hs.1
  | cons a us ih =>
      obtain ⟨ha, hnd'⟩ := List.nodup_cons.mp hnd
      refine Triple.bind ?_ fun _ => ih hnd'
      rintro s ⟨hs, hflag, hall⟩
      obtain ⟨hmem, hnew⟩ := hall a (List.mem_cons_self ..)
      have hown : a.requestor = r := s.uses_own r a hmem
      subst hown
      have hrest : ∀ u ∈ us, u ∈ s.useList a.requestor ∧ ¬ Queued s u :=
        fun u hu => hall u (List.mem_cons_of_mem a hu)
      unfold enqueueUse
      cases hl : s.locks a.lockPath with
      | none =>
          rw [bind_run, lock_run_none hl]
          exact hs
      | some l =>
          rw [bind_run, lock_run_some hl]
          by_cases hheld : (holder.all fun h => !l.isHeldBy h a) = true
          · simp only [if_pos hheld]
            obtain ⟨hinv, hback⟩ := enqueueLockUse_spec hs hl hmem hflag hnew
            refine ⟨hinv, hflag, fun u hu => ⟨(hrest u hu).1, fun hq => ?_⟩⟩
            rcases hback u hq with rfl | hq
            · exact ha hu
            · exact (hrest u hu).2 hq
          · simp only [if_neg hheld]
            exact ⟨hs, hflag, hrest⟩

/-- Setting the flag of a requestor. -/
theorem Inv.setEnqueued (hs : Inv s) (r : R) :
    Inv { s with isEnqueued := Function.update s.isEnqueued r true } where
  lockReach := hs.lockReach
  queuedAt := hs.queuedAt
  queuedBy u hu := by
    obtain ⟨h1, h2⟩ := hs.queuedBy u hu
    refine ⟨h1, ?_⟩
    show Function.update s.isEnqueued r true u.requestor = true
    by_cases hr : u.requestor = r
    · rw [hr, Function.update_self]
    · rw [Function.update_of_ne hr]
      exact h2
  queueNodup := hs.queueNodup

theorem keeps_enqueueLockRequests {holder : Option H} :
    Keeps (Inv (H := H) (R := R)) (enqueueLockRequests r holder) := by
  refine Keeps.get_bind fun s hs => ?_
  by_cases hflag : s.isEnqueued r = true
  · rw [hflag]
    exact hs
  · rw [Bool.eq_false_iff.mpr hflag]
    by_cases hknown : s.locksAreKnown r = true
    · show Inv ((if s.locksAreKnown r then _ else _ : Call H R Bool) s).2
      rw [if_pos hknown]
      have hpre : Inv { s with isEnqueued := Function.update s.isEnqueued r true }
          ∧ Function.update s.isEnqueued r true r = true
          ∧ ∀ u ∈ s.useList r, u ∈ s.useList r ∧ ¬ Queued s u := by
        refine ⟨hs.setEnqueued r, Function.update_self .., fun u hu => ⟨hu, fun hq => ?_⟩⟩
        have h2 := (hs.queuedBy u hq).2
        rw [s.uses_own r u hu] at h2
        exact hflag h2
      have hloop := enqueue_loop (r := r) holder (s.useList r) (s.uses_nodup r)
      show Inv (final (forEach (enqueueUse holder) (s.useList r) >>= fun _ => pure true)
        { s with isEnqueued := Function.update s.isEnqueued r true })
      refine Triple.final (hloop.bind fun _ => Triple.pure fun _ hs => hs) ?_
      exact hpre
    · show Inv ((if s.locksAreKnown r then _ else _ : Call H R Bool) s).2
      rw [if_neg hknown]
      exact hs

/-! ## Runs of the subsystem -/

/-- The calls that reach the subsystem's objects. -/
inductive Op (H R : Type) where
  | addLock (path objName : String)
  | initializeBase (path : String) (subsystem : SubsystemState)
  | loadBase (path : String) (subsystem : SubsystemState)
  | activateBase (path : String) (subsystem : SubsystemState)
  | setBaseFileXc (path : String) (xc : Option String)
  | setMaxNonExclusive (path : String) (maxNonExclusive : Int)
  | prepareToRemove (path : String)
  | setReplacement (path : String)
  | removeNow (path : String)
  | addLockUse (r : R) (path : String) (mode : LockMode)
  | setDom (r : R) (path : String) (exclusive : Option Bool)
  | enqueueLockRequests (r : R) (holder : Option H)
  | dequeueLockRequests (r : R)
  | addRequestor (h : H) (r : R)
  | removeRequestor (h : H) (r : R)
  | tryHold (h : H) (u : Use R)
  | holdLocks (h : H) (r : R)
  | releaseLockFor (h : H) (u : Use R)
  | releaseLocksOf (h : H) (r : R)
  | releaseLocks (h : H)

/-- The call, its result dropped. -/
def perform : Op H R → Call H R Unit
  | .addLock path objName => addLock path objName
  | .initializeBase path subsystem => modifyLock path (.initializeBase subsystem)
  | .loadBase path subsystem => modifyLock path (.loadBase subsystem)
  | .activateBase path subsystem => modifyLock path (.activateBase subsystem)
  | .setBaseFileXc path xc => modifyLock path (.setBaseFileXc xc)
  | .setMaxNonExclusive path maxNonExclusive => setMaxNonExclusive path maxNonExclusive
  | .prepareToRemove path => prepareToRemove path
  | .setReplacement path => setReplacement path
  | .removeNow path => removeNow path
  | .addLockUse r path mode => do let _ ← addLockUse r path mode
  | .setDom r path exclusive => setDom r path exclusive
  | .enqueueLockRequests r holder => do let _ ← enqueueLockRequests r holder
  | .dequeueLockRequests r => dequeueLockRequests r
  | .addRequestor h r => addRequestor h r
  | .removeRequestor h r => removeRequestor h r
  | .tryHold h u => do let _ ← tryHold h u
  | .holdLocks h r => holdLocks h r
  | .releaseLockFor h u => do let _ ← releaseLockFor h u
  | .releaseLocksOf h r => releaseLocksOf h r
  | .releaseLocks h => releaseLocks h

/-- A subsystem before its first call: no locks, no uses, nobody known. -/
structure IsEmpty (s : Locks H R) : Prop where
  locks : ∀ path, s.locks path = none
  useList : ∀ r, s.useList r = []
  isEnqueued : ∀ r, s.isEnqueued r = false
  requestorSet : ∀ h, s.requestorSet h = []
  wakeUps : s.wakeUps = []

/-- One call; whether it ends normally or throws, its changes stay. -/
def Step (s : Locks H R) (op : Op H R) (s' : Locks H R) : Prop := s' = final (perform op) s

/-- The states that calls lead to. -/
def Reachable (s : Locks H R) : Prop := Reach IsEmpty Step s

theorem keeps_op (op : Op H R) : Keeps Inv (perform op) := by
  cases op with
  | addLock path objName => exact keeps_addLock
  | initializeBase path subsystem => exact keeps_modifyLock fun _ => rfl
  | loadBase path subsystem => exact keeps_modifyLock fun _ => rfl
  | activateBase path subsystem => exact keeps_modifyLock fun _ => rfl
  | setBaseFileXc path xc => exact keeps_modifyLock fun _ => rfl
  | setMaxNonExclusive path n => exact keeps_setMaxNonExclusive
  | prepareToRemove path => exact keeps_modifyLock fun _ => rfl
  | setReplacement path => exact keeps_modifyLock fun _ => rfl
  | removeNow path => exact keeps_removeNow
  | addLockUse r path mode => exact keeps_addLockUse.bind fun _ => Keeps.pure ()
  | setDom r path exclusive => exact keeps_setDom
  | enqueueLockRequests r holder => exact keeps_enqueueLockRequests.bind fun _ => Keeps.pure ()
  | dequeueLockRequests r => exact keeps_dequeueLockRequests
  | addRequestor h r => exact keeps_addRequestor
  | removeRequestor h r => exact keeps_removeRequestor
  | tryHold h u => exact keeps_tryHold.bind fun _ => Keeps.pure ()
  | holdLocks h r => exact keeps_holdLocks
  | releaseLockFor h u => exact keeps_releaseLockFor.bind fun _ => Keeps.pure ()
  | releaseLocksOf h r => exact keeps_releaseLocksOf
  | releaseLocks h => exact keeps_releaseLocks

/-- **THE SUBSYSTEM REFINES THE LOCK**: after any calls every lock is in a state
    of the one-lock model, and the queues name only what is enqueued. -/
theorem inv_of_reachable (hr : Reachable s) : Inv s := by
  refine Reach.invariant ?_ ?_ hr
  · intro s hs
    refine ⟨fun p k hk => ?_, fun p k mode u hk => ?_, fun u hu => ?_, fun p k mode hk => ?_⟩
    · rw [hs.locks p] at hk; cases hk
    · rw [hs.locks p] at hk; cases hk
    · obtain ⟨p, k, mode, hk, _⟩ := hu
      rw [hs.locks p] at hk; cases hk
    · rw [hs.locks p] at hk; cases hk
  · rintro s op _ hs rfl
    exact keeps_op op s hs

/-- The state after a list of calls. -/
def Locks.run (s : Locks H R) (ops : List (Op H R)) : Locks H R :=
  ops.foldl (fun s op => final (perform op) s) s

theorem reachable_run (hr : Reachable s) (ops : List (Op H R)) : Reachable (s.run ops) := by
  have hstep : ∀ (s : Locks H R) op, Step s op (final (perform op) s) := fun _ _ => rfl
  exact Reach.foldl hstep hr ops

end LockSubsystem
