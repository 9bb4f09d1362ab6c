import SchedulerEngine.LockSubsystemProofs

/-! # Acquiring several locks

    `Holder::hold_locks` takes the locks of a requestor one after the other,
    after a single look at all of them.  The first acquisition changes what the
    second one sees, when both are of one lock.  What makes the single look
    enough: a lock that is free for two uses of a holder stays free for the
    second after the holder took it with the first. -/

set_option linter.unusedSectionVars false

namespace LockAcquisition

open FileBased RunInvariant Execution Execution.Exec LockState LockSubsystem

variable {H R : Type} [DecidableEq H] [DecidableEq R]
variable {s : Locks H R} {l : Lock H R} {h : H} {r : R} {u v : Use R}

/-- `is_free_for` says so only of an active lock. -/
theorem active_of_free (hun : Untouched l) (hfree : l.isFreeFor u (some h) = true) :
    l.base.state = .active := by
  by_contra hn
  obtain ⟨hkeys, hmode⟩ := hun hn
  rcases isFreeFor_some_iff.mp hfree with hf | hf
  · unfold Lock.FreeAfresh at hf
    by_cases hu : u.lockMode = .exclusive
    · rw [if_pos hu] at hf
      exact hn (isFree_iff.mp hf).1
    · rw [if_neg hu, hmode] at hf
      rcases hf.1 with hx | hx
      · cases hx
      · exact hn (isFree_iff.mp hx).1
  · exact keys_ne_nil hf.1 hkeys

/-- A lock free for two uses of a holder is free for the second after the holder
    took it with the first. -/
theorem isFreeFor_hold (hv : l.isFreeFor v (some h) = true) :
    (l.hold h u).isFreeFor v (some h) = true := by
  refine isFreeFor_some_iff.mpr (Or.inr ⟨holds_hold.mpr (Or.inl rfl), ?_⟩)
  by_cases hm : v.lockMode = .nonExclusive
  · exact Or.inl hm
  · refine Or.inr ?_
    show (l.holderMap.insert h _).keys.length = 1
    rcases isFreeFor_some_iff.mp hv with hf | ⟨hh, hf⟩
    · unfold Lock.FreeAfresh at hf
      rw [if_pos (lockMode_ne_nonExclusive.mp hm)] at hf
      have hkeys := (isFree_iff.mp hf).2
      rw [keys_insert_length_new fun hh => keys_ne_nil hh hkeys, hkeys]
      rfl
    · rw [keys_insert_length hh]
      exact hf.resolve_left hm

/-! ## The look before -/

/-- Every use of the list has a lock, and the lock is free for the holder. -/
def Ready (s : Locks H R) (h : H) (us : List (Use R)) : Prop :=
  ∀ u ∈ us, ∃ l, s.locks u.lockPath = some l ∧ l.isFreeFor u (some h) = true

theorem ready_of_available {us : List (Use R)} {turn : Bool}
    (ha : s.availableLoop (some h) us turn = true) : Ready s h us := by
  induction us generalizing turn with
  | nil => exact fun u hu => absurd hu List.not_mem_nil
  | cons a us ih =>
      unfold Locks.availableLoop at ha
      cases hl : s.locks a.lockPath with
      | none => rw [hl] at ha; cases ha
      | some l =>
          rw [hl] at ha
          by_cases hfree : l.isFreeFor a (some h) = true
          · simp only [if_pos hfree] at ha
            intro u hu
            rcases List.mem_cons.mp hu with rfl | hu
            · exact ⟨l, hl, hfree⟩
            · exact ih ha u hu
          · simp only [if_neg hfree] at ha
            cases ha

/-- A requestor without uses never has its turn. -/
theorem useList_ne_nil (ha : s.locksAreAvailableForHolder r (some h) = true) :
    s.useList r ≠ [] := by
  intro hnil
  unfold Locks.locksAreAvailableForHolder at ha
  rw [hnil] at ha
  cases ha

/-! ## The loop -/

/-- One `hold_lock` of a use whose lock is free. -/
theorem holdLock_run (hs : Inv s) (hl : s.locks u.lockPath = some l)
    (hfree : l.isFreeFor u (some h) = true)
    (hknown : s.isKnownRequestor h u.requestor = true) :
    holdLock h u s = (.ok (), s.setLock u.lockPath (l.hold h u)) := by
  have hactive := active_of_free (untouched_of_reach (hs.lockReach _ l hl)) hfree
  obtain ⟨fresh, heq⟩ := requireLockFor_of_free hactive hknown hfree
  unfold holdLock requireLockFor
  rw [bind_run, bind_run, lock_run_some hl]
  simp only [bind_run, get_run, ofExcept_run, heq, modify_run, pure_run]

theorem holdsUse_iff :
    s.holdsUse h v = true ↔ ∃ l, s.locks v.lockPath = some l ∧ v ∈ l.usesOf h := by
  unfold Locks.holdsUse
  rw [Option.any_eq_true]
  simp only [isHeldBy_iff]

/-- The holder holds the use it just took. -/
theorem holdsUse_hold_self : (s.setLock u.lockPath (l.hold h u)).holdsUse h u = true := by
  refine holdsUse_iff.mpr ⟨_, setLock_locks_self, ?_⟩
  rw [usesOf_hold, if_pos rfl]
  exact Finset.mem_insert_self u _

/-- The holder keeps what it held. -/
theorem holdsUse_hold (hl : s.locks u.lockPath = some l) (hv : s.holdsUse h v = true) :
    (s.setLock u.lockPath (l.hold h u)).holdsUse h v = true := by
  obtain ⟨k, hk, hmem⟩ := holdsUse_iff.mp hv
  refine holdsUse_iff.mpr ?_
  by_cases hp : v.lockPath = u.lockPath
  · rw [hp, hl] at hk
    cases hk
    refine ⟨l.hold h u, ?_, ?_⟩
    · rw [hp]
      exact setLock_locks_self
    · rw [usesOf_hold, if_pos rfl]
      exact Finset.mem_insert_of_mem hmem
  · refine ⟨k, ?_, hmem⟩
    rw [setLock_locks_ne hp]
    exact hk

/-- The uses still to take stay ready. -/
theorem ready_hold {us : List (Use R)} (hl : s.locks u.lockPath = some l)
    (hready : Ready s h us) : Ready (s.setLock u.lockPath (l.hold h u)) h us := by
  intro v hv
  obtain ⟨k, hk, hfree⟩ := hready v hv
  by_cases hp : v.lockPath = u.lockPath
  · rw [hp, hl] at hk
    cases hk
    refine ⟨l.hold h u, ?_, isFreeFor_hold hfree⟩
    rw [hp]
    exact setLock_locks_self
  · refine ⟨k, ?_, hfree⟩
    rw [setLock_locks_ne hp]
    exact hk

/-- The loop of `hold_locks` over uses that are ready: it ends normally, and the
    holder holds them all and what it held before. -/
theorem holdLocks_loop {us : List (Use R)} (hs : Inv s) (hready : Ready s h us)
    (hknown : ∀ u ∈ us, s.isKnownRequestor h u.requestor = true) :
    ∃ s', forEach (holdLock h) us s = (.ok (), s') ∧ s'.useList = s.useList
      ∧ (∀ u, s.holdsUse h u = true → s'.holdsUse h u = true)
      ∧ ∀ u ∈ us, s'.holdsUse h u = true := by
  induction us generalizing s with
  | nil =>
      exact ⟨s, rfl, rfl, fun _ hu => hu, fun u hu => absurd hu List.not_mem_nil⟩
  | cons a us ih =>
      obtain ⟨l, hl, hfree⟩ := hready a (List.mem_cons_self ..)
      have hrun := holdLock_run hs hl hfree (hknown a (List.mem_cons_self ..))
      have hinv : Inv (s.setLock a.lockPath (l.hold h a)) := by
        have := keeps_holdLock (h := h) (u := a) s hs
        unfold final at this
        rw [hrun] at this
        exact this
      obtain ⟨s', hrun', huse, hkeep, hall⟩ := ih hinv
        (ready_hold hl fun u hu => hready u (List.mem_cons_of_mem a hu))
        (fun u hu => hknown u (List.mem_cons_of_mem a hu))
      refine ⟨s', ?_, huse, fun u hu => hkeep u (holdsUse_hold hl hu), fun u hu => ?_⟩
      · rw [forEach_cons, bind_run, hrun]
        exact hrun'
      · rcases List.mem_cons.mp hu with rfl | hu
        · exact hkeep u holdsUse_hold_self
        · exact hall u hu

/-- `hold_locks` of available locks ends normally, and the holder holds them all. -/
theorem holdLocks_run (hs : Inv s) {r : R} (hknown : s.isKnownRequestor h r = true)
    (havail : s.locksAreAvailableForHolder r (some h) = true) :
    ∃ s', holdLocks h r s = (.ok (), s') ∧ s'.isHoldingAllOf h r = true := by
  have hready : Ready s h (s.useList r) := ready_of_available havail
  obtain ⟨s', hloop, huse, _, hall⟩ := holdLocks_loop hs hready
    fun u hu => by rw [s.uses_own r u hu]; exact hknown
  have hholding : s'.isHoldingAllOf h r = true := by
    rw [Locks.isHoldingAllOf, huse, Bool.and_eq_true]
    refine ⟨?_, List.all_eq_true.mpr hall⟩
    rw [Bool.not_eq_true', List.isEmpty_eq_false_iff]
    exact useList_ne_nil havail
  refine ⟨s', ?_, hholding⟩
  simp only [holdLocks, bind_run, get_run, require_run, havail, hknown, if_true, hloop, hholding]

/-- **ALL OR NOTHING**: in every state that calls lead to, a holder that knows a
    requestor whose locks are available for it takes them all: `hold_locks` ends
    normally, and the holder holds all of them. -/
theorem hold_locks_of_available (s : Locks H R) (hr : Reachable s) (h : H) (r : R)
    (hknown : s.isKnownRequestor h r = true)
    (havail : s.locksAreAvailableForHolder r (some h) = true) :
    ∃ s', holdLocks h r s = (.ok (), s') ∧ s'.isHoldingAllOf h r = true :=
  holdLocks_run (inv_of_reachable hr) hknown havail

/-- One lock, one holder and one requestor that uses the lock in both modes. -/
def twoUses : Locks Nat Nat :=
  (⟨fun _ => none, fun _ => [], fun _ => false, fun _ => [], fun _ => none, [],
    fun _ _ => nofun, fun _ => List.nodup_nil⟩ : Locks Nat Nat).run [
      .addLock "a" "Lock a", .activateBase "a" .active,
      .addLockUse 7 "a" .nonExclusive, .addLockUse 7 "a" .exclusive, .addRequestor 1 7]

theorem twoUses_held :
    (twoUses.useList 7).length = 2
      ∧ ∃ s', holdLocks 1 7 twoUses = (.ok (), s') ∧ s'.isHoldingAllOf 1 7 = true :=
  ⟨by decide, hold_locks_of_available twoUses
    (reachable_run (Reach.start ⟨fun _ => rfl, fun _ => rfl, fun _ => rfl, fun _ => rfl, rfl⟩) _)
    1 7 (by decide) (by decide)⟩

end LockAcquisition
