import SchedulerEngine.LockStateProofs

/-! # The non-exclusive limit of a lock

    `max_non_exclusive` limits the holders of a lock in non-exclusive mode.  It
    is asked for only where a holder takes the lock afresh: a holder that
    already has it gets a non-exclusive use whatever the limit says, and keeps
    that use when its last exclusive one goes.  That turns one exclusive holder
    into one non-exclusive holder, so the limit holds over all runs exactly when
    it leaves room for one. -/

set_option linter.unusedSectionVars false

namespace LockLimit

open FileBased RunInvariant LockState

variable {H R : Type} [DecidableEq H] [DecidableEq R]

/-- A new lock whose configuration says `max_non_exclusive`. -/
def IsNewWith (maxNonExclusive : Nat) (l : Lock H R) : Prop :=
  ∃ objName, l = { (Lock.new objName : Lock H R) with maxNonExclusive := maxNonExclusive }

/-- The call leaves the limit alone. -/
def LimitUntouched (_ : Lock H R) (op : LockOp H R) : Prop :=
  ∀ n, op ≠ .setMaxNonExclusive n

/-- The runs in which the limit stays what the configuration says. -/
def ReachFixed (maxNonExclusive : Nat) : Lock H R → Prop :=
  Reach (IsNewWith maxNonExclusive) (Guarded LimitUntouched Step)

/-- The limit is the configured one and not exceeded. -/
structure WithinLimit (maxNonExclusive : Nat) (l : Lock H R) : Prop where
  exclusivity : Exclusivity l
  limit : l.maxNonExclusive = maxNonExclusive
  count : l.countNonExclusiveHolders ≤ maxNonExclusive

variable {M : Nat} {l l' : Lock H R} {h : H} {u : Use R}

theorem count_of_exclusive (hm : l.lockMode = .exclusive) :
    l.countNonExclusiveHolders = 0 := by
  unfold Lock.countNonExclusiveHolders
  rw [if_neg (by rw [hm]; nofun)]

theorem count_of_nonExclusive (hm : l.lockMode = .nonExclusive) :
    l.countNonExclusiveHolders = l.holderMap.keys.length := by
  unfold Lock.countNonExclusiveHolders
  rw [if_pos hm]

/-- The count depends on the mode and the number of holders: fewer holders and a
    mode that did not become non-exclusive cannot raise it. -/
theorem count_le_of (hmode : l'.lockMode = .nonExclusive → l.lockMode = .nonExclusive)
    (hlen : l'.holderMap.keys.length ≤ l.holderMap.keys.length) :
    l'.countNonExclusiveHolders ≤ l.countNonExclusiveHolders := by
  by_cases hm : l'.lockMode = .nonExclusive
  · rw [count_of_nonExclusive hm, count_of_nonExclusive (hmode hm)]
    exact hlen
  · rw [count_of_exclusive (lockMode_ne_nonExclusive.mp hm)]
    exact Nat.zero_le _

/-- Taking a lock that is free for the holder keeps the limit. -/
theorem WithinLimit.hold (hw : WithinLimit M l) (hfree : l.isFreeFor u (some h) = true) :
    WithinLimit M (l.hold h u) := by
  refine ⟨hw.exclusivity.hold hfree, hw.limit, ?_⟩
  by_cases hh : l.Holds h
  · refine le_trans (count_le_of ?_ (le_of_eq (keys_insert_length hh))) hw.count
    intro hmode
    change (if h ∈ l.holderMap ∧ u.lockMode = .nonExclusive then l.lockMode
      else u.lockMode) = .nonExclusive at hmode
    by_cases hu : u.lockMode = .nonExclusive
    · rw [if_pos ⟨hh, hu⟩] at hmode
      exact hmode
    · rw [if_neg (fun hn => hu hn.2)] at hmode
      exact absurd hmode hu
  · have hmode : (l.hold h u).lockMode = u.lockMode := if_neg fun hn => hh hn.1
    by_cases hu : u.lockMode = .nonExclusive
    · -- a fresh non-exclusive hold is the one place where the limit is asked for
      rw [count_of_nonExclusive (hmode.trans hu)]
      show (l.holderMap.insert h _).keys.length ≤ M
      rw [keys_insert_length_new hh]
      have hf := (isFreeFor_some_iff.mp hfree).resolve_right fun hagain => hh hagain.1
      unfold Lock.FreeAfresh at hf
      rw [if_neg (by rw [hu]; nofun), hw.limit] at hf
      obtain ⟨hfree | hfree, hlt⟩ := hf
      · rw [count_of_nonExclusive hfree] at hlt
        omega
      · rw [(isFree_iff.mp hfree).2]
        show 1 ≤ M
        omega
    · rw [count_of_exclusive (hmode.trans (lockMode_ne_nonExclusive.mp hu))]
      exact Nat.zero_le M

/-- Giving a use back keeps a limit that leaves room for one holder. -/
theorem WithinLimit.release (hM : 0 < M) (hw : WithinLimit M l) {b : Bool}
    (hok : l.releaseLockFor h u = .ok (b, l')) : WithinLimit M l' := by
  have hex' := hw.exclusivity.release hok
  rcases releaseLockFor_cases hw.exclusivity h u with ⟨_, heq⟩ | ⟨hu, _, heq⟩
    | ⟨hu, _, _, heq⟩ | ⟨hu, _, hm, _, heq⟩
  all_goals
    rw [heq] at hok
    cases hok
  · exact hw
  · refine ⟨hex', hw.limit, le_trans (count_le_of (l := l) id ?_) hw.count⟩
    show (l.holderMap.erase h).keys.length ≤ _
    rw [keys_erase_length (holds_of_mem_usesOf hu)]
    exact Nat.sub_le _ 1
  · refine ⟨hex', hw.limit, le_trans (count_le_of (l := l) id ?_) hw.count⟩
    exact le_of_eq (keys_insert_length (holds_of_mem_usesOf hu))
  · -- the downgrade: the exclusive holder was the only one
    have hh := holds_of_mem_usesOf hu
    refine ⟨hex', hw.limit, ?_⟩
    rw [count_of_nonExclusive rfl]
    show (l.holderMap.insert h _).keys.length ≤ M
    rw [keys_insert_length hh,
      hw.exclusivity.singleHolder (keys_ne_nil hh) (hw.exclusivity.mode_of_use hu hm)]
    exact hM

/-- Calls that change neither flag, map nor limit. -/
theorem WithinLimit.congr (hw : WithinLimit M l) (hmode : l'.lockMode = l.lockMode)
    (hmap : l'.holderMap = l.holderMap) (hmax : l'.maxNonExclusive = l.maxNonExclusive) :
    WithinLimit M l' := by
  refine ⟨hw.exclusivity.congr hmode hmap, hmax.trans hw.limit,
    le_trans (count_le_of (fun hm => hmode ▸ hm) ?_) hw.count⟩
  rw [hmap]

/-- Every call that leaves the limit alone keeps a positive one. -/
theorem WithinLimit.step (hM : 0 < M) {op : LockOp H R} (hw : WithinLimit M l)
    (hop : LimitUntouched l op) (hs : Step l op l') : WithinLimit M l' := by
  unfold Step at hs
  subst hs
  cases op with
  | requireLockFor known h u =>
      rcases requireLockFor_cases known h u l with ⟨_, _, hf, _, heq⟩ | ⟨_, heq, _⟩
      · rw [LockOp.apply, heq]
        exact hw.hold hf
      · rw [LockOp.apply, heq]
        exact hw
  | releaseLockFor h u =>
      obtain ⟨b, l', heq⟩ := releaseLockFor_returns hw.exclusivity h u
      rw [LockOp.apply, heq]
      exact hw.release hM heq
  | setMaxNonExclusive n => exact absurd rfl (hop n)
  | enqueueLockUse _ => exact hw.congr rfl rfl rfl
  | dequeueLockUse _ => exact hw.congr rfl rfl rfl
  | initializeBase _ => exact hw.congr rfl rfl rfl
  | loadBase _ => exact hw.congr rfl rfl rfl
  | activateBase _ => exact hw.congr rfl rfl rfl
  | setBaseFileXc _ => exact hw.congr rfl rfl rfl
  | setToBeRemoved _ => exact hw.congr rfl rfl rfl

/-- A positive limit holds in every state of its runs. -/
theorem withinLimit_of_reach (hM : 0 < M) (hr : ReachFixed M l) : WithinLimit M l := by
  refine Reach.invariant ?_ (fun _ _ _ hw hg => hw.step hM hg.1 hg.2) hr
  rintro _ ⟨objName, rfl⟩
  exact ⟨Exclusivity.of_no_holder rfl, rfl, Nat.zero_le M⟩

/-- The calls that make an exclusive holder a non-exclusive one: activate, hold
    exclusively, hold again non-exclusively, give the exclusive use back. -/
def downgradeCalls (holder : H) (requestor : R) : List (LockOp H R) :=
  [ .activateBase .active,
    .requireLockFor (fun _ _ => true) holder ⟨requestor, "a", .exclusive⟩,
    .requireLockFor (fun _ _ => true) holder ⟨requestor, "a", .nonExclusive⟩,
    .releaseLockFor holder ⟨requestor, "a", .exclusive⟩ ]

/-- The new lock with the limit `M`. -/
def newWith (M : Nat) : Lock H R := { (Lock.new "Lock a" : Lock H R) with maxNonExclusive := M }

theorem reachFixed_run (ops : List (LockOp H R))
    (hops : ∀ op ∈ ops, LimitUntouched l op) (hr : ReachFixed M l) :
    ReachFixed M (l.run ops) := by
  induction ops generalizing l with
  | nil => exact hr
  | cons op ops ih =>
      have hstep : Guarded LimitUntouched Step l op (op.apply l) :=
        ⟨hops op (List.mem_cons_self ..), rfl⟩
      exact ih (fun o ho => hops o (List.mem_cons_of_mem _ ho)) (Reach.next hr hstep)

theorem reachFixed_downgrade (M : Nat) (holder : H) (requestor : R) :
    ReachFixed M ((newWith M).run (downgradeCalls holder requestor)) := by
  refine reachFixed_run _ (fun op hop n => ?_) (Reach.start ⟨"Lock a", rfl⟩)
  rintro rfl
  simp [downgradeCalls] at hop

/-- With the limit zero the downgrade leaves one non-exclusive holder. -/
theorem count_after_downgrade (holder : H) (requestor : R) :
    ((newWith 0).run (downgradeCalls holder requestor)).countNonExclusiveHolders = 1 := by
  have hrest : ({⟨requestor, "a", .nonExclusive⟩, ⟨requestor, "a", .exclusive⟩} :
      Finset (Use R)).erase ⟨requestor, "a", .exclusive⟩ = {⟨requestor, "a", .nonExclusive⟩} := by
    rw [Finset.pair_comm]
    exact Finset.erase_insert (by rw [Finset.mem_singleton]; nofun)
  simp [hrest, newWith, downgradeCalls, Lock.run, LockOp.apply, Lock.new, Base.activateBase,
    Base.loadBase, Base.initializeBase, State.rank, SubsystemState.rank,
    Lock.requireLockFor, Lock.releaseLockFor, Lock.isFreeFor, Lock.isFree, Lock.isHolder,
    Base.assertIsActive, Lock.countNonExclusiveHolders, bind, Except.bind, pure, Except.pure,
    AList.lookup_insert, -AList.insert_empty]

/-- **THE LIMIT OVER RUNS**: the non-exclusive holders never exceed a fixed
    `max_non_exclusive` in any run exactly when that is positive. -/
theorem limit_over_runs_iff [Inhabited H] [Inhabited R] (maxNonExclusive : Nat) :
    (∀ l : Lock H R, ReachFixed maxNonExclusive l →
        l.countNonExclusiveHolders ≤ maxNonExclusive)
      ↔ 0 < maxNonExclusive := by
  constructor
  · intro hall
    by_contra hM
    have h0 : maxNonExclusive = 0 := by omega
    subst h0
    have hle := hall _ (reachFixed_downgrade 0 default default)
    rw [count_after_downgrade] at hle
    omega
  · exact fun hM l hr => (withinLimit_of_reach hM hr).count

/-- With the limit zero a run reaches a non-exclusive holder. -/
theorem zero_limit_exceeded :
    ¬ ∀ (maxNonExclusive : Nat) (l : Lock Nat Nat), ReachFixed maxNonExclusive l →
        l.countNonExclusiveHolders ≤ maxNonExclusive := by
  intro hall
  have hle := hall 0 _ (reachFixed_downgrade 0 1 7)
  rw [count_after_downgrade] at hle
  omega

end LockLimit
