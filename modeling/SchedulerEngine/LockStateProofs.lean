import Mathlib.Data.List.AList
import Mathlib.Data.Finset.Basic
import Mathlib.Logic.Function.Basic
import SchedulerEngine.FileBasedProofs
import SchedulerEngine.RunInvariantProofs

/-! # One lock and its holders

    `Lock` keeps a map from holders to the uses with which they hold it, one
    `_lock_mode` flag for all of them, and a waiting queue for each mode.  The
    flag is meant to be valid only while the map has an entry.  A holder may
    hold the lock with several uses, raise its hold from non-exclusive to
    exclusive, and fall back when the last exclusive use goes.

    `Exclusivity` says how flag and map belong together; it holds in every
    state that any calls of the lock's methods lead to. -/

set_option linter.unusedSectionVars false

namespace LockState

open FileBased RunInvariant

/-- `Lock::Lock_mode`. -/
inductive LockMode where
  | exclusive
  | nonExclusive
  deriving DecidableEq, Repr

/-- `Use`: the connection of a requestor with a lock.  A requestor has at most
    one use for a path and a mode, so these three say which `Use` it is. -/
structure Use (R : Type) where
  requestor : R
  lockPath : String
  lockMode : LockMode
  deriving DecidableEq

/-- `Lock`. -/
structure Lock (H R : Type) where
  base : Base
  maxNonExclusive : Int
  lockMode : LockMode
  holderMap : AList fun _ : H => Finset (Use R)
  waitingQueues : LockMode → List (Use R)

/-- `INT_MAX`. -/
def intMax : Int := 2147483647

/-- `Lock::Lock`: the members are zero-filled, so the mode is
    `lk_exclusive`, and the limit is `INT_MAX`. -/
def Lock.new {H R : Type} (objName : String) : Lock H R where
  base := {
    objName := objName
    state := .notInitialized
    baseFileXc := none
    isToBeRemoved := false }
  maxNonExclusive := intMax
  lockMode := .exclusive
  holderMap := ∅
  waitingQueues := fun _ => []

variable {H R : Type} [DecidableEq H] [DecidableEq R]

/-! ## The methods -/

/-- `Lock::count_non_exclusive_holders`. -/
def Lock.countNonExclusiveHolders (l : Lock H R) : Nat :=
  if l.lockMode = .nonExclusive then l.holderMap.keys.length else 0

/-- `Lock::is_free`. -/
def Lock.isFree (l : Lock H R) : Bool :=
  decide (l.base.state = .active) && l.holderMap.keys.isEmpty

/-- The holder is given and has an entry in `_holder_map`. -/
def Lock.isHolder (l : Lock H R) : Option H → Bool
  | none => false
  | some holder => (l.holderMap.lookup holder).isSome

/-- `Lock::is_free_for`. -/
def Lock.isFreeFor (l : Lock H R) (lockUse : Use R) (requestingHolder : Option H) : Bool :=
  let free :=
    if lockUse.lockMode = .exclusive then l.isFree
    else (decide (l.lockMode ≠ .exclusive) || l.isFree)
      && decide ((l.countNonExclusiveHolders : Int) < l.maxNonExclusive)
  if !free && l.isHolder requestingHolder then
    decide (lockUse.lockMode = .nonExclusive) || decide (l.holderMap.keys.length = 1)
  else free

/-- `Lock::its_my_turn`. -/
def Lock.itsMyTurn (l : Lock H R) (lockUse : Use R) (holder : Option H) : Bool :=
  l.isFreeFor lockUse holder &&
    match l.waitingQueues lockUse.lockMode with
    | [] => true
    | first :: _ => decide (first = lockUse)

/-- `Lock::require_lock_for`; `isKnownRequestor` is
    `Holder::is_known_requestor`. -/
def Lock.requireLockFor (isKnownRequestor : H → R → Bool) (holder : H) (lockUse : Use R)
    (l : Lock H R) : Except Failure (Bool × Lock H R) := do
  l.base.assertIsActive
  if !isKnownRequestor holder lockUse.requestor then
    throw (.function "Lock::require_lock_for")
  if !l.isFreeFor lockUse (some holder) then
    throw (.function "Lock::require_lock_for")
  match l.holderMap.lookup holder with
  | some useSet =>
      let holderMap := l.holderMap.insert holder (insert lockUse useSet)
      if l.lockMode = .nonExclusive ∧ lockUse.lockMode = .exclusive then
        if l.holderMap.keys.length ≠ 1 then throw (.assertion "_holder_map.size() == 1")
        pure (true, { l with lockMode := .exclusive, holderMap := holderMap })
      else
        pure (false, { l with holderMap := holderMap })
  | none =>
      pure (true, { l with
        lockMode := lockUse.lockMode
        holderMap := l.holderMap.insert holder {lockUse} })

/-- `Lock::release_lock_for` up to the call of `notify_waiting_requestor`. -/
def Lock.releaseLockFor (holder : H) (lockUse : Use R) (l : Lock H R) :
    Except Failure (Bool × Lock H R) :=
  match l.holderMap.lookup holder with
  | none => pure (false, l)
  | some useSet =>
      if lockUse ∈ useSet then
        let rest := useSet.erase lockUse
        if rest = ∅ then
          pure (true, { l with holderMap := l.holderMap.erase holder })
        else if lockUse.lockMode = .exclusive then
          if l.lockMode ≠ .exclusive then throw (.assertion "_lock_mode == lk_exclusive")
          else if ∃ u ∈ rest, u.lockMode = .exclusive then
            pure (false, { l with holderMap := l.holderMap.insert holder rest })
          else
            pure (true, { l with
              lockMode := .nonExclusive
              holderMap := l.holderMap.insert holder rest })
        else
          pure (false, { l with holderMap := l.holderMap.insert holder rest })
      else pure (false, l)

/-- `Lock::is_held_by`. -/
def Lock.isHeldBy (l : Lock H R) (holder : H) (lockUse : Use R) : Bool :=
  match l.holderMap.lookup holder with
  | none => false
  | some useSet => decide (lockUse ∈ useSet)

/-- `Lock::enqueue_lock_use`; the result is the place in the queue. -/
def Lock.enqueueLockUse (lockUse : Use R) (l : Lock H R) : Nat × Lock H R :=
  let queues := Function.update l.waitingQueues lockUse.lockMode
    (l.waitingQueues lockUse.lockMode ++ [lockUse])
  ((queues .exclusive).length
      + (if lockUse.lockMode = .nonExclusive then (queues .nonExclusive).length else 0),
    { l with waitingQueues := queues })

/-- `Lock::dequeue_lock_use`: the first occurrence goes. -/
def Lock.dequeueLockUse (lockUse : Use R) (l : Lock H R) : Lock H R :=
  let list := (l.waitingQueues lockUse.lockMode).erase lockUse
  { l with waitingQueues := Function.update l.waitingQueues lockUse.lockMode list }

/-- `Lock::set_max_non_exclusive` up to the call of `notify_waiting_requestor`;
    the result says whether that call follows. -/
def Lock.setMaxNonExclusive (maxNonExclusive : Int) (l : Lock H R) : Bool × Lock H R :=
  if l.maxNonExclusive ≠ maxNonExclusive then
    (true, { l with maxNonExclusive := maxNonExclusive })
  else (false, l)

/-- The requestor `Lock::notify_waiting_requestor` looks at: the head of the
    exclusive queue, or if that is empty the head of the other one. -/
def Lock.nextRequestor (l : Lock H R) : Option R :=
  match l.waitingQueues .exclusive with
  | u :: _ => some u.requestor
  | [] => (l.waitingQueues .nonExclusive).head?.map Use.requestor

/-! ## When a lock is free for a use -/

/-- A holder of the lock. -/
def Lock.Holds (l : Lock H R) (holder : H) : Prop := holder ∈ l.holderMap

/-- The uses with which a holder holds the lock. -/
def Lock.usesOf (l : Lock H R) (holder : H) : Finset (Use R) :=
  (l.holderMap.lookup holder).getD ∅

variable {l : Lock H R} {h h' : H} {u u' : Use R}

theorem isHolder_iff : l.isHolder (some h) = true ↔ l.Holds h := by
  unfold Lock.isHolder Lock.Holds
  exact AList.lookup_isSome

theorem holds_iff_mem_keys : l.Holds h ↔ h ∈ l.holderMap.keys := Iff.rfl

theorem lookup_of_holds (hh : l.Holds h) :
    l.holderMap.lookup h = some (l.usesOf h) := by
  obtain ⟨s, hs⟩ := Option.isSome_iff_exists.mp (isHolder_iff.mpr hh)
  unfold Lock.usesOf
  rw [hs]
  rfl

theorem lookup_of_not_holds (hh : ¬ l.Holds h) : l.holderMap.lookup h = none :=
  AList.lookup_eq_none.mpr hh

theorem usesOf_of_not_holds (hh : ¬ l.Holds h) : l.usesOf h = ∅ := by
  unfold Lock.usesOf
  rw [lookup_of_not_holds hh]
  rfl

theorem isHeldBy_iff : l.isHeldBy h u = true ↔ u ∈ l.usesOf h := by
  unfold Lock.isHeldBy Lock.usesOf
  cases l.holderMap.lookup h with
  | none => exact ⟨nofun, fun hu => absurd hu (Finset.notMem_empty u)⟩
  | some useSet => exact decide_eq_true_iff

theorem isFree_iff :
    l.isFree = true ↔ l.base.state = .active ∧ l.holderMap.keys = [] := by
  unfold Lock.isFree
  rw [Bool.and_eq_true, decide_eq_true_iff, List.isEmpty_iff]

/-- `is_free_for` without the holder's re-entrance. -/
def Lock.FreeAfresh (l : Lock H R) (lockUse : Use R) : Prop :=
  if lockUse.lockMode = .exclusive then l.isFree = true
  else (l.lockMode = .nonExclusive ∨ l.isFree = true)
    ∧ (l.countNonExclusiveHolders : Int) < l.maxNonExclusive

/-- `is_free_for` of a holder that already holds the lock. -/
def Lock.FreeAgain (l : Lock H R) (lockUse : Use R) (holder : H) : Prop :=
  l.Holds holder ∧ (lockUse.lockMode = .nonExclusive ∨ l.holderMap.keys.length = 1)

theorem lockMode_ne_exclusive {m : LockMode} : m ≠ .exclusive ↔ m = .nonExclusive := by
  cases m <;> decide

theorem lockMode_ne_nonExclusive {m : LockMode} : m ≠ .nonExclusive ↔ m = .exclusive := by
  cases m <;> decide

theorem isFreeFor_none_iff : l.isFreeFor u none = true ↔ l.FreeAfresh u := by
  unfold Lock.isFreeFor Lock.FreeAfresh
  simp only [Lock.isHolder, Bool.and_false, Bool.false_eq_true, if_false]
  by_cases hu : u.lockMode = .exclusive
  · rw [if_pos hu, if_pos hu]
  · rw [if_neg hu, if_neg hu]
    simp only [Bool.and_eq_true, Bool.or_eq_true, decide_eq_true_iff, lockMode_ne_exclusive]

theorem isFreeFor_some_iff :
    l.isFreeFor u (some h) = true ↔ l.FreeAfresh u ∨ l.FreeAgain u h := by
  rw [← isFreeFor_none_iff]
  unfold Lock.isFreeFor Lock.FreeAgain
  rw [← isHolder_iff]
  generalize (if u.lockMode = .exclusive then l.isFree
    else (decide (l.lockMode ≠ .exclusive) || l.isFree)
      && decide ((l.countNonExclusiveHolders : Int) < l.maxNonExclusive)) = free
  cases free <;> cases l.isHolder (some h) <;> simp [Lock.isHolder]

/-- What is free for nobody in particular is free for every holder. -/
theorem isFreeFor_some_of_none (hf : l.isFreeFor u none = true) (o : Option H) :
    l.isFreeFor u o = true := by
  cases o with
  | none => exact hf
  | some h => exact isFreeFor_some_iff.mpr (Or.inl (isFreeFor_none_iff.mp hf))

/-! ## What one call changes -/

variable {s : Finset (Use R)} {m : LockMode}

theorem usesOf_insert :
    Lock.usesOf { l with lockMode := m, holderMap := l.holderMap.insert h s } h'
      = if h' = h then s else l.usesOf h' := by
  unfold Lock.usesOf
  by_cases hh : h' = h
  · subst hh
    rw [if_pos rfl, AList.lookup_insert]
    rfl
  · rw [if_neg hh, AList.lookup_insert_ne hh]

theorem holds_insert :
    Lock.Holds { l with lockMode := m, holderMap := l.holderMap.insert h s } h'
      ↔ h' = h ∨ l.Holds h' :=
  AList.mem_insert l.holderMap

theorem usesOf_erase :
    Lock.usesOf { l with holderMap := l.holderMap.erase h } h'
      = if h' = h then ∅ else l.usesOf h' := by
  unfold Lock.usesOf
  by_cases hh : h' = h
  · subst hh
    rw [if_pos rfl, AList.lookup_erase]
    rfl
  · rw [if_neg hh, AList.lookup_erase_ne hh]

theorem holds_erase :
    Lock.Holds { l with holderMap := l.holderMap.erase h } h' ↔ h' ≠ h ∧ l.Holds h' :=
  AList.mem_erase

theorem keys_insert_length (hh : l.Holds h) :
    (l.holderMap.insert h s).keys.length = l.holderMap.keys.length := by
  have hmem : h ∈ l.holderMap.keys := hh
  rw [AList.keys_insert, List.length_cons, List.length_erase_of_mem hmem]
  have := List.length_pos_of_mem hmem
  omega

theorem keys_insert_length_new (hh : ¬ l.Holds h) :
    (l.holderMap.insert h s).keys.length = l.holderMap.keys.length + 1 := by
  have hmem : h ∉ l.holderMap.keys := hh
  rw [AList.keys_insert, List.length_cons, List.erase_of_not_mem hmem]

theorem keys_erase_length (hh : l.Holds h) :
    (l.holderMap.erase h).keys.length = l.holderMap.keys.length - 1 := by
  have hmem : h ∈ l.holderMap.keys := hh
  rw [AList.keys_erase, List.length_erase_of_mem hmem]

theorem holds_of_mem_usesOf (hu : u ∈ l.usesOf h) : l.Holds h := by
  by_contra hh
  rw [usesOf_of_not_holds hh] at hu
  exact absurd hu (Finset.notMem_empty u)

theorem keys_ne_nil (hh : l.Holds h) : l.holderMap.keys ≠ [] :=
  List.ne_nil_of_mem hh

/-- The lock after the holder took it with the use. -/
def Lock.hold (l : Lock H R) (holder : H) (lockUse : Use R) : Lock H R :=
  { l with
    lockMode :=
      if holder ∈ l.holderMap ∧ lockUse.lockMode = .nonExclusive then l.lockMode
      else lockUse.lockMode
    holderMap := l.holderMap.insert holder (insert lockUse (l.usesOf holder)) }

theorem usesOf_hold :
    (l.hold h u).usesOf h' = if h' = h then insert u (l.usesOf h) else l.usesOf h' :=
  usesOf_insert

theorem holds_hold : (l.hold h u).Holds h' ↔ h' = h ∨ l.Holds h' := holds_insert

/-- `require_lock_for` of an active lock by a holder that knows the requestor
    and for which the lock is free: it takes the lock, and no `assert` fails. -/
theorem requireLockFor_of_free {known : H → R → Bool} (hactive : l.base.state = .active)
    (hknown : known h u.requestor = true) (hfree : l.isFreeFor u (some h) = true) :
    ∃ fresh, l.requireLockFor known h u = .ok (fresh, l.hold h u) := by
  unfold Lock.requireLockFor
  rw [assertIsActive_of_active hactive, hknown, hfree]
  show ∃ fresh, (match l.holderMap.lookup h with
    | some useSet => _
    | none => _ : Except Failure (Bool × Lock H R)) = _
  by_cases hh : l.Holds h
  · rw [lookup_of_holds hh]
    by_cases hup : l.lockMode = .nonExclusive ∧ u.lockMode = .exclusive
    · -- the upgrade: another holder would have kept the lock from being free
      have hone : l.holderMap.keys.length = 1 := by
        rcases isFreeFor_some_iff.mp hfree with hf | ⟨_, hf | hf⟩
        · unfold Lock.FreeAfresh at hf
          rw [if_pos hup.2] at hf
          exact absurd (isFree_iff.mp hf).2 (keys_ne_nil hh)
        · rw [hup.2] at hf; cases hf
        · exact hf
      refine ⟨true, ?_⟩
      simp only [if_pos hup, hone, ne_eq, not_true_eq_false, if_false]
      unfold Lock.hold
      rw [if_neg (by rw [hup.2]; rintro ⟨_, hn⟩; cases hn), hup.2]
      rfl
    · refine ⟨false, ?_⟩
      simp only [if_neg hup]
      unfold Lock.hold
      have hmode : (if h ∈ l.holderMap ∧ u.lockMode = .nonExclusive then l.lockMode
          else u.lockMode) = l.lockMode := by
        by_cases hu : u.lockMode = .nonExclusive
        · rw [if_pos ⟨hh, hu⟩]
        · rw [if_neg (fun hn => hu hn.2)]
          have hue := lockMode_ne_nonExclusive.mp hu
          rw [hue]
          exact (lockMode_ne_nonExclusive.mp fun hl => hup ⟨hl, hue⟩).symm
      rw [hmode]
      rfl
  · rw [lookup_of_not_holds hh]
    refine ⟨true, ?_⟩
    unfold Lock.hold
    rw [if_neg (fun hn => hh hn.1), usesOf_of_not_holds hh]
    rfl

/-- `require_lock_for` takes the lock when it is active, the requestor known and
    the lock free; else it throws, and never out of an `assert`. -/
theorem requireLockFor_cases (known : H → R → Bool) (h : H) (u : Use R) (l : Lock H R) :
    (l.base.state = .active ∧ known h u.requestor = true
        ∧ l.isFreeFor u (some h) = true
        ∧ ∃ fresh, l.requireLockFor known h u = .ok (fresh, l.hold h u))
      ∨ ∃ e, l.requireLockFor known h u = .error e ∧ ∀ text, e ≠ .assertion text := by
  by_cases hactive : l.base.state = .active
  · by_cases hknown : known h u.requestor = true
    · by_cases hfree : l.isFreeFor u (some h) = true
      · exact Or.inl ⟨hactive, hknown, hfree, requireLockFor_of_free hactive hknown hfree⟩
      · refine Or.inr ⟨.function "Lock::require_lock_for", ?_, fun _ => nofun⟩
        unfold Lock.requireLockFor
        rw [assertIsActive_of_active hactive, hknown, Bool.eq_false_iff.mpr hfree]
        rfl
    · refine Or.inr ⟨.function "Lock::require_lock_for", ?_, fun _ => nofun⟩
      unfold Lock.requireLockFor
      rw [assertIsActive_of_active hactive, Bool.eq_false_iff.mpr hknown]
      rfl
  · refine Or.inr ⟨.xc "SCHEDULER-153" ([l.base.objName, State.name .active]
      ++ l.base.baseFileXc.toList), ?_, fun _ => nofun⟩
    unfold Lock.requireLockFor
    rw [assertIsActive_of_not_active hactive]
    rfl

/-- A successful `require_lock_for` passed its three checks and took the lock. -/
theorem requireLockFor_ok {known : H → R → Bool} {b : Bool} {l' : Lock H R}
    (hok : l.requireLockFor known h u = .ok (b, l')) :
    l.base.state = .active ∧ known h u.requestor = true
      ∧ l.isFreeFor u (some h) = true ∧ l' = l.hold h u := by
  rcases requireLockFor_cases known h u l with ⟨ha, hk, hf, fresh, heq⟩ | ⟨e, heq, _⟩
  · rw [heq] at hok
    cases hok
    exact ⟨ha, hk, hf, rfl⟩
  · rw [heq] at hok
    cases hok

/-! ## The flag and the map -/

/-- How flag and map of a lock belong together. -/
structure Exclusivity (l : Lock H R) : Prop where
  /-- No entry has an empty use set. -/
  useSetNonempty : ∀ h, l.Holds h → (l.usesOf h).Nonempty
  /-- A held lock is in exclusive mode exactly when some recorded use is. -/
  modeExclusiveIff : l.holderMap.keys ≠ [] →
    (l.lockMode = .exclusive ↔ ∃ h, ∃ u ∈ l.usesOf h, u.lockMode = .exclusive)
  /-- A lock held exclusively has one holder. -/
  singleHolder : l.holderMap.keys ≠ [] → l.lockMode = .exclusive →
    l.holderMap.keys.length = 1

/-- With an exclusive use recorded the lock is in exclusive mode. -/
theorem Exclusivity.mode_of_use (hex : Exclusivity l) (hu : u ∈ l.usesOf h)
    (hm : u.lockMode = .exclusive) : l.lockMode = .exclusive :=
  (hex.modeExclusiveIff (keys_ne_nil (holds_of_mem_usesOf hu))).mpr ⟨h, u, hu, hm⟩

/-- Two holders of a lock in exclusive mode are the same. -/
theorem Exclusivity.eq_of_holds (hex : Exclusivity l) (hm : l.lockMode = .exclusive)
    (hh : l.Holds h) (hh' : l.Holds h') : h = h' := by
  have hlen := hex.singleHolder (keys_ne_nil hh) hm
  obtain ⟨x, hx⟩ := List.length_eq_one_iff.mp hlen
  have h1 : h ∈ l.holderMap.keys := hh
  have h2 : h' ∈ l.holderMap.keys := hh'
  rw [hx, List.mem_singleton] at h1 h2
  rw [h1, h2]

/-- The four ways `release_lock_for` ends: nothing to release, the holder's last
    use, a use beside others, the last exclusive use beside non-exclusive
    ones.  Its `assert` never fails. -/
theorem releaseLockFor_cases (hex : Exclusivity l) (h : H) (u : Use R) :
    (u ∉ l.usesOf h ∧ l.releaseLockFor h u = .ok (false, l))
      ∨ (u ∈ l.usesOf h ∧ (l.usesOf h).erase u = ∅
        ∧ l.releaseLockFor h u
          = .ok (true, { l with holderMap := l.holderMap.erase h }))
      ∨ (u ∈ l.usesOf h ∧ (l.usesOf h).erase u ≠ ∅
        ∧ (u.lockMode = .nonExclusive ∨ ∃ v ∈ (l.usesOf h).erase u, v.lockMode = .exclusive)
        ∧ l.releaseLockFor h u
          = .ok (false, { l with
              holderMap := l.holderMap.insert h ((l.usesOf h).erase u) }))
      ∨ (u ∈ l.usesOf h ∧ (l.usesOf h).erase u ≠ ∅ ∧ u.lockMode = .exclusive
        ∧ (∀ v ∈ (l.usesOf h).erase u, v.lockMode = .nonExclusive)
        ∧ l.releaseLockFor h u
          = .ok (true, { l with
              lockMode := .nonExclusive
              holderMap := l.holderMap.insert h ((l.usesOf h).erase u) })) := by
  unfold Lock.releaseLockFor
  by_cases hmem : u ∈ l.usesOf h
  · have hh := holds_of_mem_usesOf hmem
    rw [lookup_of_holds hh]
    simp only [if_pos hmem]
    by_cases hrest : (l.usesOf h).erase u = ∅
    · rw [if_pos hrest]
      exact Or.inr (Or.inl ⟨hmem, hrest, rfl⟩)
    · rw [if_neg hrest]
      by_cases hu : u.lockMode = .exclusive
      · have hmode := hex.mode_of_use hmem hu
        rw [if_pos hu, if_neg (not_not_intro hmode)]
        by_cases hsome : ∃ v ∈ (l.usesOf h).erase u, v.lockMode = .exclusive
        · rw [if_pos hsome]
          exact Or.inr (Or.inr (Or.inl ⟨hmem, hrest, Or.inr hsome, rfl⟩))
        · rw [if_neg hsome]
          refine Or.inr (Or.inr (Or.inr ⟨hmem, hrest, hu, ?_, rfl⟩))
          exact fun v hv => lockMode_ne_exclusive.mp fun hx => hsome ⟨v, hv, hx⟩
      · rw [if_neg hu]
        exact Or.inr (Or.inr (Or.inl
          ⟨hmem, hrest, Or.inl (lockMode_ne_exclusive.mp hu), rfl⟩))
  · refine Or.inl ⟨hmem, ?_⟩
    by_cases hh : l.Holds h
    · rw [lookup_of_holds hh]
      simp only [if_neg hmem]
      rfl
    · rw [lookup_of_not_holds hh]
      rfl

/-- A free lock satisfies `Exclusivity`, whatever its flag says. -/
theorem Exclusivity.of_no_holder (hk : l.holderMap.keys = []) : Exclusivity l where
  useSetNonempty _ hh := absurd hk (keys_ne_nil hh)
  modeExclusiveIff hn := absurd hk hn
  singleHolder hn := absurd hk hn

/-- Flag and map stay together when a holder takes a lock that is free for it. -/
theorem Exclusivity.hold (hex : Exclusivity l) (hfree : l.isFreeFor u (some h) = true) :
    Exclusivity (l.hold h u) where
  useSetNonempty h' hh' := by
    rw [usesOf_hold]
    by_cases heq : h' = h
    · rw [if_pos heq]
      exact Finset.insert_nonempty u _
    · rw [if_neg heq]
      exact hex.useSetNonempty h' ((holds_hold.mp hh').resolve_left heq)
  modeExclusiveIff _ := by
    have hiff : (∃ h', ∃ v ∈ (l.hold h u).usesOf h', v.lockMode = .exclusive)
        ↔ u.lockMode = .exclusive ∨ ∃ h', ∃ v ∈ l.usesOf h', v.lockMode = .exclusive := by
      constructor
      · rintro ⟨h', v, hv, hm⟩
        rw [usesOf_hold] at hv
        by_cases heq : h' = h
        · rw [if_pos heq, Finset.mem_insert] at hv
          rcases hv with rfl | hv
          · exact Or.inl hm
          · exact Or.inr ⟨h, v, hv, hm⟩
        · rw [if_neg heq] at hv
          exact Or.inr ⟨h', v, hv, hm⟩
      · rintro (hm | ⟨h', v, hv, hm⟩)
        · refine ⟨h, u, ?_, hm⟩
          rw [usesOf_hold, if_pos rfl]
          exact Finset.mem_insert_self u _
        · refine ⟨h', v, ?_, hm⟩
          rw [usesOf_hold]
          by_cases heq : h' = h
          · rw [if_pos heq]
            exact Finset.mem_insert_of_mem (heq ▸ hv)
          · rw [if_neg heq]
            exact hv
    rw [hiff]
    show (if h ∈ l.holderMap ∧ u.lockMode = .nonExclusive then l.lockMode
      else u.lockMode) = .exclusive ↔ _
    by_cases hu : u.lockMode = .exclusive
    · rw [if_neg (by rw [hu]; rintro ⟨_, hn⟩; cases hn)]
      exact ⟨Or.inl, fun _ => hu⟩
    · have hun := lockMode_ne_exclusive.mp hu
      by_cases hh : l.Holds h
      · rw [if_pos ⟨hh, hun⟩, hex.modeExclusiveIff (keys_ne_nil hh)]
        exact ⟨Or.inr, fun hor => hor.resolve_left hu⟩
      · -- a fresh non-exclusive hold: nobody may hold the lock exclusively
        rw [if_neg (fun hn => hh hn.1)]
        refine ⟨fun hx => absurd hx hu, ?_⟩
        rintro (hx | ⟨h', v, hv, hm⟩)
        · exact hx
        · have hmode := hex.mode_of_use hv hm
          rcases isFreeFor_some_iff.mp hfree with hf | hf
          · unfold Lock.FreeAfresh at hf
            rw [if_neg hu] at hf
            rcases hf.1 with hn | hn
            · rw [hmode] at hn; cases hn
            · exact absurd (isFree_iff.mp hn).2 (keys_ne_nil (holds_of_mem_usesOf hv))
          · exact absurd hf.1 hh
  singleHolder _ hmode := by
    show (l.holderMap.insert h (insert u (l.usesOf h))).keys.length = 1
    change (if h ∈ l.holderMap ∧ u.lockMode = .nonExclusive then l.lockMode
      else u.lockMode) = .exclusive at hmode
    by_cases hh : l.Holds h
    · rw [keys_insert_length hh]
      by_cases hu : u.lockMode = .nonExclusive
      · rw [if_pos ⟨hh, hu⟩] at hmode
        exact hex.singleHolder (keys_ne_nil hh) hmode
      · rcases isFreeFor_some_iff.mp hfree with hf | ⟨_, hf | hf⟩
        · unfold Lock.FreeAfresh at hf
          rw [if_pos (lockMode_ne_nonExclusive.mp hu)] at hf
          exact absurd (isFree_iff.mp hf).2 (keys_ne_nil hh)
        · exact absurd hf hu
        · exact hf
    · rw [if_neg (fun hn => hh hn.1)] at hmode
      rw [keys_insert_length_new hh]
      rcases isFreeFor_some_iff.mp hfree with hf | hf
      · unfold Lock.FreeAfresh at hf
        rw [if_pos hmode] at hf
        rw [(isFree_iff.mp hf).2]
        rfl
      · exact absurd hf.1 hh

/-- Flag and map stay together when a holder drops out with its last use. -/
theorem Exclusivity.erase (hex : Exclusivity l) (hh : l.Holds h) :
    Exclusivity { l with holderMap := l.holderMap.erase h } where
  useSetNonempty h' hh' := by
    obtain ⟨hne, hold⟩ := holds_erase.mp hh'
    rw [usesOf_erase, if_neg hne]
    exact hex.useSetNonempty h' hold
  modeExclusiveIff hn := by
    obtain ⟨h', hmem⟩ := List.exists_mem_of_ne_nil _ hn
    obtain ⟨hne, hh'⟩ := holds_erase.mp hmem
    -- somebody else holds the lock too, so it is not in exclusive mode
    have hmode : l.lockMode ≠ .exclusive := fun hx => hne (hex.eq_of_holds hx hh' hh)
    refine ⟨fun hx => absurd hx hmode, ?_⟩
    rintro ⟨x, v, hv, hm⟩
    rw [usesOf_erase] at hv
    by_cases hx : x = h
    · rw [if_pos hx] at hv
      exact absurd hv (Finset.notMem_empty v)
    · rw [if_neg hx] at hv
      exact absurd (hex.mode_of_use hv hm) hmode
  singleHolder hn hmode := by
    obtain ⟨h', hmem⟩ := List.exists_mem_of_ne_nil _ hn
    obtain ⟨hne, hh'⟩ := holds_erase.mp hmem
    exact absurd (hex.eq_of_holds hmode hh' hh) hne

/-- Flag and map stay together when a holder gives one of several uses back and
    the mode of the lock does not change by that. -/
theorem Exclusivity.shrink (hex : Exclusivity l) (hu : u ∈ l.usesOf h)
    (hrest : (l.usesOf h).erase u ≠ ∅)
    (hkeep : u.lockMode = .nonExclusive
      ∨ ∃ v ∈ (l.usesOf h).erase u, v.lockMode = .exclusive) :
    Exclusivity { l with holderMap := l.holderMap.insert h ((l.usesOf h).erase u) } where
  useSetNonempty h' hh' := by
    rw [usesOf_insert]
    by_cases heq : h' = h
    · rw [if_pos heq]
      exact Finset.nonempty_iff_ne_empty.mpr hrest
    · rw [if_neg heq]
      exact hex.useSetNonempty h' ((holds_insert.mp hh').resolve_left heq)
  modeExclusiveIff _ := by
    have hh := holds_of_mem_usesOf hu
    constructor
    · intro hmode
      obtain ⟨h', v, hv, hm⟩ := (hex.modeExclusiveIff (keys_ne_nil hh)).mp hmode
      rcases hkeep with hn | ⟨w, hw, hwm⟩
      · refine ⟨h', v, ?_, hm⟩
        rw [usesOf_insert]
        by_cases heq : h' = h
        · rw [if_pos heq]
          refine Finset.mem_erase_of_ne_of_mem ?_ (heq ▸ hv)
          rintro rfl
          rw [hn] at hm; cases hm
        · rw [if_neg heq]
          exact hv
      · refine ⟨h, w, ?_, hwm⟩
        rw [usesOf_insert, if_pos rfl]
        exact hw
    · rintro ⟨h', v, hv, hm⟩
      rw [usesOf_insert] at hv
      by_cases heq : h' = h
      · rw [if_pos heq] at hv
        exact hex.mode_of_use (Finset.mem_of_mem_erase hv) hm
      · rw [if_neg heq] at hv
        exact hex.mode_of_use hv hm
  singleHolder _ hmode := by
    have hh := holds_of_mem_usesOf hu
    show (l.holderMap.insert h ((l.usesOf h).erase u)).keys.length = 1
    rw [keys_insert_length hh]
    exact hex.singleHolder (keys_ne_nil hh) hmode

/-- Flag and map stay together when the last exclusive use goes: the flag falls
    back with it. -/
theorem Exclusivity.downgrade (hex : Exclusivity l) (hu : u ∈ l.usesOf h)
    (hrest : (l.usesOf h).erase u ≠ ∅) (hm : u.lockMode = .exclusive)
    (hnone : ∀ v ∈ (l.usesOf h).erase u, v.lockMode = .nonExclusive) :
    Exclusivity { l with
      lockMode := .nonExclusive
      holderMap := l.holderMap.insert h ((l.usesOf h).erase u) } where
  useSetNonempty h' hh' := by
    rw [usesOf_insert]
    by_cases heq : h' = h
    · rw [if_pos heq]
      exact Finset.nonempty_iff_ne_empty.mpr hrest
    · rw [if_neg heq]
      exact hex.useSetNonempty h' ((holds_insert.mp hh').resolve_left heq)
  modeExclusiveIff _ := by
    refine ⟨nofun, ?_⟩
    rintro ⟨h', v, hv, hvm⟩
    rw [usesOf_insert] at hv
    by_cases heq : h' = h
    · rw [if_pos heq] at hv
      rw [hnone v hv] at hvm; cases hvm
    · rw [if_neg heq] at hv
      have hmode := hex.mode_of_use hu hm
      exact absurd (hex.eq_of_holds hmode (holds_of_mem_usesOf hv)
        (holds_of_mem_usesOf hu)) heq
  singleHolder _ hmode := by cases hmode

/-- Flag and map stay together over a successful `release_lock_for`. -/
theorem Exclusivity.release {b : Bool} {l' : Lock H R} (hex : Exclusivity l)
    (hok : l.releaseLockFor h u = .ok (b, l')) : Exclusivity l' := by
  rcases releaseLockFor_cases hex h u with ⟨_, heq⟩ | ⟨hu, _, heq⟩
    | ⟨hu, hrest, hkeep, heq⟩ | ⟨hu, hrest, hm, hnone, heq⟩
  all_goals
    rw [heq] at hok
    cases hok
  · exact hex
  · exact hex.erase (holds_of_mem_usesOf hu)
  · exact hex.shrink hu hrest hkeep
  · exact hex.downgrade hu hrest hm hnone

/-- `release_lock_for` always returns: its `assert` never fails. -/
theorem releaseLockFor_returns (hex : Exclusivity l) (h : H) (u : Use R) :
    ∃ b l', l.releaseLockFor h u = .ok (b, l') := by
  rcases releaseLockFor_cases hex h u with ⟨_, heq⟩ | ⟨_, _, heq⟩ | ⟨_, _, _, heq⟩
    | ⟨_, _, _, _, heq⟩
  all_goals exact ⟨_, _, heq⟩

/-- A lock depends on its flag and map only. -/
theorem Exclusivity.congr {l' : Lock H R} (hex : Exclusivity l)
    (hmode : l'.lockMode = l.lockMode) (hmap : l'.holderMap = l.holderMap) :
    Exclusivity l' := by
  have huses : ∀ h, l'.usesOf h = l.usesOf h := fun h => by
    unfold Lock.usesOf
    rw [hmap]
  refine ⟨fun h hh => ?_, fun hn => ?_, fun hn hm => ?_⟩
  · rw [huses]
    exact hex.useSetNonempty h (by unfold Lock.Holds at hh ⊢; rw [← hmap]; exact hh)
  · rw [hmode, hex.modeExclusiveIff (hmap ▸ hn)]
    simp only [huses]
  · rw [hmap]
    exact hex.singleHolder (hmap ▸ hn) (hmode ▸ hm)

/-! ## Runs of one lock -/

/-- The calls that reach a lock. -/
inductive LockOp (H R : Type) where
  | requireLockFor (isKnownRequestor : H → R → Bool) (holder : H) (lockUse : Use R)
  | releaseLockFor (holder : H) (lockUse : Use R)
  | enqueueLockUse (lockUse : Use R)
  | dequeueLockUse (lockUse : Use R)
  | setMaxNonExclusive (maxNonExclusive : Int)
  | initializeBase (subsystem : SubsystemState)
  | loadBase (subsystem : SubsystemState)
  | activateBase (subsystem : SubsystemState)
  | setBaseFileXc (xc : Option String)
  | setToBeRemoved (b : Bool)

/-- The lock after a call; a call that throws leaves it as it was.
    `on_initialize`, `on_load` and `on_activate` of a lock return true. -/
def LockOp.apply (l : Lock H R) : LockOp H R → Lock H R
  | .requireLockFor known holder lockUse =>
      match l.requireLockFor known holder lockUse with
      | .ok (_, l') => l'
      | .error _ => l
  | .releaseLockFor holder lockUse =>
      match l.releaseLockFor holder lockUse with
      | .ok (_, l') => l'
      | .error _ => l
  | .enqueueLockUse lockUse => (l.enqueueLockUse lockUse).2
  | .dequeueLockUse lockUse => l.dequeueLockUse lockUse
  | .setMaxNonExclusive maxNonExclusive => (l.setMaxNonExclusive maxNonExclusive).2
  | .initializeBase subsystem => { l with base := l.base.initializeBase subsystem true }
  | .loadBase subsystem => { l with base := l.base.loadBase subsystem true true }
  | .activateBase subsystem => { l with base := l.base.activateBase subsystem true true true }
  | .setBaseFileXc xc => { l with base := { l.base with baseFileXc := xc } }
  | .setToBeRemoved b => { l with base := { l.base with isToBeRemoved := b } }

/-- A lock as its constructor leaves it. -/
def IsNew (l : Lock H R) : Prop := ∃ objName, l = Lock.new objName

/-- One call. -/
def Step (l : Lock H R) (op : LockOp H R) (l' : Lock H R) : Prop := l' = op.apply l

/-- Every call keeps flag and map together. -/
theorem Exclusivity.step {op : LockOp H R} {l' : Lock H R} (hex : Exclusivity l)
    (hs : Step l op l') : Exclusivity l' := by
  unfold Step at hs
  subst hs
  cases op with
  | requireLockFor known h u =>
      show Exclusivity (match l.requireLockFor known h u with
        | .ok (_, l') => l'
        | .error _ => l)
      rcases requireLockFor_cases known h u l with ⟨_, _, hf, _, heq⟩ | ⟨_, heq, _⟩
      · rw [heq]
        exact hex.hold hf
      · rw [heq]
        exact hex
  | releaseLockFor h u =>
      obtain ⟨b, l', heq⟩ := releaseLockFor_returns hex h u
      show Exclusivity (match l.releaseLockFor h u with
        | .ok (_, l') => l'
        | .error _ => l)
      rw [heq]
      exact hex.release heq
  | setMaxNonExclusive n =>
      show Exclusivity (l.setMaxNonExclusive n).2
      unfold Lock.setMaxNonExclusive
      by_cases hn : l.maxNonExclusive ≠ n
      · rw [if_pos hn]
        exact hex.congr rfl rfl
      · rw [if_neg hn]
        exact hex
  | enqueueLockUse _ => exact hex.congr rfl rfl
  | dequeueLockUse _ => exact hex.congr rfl rfl
  | initializeBase _ => exact hex.congr rfl rfl
  | loadBase _ => exact hex.congr rfl rfl
  | activateBase _ => exact hex.congr rfl rfl
  | setBaseFileXc _ => exact hex.congr rfl rfl
  | setToBeRemoved _ => exact hex.congr rfl rfl

/-- Flag and map belong together in every reached state. -/
theorem exclusivity_of_reach (hr : Reach IsNew Step l) : Exclusivity l := by
  refine hr.invariant ?_ fun _ _ _ => Exclusivity.step
  rintro _ ⟨objName, rfl⟩
  exact Exclusivity.of_no_holder rfl

/-- A lock that is not active was never held: it is free, with the mode its
    constructor gave it. -/
def Untouched (l : Lock H R) : Prop :=
  l.base.state ≠ .active → l.holderMap.keys = [] ∧ l.lockMode = .exclusive

/-- Every call keeps a lock that is not active untouched. -/
theorem Untouched.step {op : LockOp H R} {l' : Lock H R} (hex : Exclusivity l)
    (hun : Untouched l) (hs : Step l op l') : Untouched l' := by
  unfold Step at hs
  subst hs
  cases op with
  | requireLockFor known h u =>
      show Untouched (match l.requireLockFor known h u with
        | .ok (_, l') => l'
        | .error _ => l)
      rcases requireLockFor_cases known h u l with ⟨ha, _, _, _, heq⟩ | ⟨_, heq, _⟩
      · rw [heq]
        exact fun hn => absurd ha hn
      · rw [heq]
        exact hun
  | releaseLockFor h u =>
      show Untouched (match l.releaseLockFor h u with
        | .ok (_, l') => l'
        | .error _ => l)
      rcases releaseLockFor_cases hex h u with ⟨_, heq⟩ | ⟨hu, _, heq⟩
        | ⟨hu, _, _, heq⟩ | ⟨hu, _, _, _, heq⟩
      all_goals rw [heq]
      · exact hun
      all_goals
        exact fun hn => absurd (hun hn).1 (keys_ne_nil (holds_of_mem_usesOf hu))
  | setMaxNonExclusive n =>
      show Untouched (l.setMaxNonExclusive n).2
      unfold Lock.setMaxNonExclusive
      by_cases hn : l.maxNonExclusive ≠ n
      · rw [if_pos hn]
        exact hun
      · rw [if_neg hn]
        exact hun
  | enqueueLockUse _ => exact hun
  | dequeueLockUse _ => exact hun
  | initializeBase subsystem =>
      by_cases ha : l.base.state = .active
      · exact fun hn => absurd ((congrArg Base.state (initialize_of_active ha)).trans ha) hn
      · exact fun _ => hun ha
  | loadBase subsystem =>
      by_cases ha : l.base.state = .active
      · exact fun hn => absurd ((congrArg Base.state (load_of_active ha)).trans ha) hn
      · exact fun _ => hun ha
  | activateBase subsystem =>
      by_cases ha : l.base.state = .active
      · exact fun hn => absurd ((congrArg Base.state (activate_of_active ha)).trans ha) hn
      · exact fun _ => hun ha
  | setBaseFileXc _ => exact hun
  | setToBeRemoved _ => exact hun

theorem untouched_of_reach (hr : Reach IsNew Step l) : Untouched l := by
  have hboth : Exclusivity l ∧ Untouched l := by
    refine Reach.invariant (I := fun l => Exclusivity l ∧ Untouched l) ?_ ?_ hr
    · rintro _ ⟨objName, rfl⟩
      exact ⟨Exclusivity.of_no_holder rfl, fun _ => ⟨rfl, rfl⟩⟩
    · exact fun _ _ _ hi hs => ⟨hi.1.step hs, Untouched.step hi.1 hi.2 hs⟩
  exact hboth.2

/-- **LOCK EXCLUSIVITY**: in every state that calls of the methods lead to, no
    entry of the map is empty; a held lock is in exclusive mode exactly when
    some recorded use is exclusive, and then it has exactly one holder; two
    different holders never hold it while one of them holds it exclusively; and
    the next `require_lock_for` or `release_lock_for` fails in no `assert`. -/
theorem lock_exclusive_over_runs (l : Lock H R) (hr : Reach IsNew Step l) :
    (∀ h s, l.holderMap.lookup h = some s → s ≠ ∅)
      ∧ (l.holderMap.keys ≠ [] →
        (l.lockMode = .exclusive
          ↔ ∃ h s u, l.holderMap.lookup h = some s ∧ u ∈ s ∧ u.lockMode = .exclusive)
        ∧ (l.lockMode = .exclusive → ∃ h, l.holderMap.keys = [h]))
      ∧ (∀ h h' u, u ∈ l.usesOf h → u.lockMode = .exclusive → l.Holds h' → h' = h)
      ∧ (∀ known h u text,
        l.requireLockFor known h u ≠ .error (.assertion text)
          ∧ l.releaseLockFor h u ≠ .error (.assertion text)) := by
  have hex := exclusivity_of_reach hr
  refine ⟨?_, fun hn => ⟨?_, ?_⟩, ?_, ?_⟩
  · intro h s hs
    have hh : l.Holds h := AList.lookup_isSome.mp (by rw [hs]; rfl)
    rw [lookup_of_holds hh] at hs
    cases hs
    exact Finset.nonempty_iff_ne_empty.mp (hex.useSetNonempty h hh)
  · rw [hex.modeExclusiveIff hn]
    constructor
    · rintro ⟨h, u, hu, hm⟩
      exact ⟨h, _, u, lookup_of_holds (holds_of_mem_usesOf hu), hu, hm⟩
    · rintro ⟨h, s, u, hs, hu, hm⟩
      refine ⟨h, u, ?_, hm⟩
      unfold Lock.usesOf
      rw [hs]
      exact hu
  · intro hm
    exact List.length_eq_one_iff.mp (hex.singleHolder hn hm)
  · intro h h' u hu hm hh'
    exact hex.eq_of_holds (hex.mode_of_use hu hm) hh' (holds_of_mem_usesOf hu)
  · intro known h u text
    constructor
    · rcases requireLockFor_cases known h u l with ⟨_, _, _, _, heq⟩ | ⟨e, heq, hne⟩
      · rw [heq]; nofun
      · rw [heq]
        rintro ⟨⟩
        exact hne text rfl
    · obtain ⟨b, l', heq⟩ := releaseLockFor_returns hex h u
      rw [heq]; nofun

/-- The lock after a list of calls. -/
def Lock.run (l : Lock H R) (ops : List (LockOp H R)) : Lock H R :=
  ops.foldl (fun l op => op.apply l) l

theorem reach_run (hr : Reach IsNew Step l) (ops : List (LockOp H R)) :
    Reach IsNew Step (l.run ops) := by
  have hstep : ∀ (l : Lock H R) op, Step l op (op.apply l) := fun _ _ => rfl
  exact Reach.foldl hstep hr ops

/-- A lock whose only holder holds it exclusively and non-exclusively. -/
def heldTwice : Lock Nat Nat :=
  (Lock.new "Lock a").run [
    .activateBase .active,
    .requireLockFor (fun _ _ => true) 1 ⟨7, "a", .exclusive⟩,
    .requireLockFor (fun _ _ => true) 1 ⟨7, "a", .nonExclusive⟩]

theorem heldTwice_exclusive :
    heldTwice.lockMode = .exclusive
      ∧ heldTwice.usesOf 1 = {⟨7, "a", .nonExclusive⟩, ⟨7, "a", .exclusive⟩}
      ∧ ∃ h, heldTwice.holderMap.keys = [h] :=
  ⟨by decide, by decide,
    ((lock_exclusive_over_runs heldTwice (reach_run (Reach.start ⟨_, rfl⟩) _)).2.1
      (by decide)).2 (by decide)⟩

/-- The flag of a lock that nobody holds is no sign of a holder: a new lock is in
    exclusive mode. -/
theorem new_lock_exclusive_without_holder :
    ¬ ∀ l : Lock Nat Nat, Reach IsNew Step l →
      l.lockMode = .exclusive → ∃ h, l.holderMap.keys = [h] := by
  intro hall
  obtain ⟨h, hh⟩ := hall (Lock.new "Lock a") (Reach.start ⟨_, rfl⟩) rfl
  cases hh

end LockState
