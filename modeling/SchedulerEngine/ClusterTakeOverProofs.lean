import SchedulerEngine.ClusterStepProofs

/-! # Taking the exclusiveness from a dead member

    A member becomes exclusive with the record that it knows as exclusive.  If
    that is another member's record, it has judged that member dead before; but
    `mark_as_exclusive` reads the table once more if no exclusive record is
    known, and does not judge the member that it finds then. -/

namespace ClusterTakeOver

open ClusterTable ClusterHeartBeat ClusterStep RunInvariant

variable {s s' : System} {t : Table} {c c' : Cluster} {m : Nat} {id : MemberId} {row : Row}
  {k k' : ClusterMember}

/-! ## Views -/

/-- The fields of a `Cluster_member` that judge it. -/
structure SameView (k k' : ClusterMember) : Prop where
  isDead : k'.isDead = k.isDead
  detected : k'.lastHeartBeatDetected = k.lastHeartBeatDetected
  last : k'.dbLastHeartBeat = k.dbLastHeartBeat
  readings : k'.readings = k.readings

theorem SameView.unchanged (h : SameView k k') {recent : List Reading}
    (hun : Unchanged k recent) : Unchanged k' recent := by
  rw [Unchanged, h.last, h.readings]
  exact hun

theorem SameView.faithful {cfg : Configuration} (h : SameView k k') (hf : Faithful cfg k) :
    Faithful cfg k' where
  dead := by
    intro hdead
    rw [h.isDead] at hdead
    obtain ⟨recent, hun, hwhy⟩ := hf.dead hdead
    exact ⟨recent, h.unchanged hun, hwhy⟩
  detected := by
    intro hne
    rw [h.detected] at hne ⊢
    obtain ⟨recent, first, hun, hfirst⟩ := hf.detected hne
    exact ⟨recent, first, h.unchanged hun, hfirst⟩

/-- All views that a member keeps of the others are faithful. -/
def AllFaithful (c : Cluster) : Prop :=
  ∀ id k, id ≠ .empty → c.schedulerMap id = some k → Faithful c.config k

/-- Views that have been changed in fields that do not matter, or forgotten. -/
theorem AllFaithful.of_views (h : AllFaithful c) (hconfig : c'.config = c.config)
    (hviews : ∀ id k', c'.schedulerMap id = some k' → ∃ k, c.schedulerMap id = some k ∧
      SameView k k') : AllFaithful c' := by
  intro id k' hid hk'
  obtain ⟨k, hk, hsame⟩ := hviews id k' hk'
  rw [hconfig]
  exact hsame.faithful (h id k hid hk)

theorem AllFaithful.of_eq (h : AllFaithful c) (hconfig : c'.config = c.config)
    (hmap : c'.schedulerMap = c.schedulerMap) : AllFaithful c' := by
  refine h.of_views hconfig ?_
  intro id k hk
  rw [hmap] at hk
  exact ⟨k, hk, rfl, rfl, rfl, rfl⟩

/-- Reading one record. -/
theorem AllFaithful.setMember (h : AllFaithful c) (id : MemberId)
    (reopenTime nowBeforeSelect now : Nat) (row : Row) :
    AllFaithful (c.setMember id (checkHeartBeat c.config (decide (id = .empty)) reopenTime
      nowBeforeSelect now row ((c.schedulerMap id).getD newMember)).2) := by
  intro id' k hid' hk
  by_cases heq : id' = id
  · subst heq
    rw [Cluster.setMember_schedulerMap, Function.update_self] at hk
    cases hk
    rw [decide_eq_false hid']
    refine Faithful.checkHeartBeat ?_ _ _ _ _
    cases hold : c.schedulerMap id' with
    | none => exact faithful_newMember
    | some k => exact h id' k hid' hold
  · rw [Cluster.setMember_schedulerMap, Function.update_of_ne heq] at hk
    exact h id' k hid' hk

theorem AllFaithful.readRows (h : AllFaithful c) (t : Table) (nowBeforeSelect reopenTime : Nat)
    (reads : List (MemberId × Nat)) :
    AllFaithful (readRows t nowBeforeSelect reopenTime reads c).2.2 := by
  induction reads generalizing c with
  | nil => exact h
  | cons r reads ih =>
      obtain ⟨id, now⟩ := r
      rw [ClusterStep.readRows]
      cases hrow : t.lookup id with
      | none => exact ih h
      | some row =>
          have hset := h.setMember id reopenTime nowBeforeSelect now row
          simp only
          split
          · split
            · exact hset.of_eq rfl rfl
            · exact ih (hset.of_eq rfl rfl)
          · exact ih hset

/-- Reading the table keeps the views faithful, however far it comes. -/
theorem AllFaithful.checkSchedulers (h : AllFaithful c) (t : Table) (q : Select) :
    AllFaithful (checkSchedulersHeartBeat t q c).2 := by
  have hread := (h.of_eq rfl rfl : AllFaithful { c with exclusiveScheduler := none }).readRows t
    q.nowBeforeSelect q.reopenTime q.reads
  rw [checkSchedulersHeartBeat]
  simp only
  split
  · refine hread.of_views rfl ?_
    intro id k hk
    simp only at hk
    split at hk
    · exact ⟨k, hk, rfl, rfl, rfl, rfl⟩
    · cases hk
  · exact hread

/-! ## The second check of `mark_as_exclusive` -/

/-- A member judges the owner of a record dead, at the heart beat that the
    record shows. -/
def isKnownDead (c : Cluster) (id : MemberId) (row : Row) : Bool :=
  (c.schedulerMap id).any fun k =>
    k.isDead && decide (k.dbLastHeartBeat = row.lastHeartBeat.getD 0)

/-- The other members' exclusive records in a table are those of members that
    are known as dead, or marked dead. -/
def OnlyDead (m : Nat) (c : Cluster) (t : Table) : Prop :=
  ∀ e ∈ t.entries, e.2.exclusive = true →
    e.1 = .empty ∨ e.1 = .member m ∨ e.2.dead = true ∨ isKnownDead c e.1 e.2 = true

instance (m : Nat) (c : Cluster) (t : Table) : Decidable (OnlyDead m c t) :=
  inferInstanceAs (Decidable (∀ e ∈ t.entries, _))

theorem OnlyDead.of_lookup (h : OnlyDead m c t) (hrow : t.lookup id = some row)
    (hex : row.exclusive = true) (hempty : id ≠ .empty) (hme : id ≠ .member m) :
    row.dead = true ∨ isKnownDead c id row = true := by
  have hmem : (⟨id, row⟩ : Sigma fun _ : MemberId => Row) ∈ t.entries :=
    AList.mem_lookup_iff.mp (Option.mem_def.mpr hrow)
  obtain heq | heq | hwhy := h ⟨id, row⟩ hmem hex
  · exact absurd heq hempty
  · exact absurd heq hme
  · exact hwhy

theorem knownDead_iff : isKnownDead c id row = true ↔
    ∃ k, c.schedulerMap id = some k ∧ k.isDead = true ∧
      k.dbLastHeartBeat = row.lastHeartBeat.getD 0 := by
  simp only [isKnownDead, Option.any_eq_true, Bool.and_eq_true, decide_eq_true_eq]

/-- A record that is marked dead, or shows the heart beat with which its owner
    was judged dead. -/
theorem checkHeartBeat_isDead {cfg : Configuration} {isEmptyMember : Bool}
    {reopenTime nowBeforeSelect now : Nat}
    (h : row.dead = true ∨ k.isDead = true ∧ k.dbLastHeartBeat = row.lastHeartBeat.getD 0) :
    (checkHeartBeat cfg isEmptyMember reopenTime nowBeforeSelect now row k).2.isDead = true := by
  obtain hdead | ⟨hdead, hlast⟩ := h
  · simp [checkHeartBeat, hdead]
  · simp [checkHeartBeat, hdead, hlast]

/-- What is known as dead stays so while the same table is read. -/
theorem knownDead_setMember (h : isKnownDead c id row = true) (hrow : t.lookup id = some row)
    {id' : MemberId} {row' : Row} (hrow' : t.lookup id' = some row')
    (reopenTime nowBeforeSelect now : Nat) :
    isKnownDead (c.setMember id' (checkHeartBeat c.config (decide (id' = .empty)) reopenTime
      nowBeforeSelect now row' ((c.schedulerMap id').getD newMember)).2) id row = true := by
  obtain ⟨k, hk, hdead, hlast⟩ := knownDead_iff.mp h
  rw [knownDead_iff, Cluster.setMember_schedulerMap]
  by_cases heq : id = id'
  · subst heq
    rw [hrow] at hrow'
    cases hrow'
    rw [Function.update_self, hk, Option.getD_some]
    exact ⟨_, rfl, checkHeartBeat_isDead (Or.inr ⟨hdead, hlast⟩), rfl⟩
  · rw [Function.update_of_ne heq]
    exact ⟨k, hk, hdead, hlast⟩

/-- Reading a record that is marked dead, or known as dead. -/
theorem knownDead_of_read
    (hwhy : row.dead = true ∨ isKnownDead c id row = true) (reopenTime nowBeforeSelect now : Nat) :
    isKnownDead (c.setMember id (checkHeartBeat c.config (decide (id = .empty)) reopenTime
      nowBeforeSelect now row ((c.schedulerMap id).getD newMember)).2) id row = true := by
  rw [knownDead_iff, Cluster.setMember_schedulerMap, Function.update_self]
  refine ⟨_, rfl, checkHeartBeat_isDead ?_, rfl⟩
  obtain hdead | hknown := hwhy
  · exact Or.inl hdead
  · obtain ⟨k, hk, hdead, hlast⟩ := knownDead_iff.mp hknown
    rw [hk, Option.getD_some]
    exact Or.inr ⟨hdead, hlast⟩

/-- The exclusive member of a member's memory is itself, nobody, or known as dead. -/
def ExclusiveDead (m : Nat) (c : Cluster) (t : Table) : Prop :=
  ∀ id, c.exclusiveScheduler = some id → id ≠ .empty → id ≠ .member m →
    ∃ row, t.lookup id = some row ∧ isKnownDead c id row = true

theorem readRows_exclusiveDead (hall : OnlyDead m c t) (hex : ExclusiveDead m c t)
    (nowBeforeSelect reopenTime : Nat) (reads : List (MemberId × Nat)) :
    ExclusiveDead m (readRows t nowBeforeSelect reopenTime reads c).2.2 t := by
  induction reads generalizing c with
  | nil => exact hex
  | cons r reads ih =>
      obtain ⟨id, now⟩ := r
      rw [readRows]
      cases hrow : t.lookup id with
      | none => exact ih hall hex
      | some row =>
          -- after this record, the same is known as before
          have hset : OnlyDead m (c.setMember id (checkHeartBeat c.config (decide (id = .empty))
              reopenTime nowBeforeSelect now row ((c.schedulerMap id).getD newMember)).2) t := by
            intro e he hexe
            have hlook : t.lookup e.1 = some e.2 :=
              Option.mem_def.mp (AList.mem_lookup_iff.mpr he)
            obtain h | h | h | h := hall e he hexe
            · exact Or.inl h
            · exact Or.inr (Or.inl h)
            · exact Or.inr (Or.inr (Or.inl h))
            · exact Or.inr (Or.inr (Or.inr (knownDead_setMember h hlook hrow _ _ _)))
          have hkeep : ∀ id', c.exclusiveScheduler = some id' → id' ≠ .empty → id' ≠ .member m →
              ∃ row', t.lookup id' = some row' ∧ isKnownDead (c.setMember id (checkHeartBeat c.config
                (decide (id = .empty)) reopenTime nowBeforeSelect now row
                ((c.schedulerMap id).getD newMember)).2) id' row' = true := by
            intro id' hid' hempty hme
            obtain ⟨row', hrow', hknown⟩ := hex id' hid' hempty hme
            exact ⟨row', hrow', knownDead_setMember hknown hrow' hrow _ _ _⟩
          simp only
          split
          · rename_i hexr
            split
            · exact hkeep
            · refine ih hset ?_
              intro id' hid' hempty hme
              cases hid'
              exact ⟨row, hrow, knownDead_of_read (hall.of_lookup hrow hexr hempty hme) _ _ _⟩
          · exact ih hset hkeep

theorem readRows_mem_reads {nowBeforeSelect reopenTime : Nat} {reads : List (MemberId × Nat)}
    (h : (readRows t nowBeforeSelect reopenTime reads c).2.2.exclusiveScheduler = some id) :
    c.exclusiveScheduler = some id ∨ id ∈ reads.map Prod.fst := by
  induction reads generalizing c with
  | nil => exact Or.inl h
  | cons r reads ih =>
      obtain ⟨id', now⟩ := r
      rw [readRows] at h
      rw [List.map_cons, List.mem_cons]
      cases hrow : t.lookup id' with
      | none =>
          rw [hrow] at h
          exact (ih h).imp_right Or.inr
      | some row =>
          rw [hrow] at h
          simp only at h
          split at h
          · split at h
            · exact Or.inl h
            · obtain heq | hmem := ih h
              · cases heq
                exact Or.inr (Or.inl rfl)
              · exact Or.inr (Or.inr hmem)
          · exact (ih h).imp_right Or.inr

/-- The check finds no other exclusive members than dead ones. -/
theorem checkSchedulers_exclusiveDead (hall : OnlyDead m c t) (q : Select) :
    ExclusiveDead m (checkSchedulersHeartBeat t q c).2 t := by
  have hread := readRows_exclusiveDead (c := { c with exclusiveScheduler := none }) hall nofun
    q.nowBeforeSelect q.reopenTime q.reads
  rw [checkSchedulersHeartBeat]
  simp only
  split
  · intro id hid hempty hme
    obtain ⟨row, hrow, hknown⟩ := hread id hid hempty hme
    refine ⟨row, hrow, ?_⟩
    obtain hnone | hmem := readRows_mem_reads hid
    · cases hnone
    · rw [knownDead_iff] at hknown ⊢
      simp only [if_pos hmem]
      exact hknown
  · exact hread

/-! ## What a member knows -/

/-- The record that a member is about to take the exclusiveness from: the empty
    one, its own, or that of a member it has judged dead. -/
def Decided (m : Nat) (c : Cluster) : Prop :=
  ∀ id, c.exclusiveScheduler = some id → id ≠ .empty → id ≠ .member m →
    ∃ k, c.schedulerMap id = some k ∧ k.isDead = true

/-- The phases in which it has been decided whom to take it from. -/
def isDeciding : Phase → Bool
  | .precedence | .taking _ => true
  | _ => false

/-- The invariant of a member's memory. -/
structure Knows (m : Nat) (c : Cluster) : Prop where
  faithful : AllFaithful c
  decided : isDeciding c.phase = true → Decided m c

/-- The invariant of the system. -/
def Inv (s : System) : Prop := ∀ m c, s.clusters m = some c → Knows m c

/-- A step changes the memory of one member. -/
theorem Inv.step_of (h : Inv s) {o : Option Cluster}
    (hclusters : s'.clusters = Function.update s.clusters m o)
    (hown : ∀ c', o = some c' → Knows m c') : Inv s' := by
  intro n c hc
  rw [hclusters] at hc
  by_cases hn : n = m
  · subst hn
    rw [Function.update_self] at hc
    exact hown c hc
  · rw [Function.update_of_ne hn] at hc
    exact h n c hc

theorem Inv.step_some (h : Inv s) (hclusters : s'.clusters = Function.update s.clusters m (some c'))
    (hown : Knows m c') : Inv s' := by
  refine h.step_of hclusters ?_
  intro c hc
  cases hc
  exact hown

theorem Inv.step_none (h : Inv s) (hclusters : s'.clusters = Function.update s.clusters m none) :
    Inv s' := by
  refine h.step_of hclusters ?_
  intro c hc
  cases hc

/-- The views are kept, and nothing is being decided. -/
theorem Knows.idle (h : Knows m c) (hconfig : c'.config = c.config)
    (hmap : c'.schedulerMap = c.schedulerMap) (hphase : isDeciding c'.phase = false) :
    Knows m c' where
  faithful := h.faithful.of_eq hconfig hmap
  decided := by
    intro hdec
    rw [hphase] at hdec
    cases hdec

/-- The views, the exclusive member and the phase are kept. -/
theorem Knows.same (h : Knows m c) (hconfig : c'.config = c.config)
    (hmap : c'.schedulerMap = c.schedulerMap) (hex : c'.exclusiveScheduler = c.exclusiveScheduler)
    (hphase : isDeciding c'.phase = isDeciding c.phase) : Knows m c' where
  faithful := h.faithful.of_eq hconfig hmap
  decided := by
    intro hdec id hid
    rw [hex] at hid
    rw [hmap]
    exact h.decided (hphase ▸ hdec) id hid

/-- After reading the table. -/
theorem knows_of_faithful (h : AllFaithful c) (hphase : isDeciding c.phase = false) : Knows m c where
  faithful := h
  decided := by
    intro hdec
    rw [hphase] at hdec
    cases hdec

/-! ## Steps -/

theorem afterOwnDeleted_idle (c : Cluster) : isDeciding c.afterOwnDeleted.phase = false := by
  rw [Cluster.afterOwnDeleted]
  split <;> rfl

theorem afterOwnDeleted_faithful (h : AllFaithful c) : AllFaithful c.afterOwnDeleted :=
  h.of_eq rfl rfl

theorem afterFirstCheck_idle (m : Nat) (c : Cluster) :
    isDeciding (c.afterFirstCheck m).phase = false := by
  rw [Cluster.afterFirstCheck]
  split
  · rfl
  · exact afterOwnDeleted_idle c

theorem afterFirstCheck_faithful (m : Nat) (h : AllFaithful c) :
    AllFaithful (c.afterFirstCheck m) := by
  rw [Cluster.afterFirstCheck]
  split
  · exact h.of_eq rfl rfl
  · exact afterOwnDeleted_faithful h

/-- Of the own view only the flags are changed. -/
theorem markedInactive_faithful (m : Nat) (withoutEffect : Bool) (h : AllFaithful c) :
    AllFaithful (c.markedInactive m withoutEffect) := by
  refine h.of_views rfl ?_
  intro id k' hk'
  simp only [Cluster.markedInactive] at hk'
  by_cases heq : id = .member m
  · subst heq
    rw [Function.update_self] at hk'
    obtain ⟨k, hk, rfl⟩ := Option.map_eq_some_iff.mp hk'
    exact ⟨k, hk, rfl, rfl, rfl, rfl⟩
  · rw [Function.update_of_ne heq] at hk'
    exact ⟨k', hk', rfl, rfl, rfl, rfl⟩

theorem becomeExclusive_faithful (m : Nat) (taken : MemberId) (now next : Nat)
    (h : AllFaithful c) : AllFaithful (c.becomeExclusive m taken now next) := by
  have hown : ∀ id k', Function.update c.schedulerMap (.member m)
      ((c.schedulerMap (.member m)).map fun m => { m with isExclusive := true, isActive := true }) id
        = some k' → ∃ k, c.schedulerMap id = some k ∧ SameView k k' := by
    intro id k' hk'
    by_cases heq : id = .member m
    · subst heq
      rw [Function.update_self] at hk'
      obtain ⟨k, hk, rfl⟩ := Option.map_eq_some_iff.mp hk'
      exact ⟨k, hk, rfl, rfl, rfl, rfl⟩
    · rw [Function.update_of_ne heq] at hk'
      exact ⟨k', hk', rfl, rfl, rfl, rfl⟩
  refine h.of_views rfl ?_
  intro id k' hk'
  simp only [Cluster.becomeExclusive] at hk'
  by_cases heq : id = taken
  · subst heq
    rw [Function.update_self] at hk'
    obtain ⟨k₁, hk₁, rfl⟩ := Option.map_eq_some_iff.mp hk'
    obtain ⟨k, hk, h1, h2, h3, h4⟩ := hown id k₁ hk₁
    exact ⟨k, hk, h1, h2, h3, h4⟩
  · rw [Function.update_of_ne heq] at hk'
    exact hown id k' hk'

/-- `try_to_become_exclusive` goes on only without a living exclusive member. -/
theorem tryToBecomeExclusive_knows (h : AllFaithful c) (hphase : c.phase = .operating) (now : Nat) :
    Knows m (c.tryToBecomeExclusive now) := by
  have hidle : isDeciding c.phase = false := by rw [hphase]; rfl
  simp only [Cluster.tryToBecomeExclusive]
  split
  · split
    · exact knows_of_faithful (h.of_eq rfl rfl) hidle
    · rename_i hdead
      split
      · refine ⟨h.of_eq rfl rfl, ?_⟩
        intro _ id hid hempty _
        have hmember : c.exclusiveMember = some id := by
          have hid : c.exclusiveScheduler = some id := hid
          rw [Cluster.exclusiveMember, hid, Option.filter_some, if_pos (decide_eq_true hempty)]
        have hnot : ((c.schedulerMap id).getD newMember).isDead = true := by
          have halive : c.exclusiveIsAlive = false := Bool.eq_false_iff.mpr hdead
          rw [Cluster.exclusiveIsAlive, hmember] at halive
          simpa using halive
        cases hk : c.schedulerMap id with
        | none =>
            rw [hk] at hnot
            cases hnot
        | some k =>
            rw [hk] at hnot
            exact ⟨k, rfl, hnot⟩
      · exact knows_of_faithful (h.of_eq rfl rfl) hidle
  · exact knows_of_faithful (h.of_eq rfl rfl) hidle

theorem checkHasBackupPrecedence_knows (h : Knows m c) (now : Nat) (t : Table) :
    Knows m (checkHasBackupPrecedence now t c).2 := by
  rw [checkHasBackupPrecedence]
  split
  · split
    · exact h.same rfl rfl rfl rfl
    · exact h.same rfl rfl rfl rfl
  · exact h

theorem markAsExclusive_faithful (now : Nat) (t : Table) (h : AllFaithful c) :
    AllFaithful (markAsExclusive m now t c).2.2 := by
  obtain ⟨next, hmark⟩ | ⟨id, own, taken, mine, given, next, -, -, -, -, -, -, -, -, -, -, -, -, -,
    -, -, hmark⟩ := markAsExclusive_cases m now t c
  · rw [hmark]
    exact h.of_eq rfl rfl
  · rw [hmark]
    exact (becomeExclusive_faithful m id now next h).of_eq rfl rfl

theorem laterCheck_faithful {other : MemberId} (now : Nat) (hk : c.schedulerMap other = some k)
    (h : AllFaithful c) : AllFaithful (c.setMember other (laterCheck now k)) := by
  refine h.of_views rfl ?_
  intro id k' hk'
  rw [Cluster.setMember_schedulerMap] at hk'
  by_cases heq : id = other
  · subst heq
    rw [Function.update_self] at hk'
    cases hk'
    exact ⟨k, hk, rfl, rfl, rfl, rfl⟩
  · rw [Function.update_of_ne heq] at hk'
    exact ⟨k', hk', rfl, rfl, rfl, rfl⟩

/-- The second check of `mark_as_exclusive` is carried out only while the table
    holds no other member's exclusive record, but of a member that is known as
    dead, or marked dead. -/
def ChecksOnlyDead (s : System) : Op → Prop
  | .markCheck m _ => ∀ c ∈ s.clusters m, OnlyDead m c s.table
  | _ => True

instance (s : System) : (op : Op) → Decidable (ChecksOnlyDead s op)
  | .markCheck m _ => inferInstanceAs (Decidable (∀ c ∈ s.clusters m, OnlyDead m c s.table))
  | .start .. | .crash _ | .firstCheck .. | .deleteOwn _ | .createEmpty _ | .insert ..
  | .lastCheck .. | .continueOperations _ | .domElement .. | .beat .. | .checkOwnRecord _
  | .tryToBecomeExclusive .. | .checkPrecedence .. | .markEmpty _ | .take _ | .giveUp _
  | .watchActive .. | .deactivate .. | .close _ | .deleteDead .. | .setCommand ..
  | .readCommand _ | .setContinue .. => isTrue trivial

/-- The steps of `subsystem_activate`. -/
theorem Inv.firstCheck (h : Inv s) {q : Select} (hc : s.clusters m = some c)
    (hp : firstCheck m q s c = some s') : Inv s' := by
  rw [ClusterStep.firstCheck] at hp
  split at hp
  · cases hp
    have hread := (h m c hc).faithful.checkSchedulers s.table q
    exact h.step_some rfl
      (knows_of_faithful (afterFirstCheck_faithful m hread) (afterFirstCheck_idle m _))
  · cases hp

theorem Inv.deleteOwn (h : Inv s) (hc : s.clusters m = some c)
    (hp : deleteOwn m s c = some s') : Inv s' := by
  rw [ClusterStep.deleteOwn] at hp
  split at hp
  · cases hp
    refine h.step_some rfl (knows_of_faithful (afterOwnDeleted_faithful ?_)
      (afterOwnDeleted_idle _))
    exact markedInactive_faithful m _ (h m c hc).faithful
  · cases hp

theorem Inv.createEmpty (h : Inv s) (hc : s.clusters m = some c)
    (hp : createEmpty m s c = some s') : Inv s' := by
  rw [ClusterStep.createEmpty] at hp
  split at hp
  · obtain ⟨t, -, rfl⟩ := Option.map_eq_some_iff.mp hp
    exact h.step_some rfl ((h m c hc).idle rfl rfl rfl)
  · cases hp

theorem Inv.insert (h : Inv s) {now : Nat} (hc : s.clusters m = some c)
    (hp : insert m now s c = some s') : Inv s' := by
  rw [ClusterStep.insert] at hp
  split at hp
  · obtain ⟨⟨t, c₁⟩, ht, rfl⟩ := Option.map_eq_some_iff.mp hp
    simp only [insertMemberRecord, Option.map_eq_some_iff] at ht
    obtain ⟨t₁, -, heq⟩ := ht
    cases heq
    exact h.step_some rfl ((h m c hc).idle rfl rfl rfl)
  · cases hp

theorem Inv.lastCheck (h : Inv s) {q : Select} (hc : s.clusters m = some c)
    (hp : lastCheck m q s c = some s') : Inv s' := by
  rw [ClusterStep.lastCheck] at hp
  split at hp
  · simp only at hp
    split at hp
    · cases hp
      have hread := (h m c hc).faithful.checkSchedulers s.table q
      exact h.step_some rfl (knows_of_faithful (hread.of_eq rfl rfl) rfl)
    · cases hp
      exact h.step_none rfl
  · cases hp

/-- Reading the table, and deciding whom to take the exclusiveness from. -/
theorem Inv.domElement (h : Inv s) {q : Select} (hc : s.clusters m = some c)
    (hp : domElement m q s c = some s') : Inv s' := by
  rw [ClusterStep.domElement] at hp
  split at hp
  · rename_i hphase
    cases hp
    have hread := (h m c hc).faithful.checkSchedulers s.table q
    refine h.step_some rfl (knows_of_faithful hread ?_)
    rw [(checkSchedulers_sameOwn s.table q c).phase, hphase]
    rfl
  · cases hp

theorem Inv.tryToBecomeExclusive (h : Inv s) {q : Select} {now : Nat}
    (hc : s.clusters m = some c) (hp : tryToBecomeExclusive m q now s c = some s') : Inv s' := by
  rw [ClusterStep.tryToBecomeExclusive] at hp
  split at hp
  · rename_i hwhen
    cases hp
    have hread := (h m c hc).faithful.checkSchedulers s.table q
    have hphase := (checkSchedulers_sameOwn s.table q c).phase.trans hwhen.1
    exact h.step_some rfl (tryToBecomeExclusive_knows hread hphase now)
  · cases hp

theorem Inv.checkPrecedence (h : Inv s) {now nowMark : Nat} (hc : s.clusters m = some c)
    (hp : checkPrecedence m now nowMark s c = some s') : Inv s' := by
  rw [ClusterStep.checkPrecedence] at hp
  split at hp
  · rename_i hwhen
    cases hp
    have hchecked := checkHasBackupPrecedence_knows (h m c hc) now s.table
    have hphase : (checkHasBackupPrecedence now s.table c).2.phase = .precedence := by
      rw [checkHasBackupPrecedence]
      split
      · split <;> exact hwhen.1
      · exact hwhen.1
    refine h.step_some rfl ?_
    split
    · rw [Cluster.beginMark]
      split
      · exact hchecked.idle rfl rfl rfl
      · exact hchecked.same rfl rfl rfl (by rw [hphase]; rfl)
    · exact hchecked.idle rfl rfl rfl
  · cases hp

theorem Inv.markEmpty (h : Inv s) (hc : s.clusters m = some c)
    (hp : markEmpty m s c = some s') : Inv s' := by
  rw [ClusterStep.markEmpty] at hp
  split at hp
  · split at hp
    · cases hp
    · obtain ⟨t, -, rfl⟩ := Option.map_eq_some_iff.mp hp
      exact h.step_some rfl ((h m c hc).idle rfl rfl rfl)
  · cases hp

/-- The second check finds the exclusive member that is taken then. -/
theorem Inv.markCheck (h : Inv s) {q : Select} (hc : s.clusters m = some c)
    (honly : OnlyDead m c s.table) (hp : markCheck m q s c = some s') : Inv s' := by
  rw [ClusterStep.markCheck] at hp
  split at hp
  · split at hp
    · cases hp
    · cases hp
      have hread := (h m c hc).faithful.checkSchedulers s.table q
      refine h.step_some rfl ⟨hread.of_eq rfl rfl, ?_⟩
      intro _ id hid hempty hme
      obtain ⟨row, -, hknown⟩ := checkSchedulers_exclusiveDead honly q id hid hempty hme
      obtain ⟨k, hk, hdead, -⟩ := knownDead_iff.mp hknown
      exact ⟨k, hk, hdead⟩
  · cases hp

theorem Inv.take (h : Inv s) (hc : s.clusters m = some c) (hp : take m s c = some s') : Inv s' := by
  rw [ClusterStep.take] at hp
  split at hp
  · rename_i now _
    split at hp
    · cases hp
    · cases hp
      have hmarked := markAsExclusive_faithful (m := m) now s.table (h m c hc).faithful
      exact h.step_some rfl (knows_of_faithful (hmarked.of_eq rfl rfl) rfl)
  · cases hp

/-- The other steps decide nothing. -/
theorem Inv.continueOperations (h : Inv s) (hc : s.clusters m = some c)
    (hp : continueOperations m s c = some s') : Inv s' := by
  rw [ClusterStep.continueOperations] at hp
  split at hp
  · cases hp
    refine h.step_some rfl ?_
    split
    · exact (h m c hc).same rfl rfl rfl rfl
    · exact (h m c hc).same rfl rfl rfl rfl
  · cases hp

theorem Inv.beat (h : Inv s) {now : Nat} (hc : s.clusters m = some c)
    (hp : beat m now s c = some s') : Inv s' := by
  rw [ClusterStep.beat] at hp
  split at hp
  · cases hp
    obtain ⟨row, -, -, hbeat⟩ | ⟨-, hbeat⟩ := heartbeat_cases m now s.table c
    · simp only [hbeat]
      exact h.step_some rfl ((h m c hc).same rfl rfl rfl rfl)
    · simp only [hbeat]
      exact h.step_some rfl ((h m c hc).same rfl rfl rfl rfl)
  · cases hp

theorem Inv.checkOwnRecord (h : Inv s) (hc : s.clusters m = some c)
    (hp : checkOwnRecord m s c = some s') : Inv s' := by
  rw [ClusterStep.checkOwnRecord] at hp
  split at hp
  · cases hp
    refine h.step_of rfl ?_
    intro c' hc'
    obtain ⟨row, -, rfl⟩ := Option.map_eq_some_iff.mp hc'
    exact (h m c hc).same rfl rfl rfl rfl
  · cases hp

theorem Inv.giveUp (h : Inv s) (hc : s.clusters m = some c)
    (hp : giveUp m s c = some s') : Inv s' := by
  rw [ClusterStep.giveUp] at hp
  split at hp
  · cases hp
    exact h.step_some rfl ((h m c hc).idle rfl rfl rfl)
  · cases hp

theorem Inv.watchActive (h : Inv s) {q : Select} (hc : s.clusters m = some c)
    (hp : watchActive m q s c = some s') : Inv s' := by
  rw [ClusterStep.watchActive] at hp
  split at hp
  · cases hp
    have hread := (h m c hc).faithful.checkSchedulers s.table q
    refine h.step_some rfl (knows_of_faithful (hread.of_eq rfl rfl) ?_)
    split <;> rfl
  · cases hp

theorem Inv.deactivate (h : Inv s) {other : MemberId} {now : Nat} (hc : s.clusters m = some c)
    (hp : deactivate m other now s c = some s') : Inv s' := by
  rw [ClusterStep.deactivate] at hp
  split at hp
  · rename_i hwhen
    obtain ⟨known, hknown, hp⟩ := Option.bind_eq_some_iff.mp hp
    have hidle : isDeciding c.phase = false := by rw [hwhen.1]; rfl
    have hlater := laterCheck_faithful now hknown (h m c hc).faithful
    split at hp
    · simp only at hp
      split at hp
      · cases hp
        exact h.step_some rfl (knows_of_faithful (hlater.of_eq rfl rfl) hidle)
      · cases hp
        exact h.step_some rfl (knows_of_faithful hlater hidle)
    · cases hp
  · cases hp

theorem Inv.close (h : Inv s) (hp : close m s c = some s') : Inv s' := by
  rw [ClusterStep.close] at hp
  split at hp
  · split at hp
    · cases hp
      exact h.step_none rfl
    · split at hp
      · cases hp
      · cases hp
        exact h.step_none rfl
  · cases hp

/-- Only the table is changed. -/
theorem Inv.of_clusters (h : Inv s) (hclusters : s'.clusters = s.clusters) : Inv s' := by
  intro m c hc
  rw [hclusters] at hc
  exact h m c hc

theorem Inv.deleteDead (h : Inv s) {other : MemberId} (hp : deleteDead other s c = some s') :
    Inv s' := by
  rw [ClusterStep.deleteDead] at hp
  split at hp
  · cases hp
    exact h.of_clusters rfl
  · cases hp

theorem Inv.setCommand (h : Inv s) {other : Option Nat} {command : String}
    (hp : setCommand m other command s c = some s') : Inv s' := by
  rw [ClusterStep.setCommand] at hp
  split at hp
  · cases hp
    exact h.of_clusters rfl
  · cases hp

theorem Inv.readCommand (h : Inv s) (hc : s.clusters m = some c)
    (hp : readCommand m s c = some s') : Inv s' := by
  rw [ClusterStep.readCommand] at hp
  split at hp
  · split at hp
    · cases hp
      exact h.step_some rfl ((h m c hc).same rfl rfl rfl rfl)
    · cases hp
      exact h.step_some rfl ((h m c hc).same rfl rfl rfl rfl)
  · cases hp

/-- A guarded step keeps the invariant. -/
theorem Inv.step (h : Inv s) {op : Op} (hguard : ChecksOnlyDead s op)
    (hstep : ClusterStep.step s op = some s') : Inv s' := by
  obtain ⟨m, config, now, rfl, -, rfl⟩ | ⟨c, hc, hp⟩ := step_cases hstep
  · exact h.step_some rfl (knows_of_faithful nofun rfl)
  cases op with
  | start m config now => cases hp
  | crash m =>
      cases hp
      exact h.step_none rfl
  | firstCheck m q => exact h.firstCheck hc hp
  | deleteOwn m => exact h.deleteOwn hc hp
  | createEmpty m => exact h.createEmpty hc hp
  | insert m now => exact h.insert hc hp
  | lastCheck m q => exact h.lastCheck hc hp
  | continueOperations m => exact h.continueOperations hc hp
  | domElement m q => exact h.domElement hc hp
  | beat m now => exact h.beat hc hp
  | checkOwnRecord m => exact h.checkOwnRecord hc hp
  | tryToBecomeExclusive m q now => exact h.tryToBecomeExclusive hc hp
  | checkPrecedence m now nowMark => exact h.checkPrecedence hc hp
  | markEmpty m => exact h.markEmpty hc hp
  | markCheck m q => exact h.markCheck hc (hguard c hc) hp
  | take m => exact h.take hc hp
  | giveUp m => exact h.giveUp hc hp
  | watchActive m q => exact h.watchActive hc hp
  | deactivate m other now => exact h.deactivate hc hp
  | close m => exact h.close hp
  | deleteDead m other => exact h.deleteDead hp
  | setCommand m other command => exact h.setCommand hp
  | readCommand m => exact h.readCommand hc hp
  | setContinue m nonBackup =>
      cases hp
      exact h.step_some rfl ((h m c hc).same rfl rfl rfl rfl)

/-! ## The law of the take-over -/

/-- `mark_as_exclusive` of a running member succeeds against another member's
    record. -/
def TakesOver (s : System) (m : Nat) (c : Cluster) (other : MemberId) : Prop :=
  s.clusters m = some c ∧ c.beatFailed = false ∧ c.hasExclusiveness = false ∧
    c.exclusiveScheduler = some other ∧ other ≠ .empty ∧ other ≠ .member m ∧
    ∃ now, c.phase = .taking now ∧ (markAsExclusive m now s.table c).1 = true

/-- The other member's record shows the heart beat with which the taking member
    has judged it dead. -/
def Justified (t : Table) (c : Cluster) (other : MemberId) : Prop :=
  ∃ view row, c.schedulerMap other = some view ∧ t.lookup other = some row ∧
    row.lastHeartBeat = some view.dbLastHeartBeat ∧ Judged c.config view

/-- The runs in which every second check meets the condition. -/
def GuardedReachable : System → Prop :=
  Reach (fun s => s = noMembers) (Guarded ChecksOnlyDead Step)

theorem GuardedReachable.inv (h : GuardedReachable s) : Inv s := by
  refine Reach.invariant ?_ ?_ h
  · rintro s rfl m c hc
    cases hc
  · intro s op s' hinv hstep
    exact hinv.step hstep.1 hstep.2.2

/-- In these runs the exclusiveness is taken only from members judged dead. -/
theorem take_over_justified (h : GuardedReachable s) :
    ∀ m c other, TakesOver s m c other → Justified s.table c other := by
  rintro m c other ⟨hc, -, -, hother, hempty, hme, now, hphase, hok⟩
  obtain ⟨hfaithful, hdecided⟩ := h.inv m c hc
  obtain ⟨view, hview, hdead⟩ := hdecided (by rw [hphase]; rfl) other hother hempty hme
  obtain ⟨next, hmark⟩ | ⟨id, own, taken, mine, given, next, hid, hown, -, hlast, -, -, -, -, -, -,
    -, -, -, -, -, -⟩ := markAsExclusive_cases m now s.table c
  · rw [hmark] at hok
    cases hok
  · rw [hother] at hid
    cases hid
    refine ⟨view, own, hview, hown, ?_, (hfaithful other view hempty hview).dead hdead⟩
    rw [hlast hempty, hview, Option.getD_some]

/-- Readings that show no mark and do not span the time. -/
theorem not_judged {cfg : Configuration} (h : ∀ r ∈ k.readings, r.dead = false ∧
    r.nowBeforeSelect ≤ heartBeatPeriod + cfg.heartBeatTimeout) : ¬ Judged cfg k := by
  rintro ⟨recent, ⟨-, ⟨older, hreadings⟩, -⟩, hwhy⟩
  rw [hreadings] at h
  obtain ⟨r, hr, hdead⟩ | ⟨first, last, -, hlast, hlong⟩ := hwhy
  · rw [(h r (List.mem_append_left older hr)).1] at hdead
    cases hdead
  · have hle := (h last (List.mem_append_left older hlast)).2
    omega

/-! ### Runs -/

/-- The member 1 is exclusive, and the member 2 has started. -/
def bothStarted : List Op :=
  [.start 1 primary 100, .firstCheck 1 (selectAt 100 [] true), .createEmpty 1, .insert 1 100,
    .lastCheck 1 (selectAt 100 [.empty, .member 1] true),
    .tryToBecomeExclusive 1 (selectAt 100 [.empty, .member 1] true) 100, .checkPrecedence 1 100 100,
    .take 1,
    .start 2 primary 100, .firstCheck 2 (selectAt 100 [.empty, .member 1] true), .createEmpty 2,
    .insert 2 100, .lastCheck 2 (selectAt 100 [.empty, .member 1, .member 2] true)]

/-- The member 2 sees the member 1 overdue. -/
def deadTaken : List Op :=
  bothStarted ++ [.tryToBecomeExclusive 2 (selectAt 222 [.empty, .member 1, .member 2] true) 222,
    .checkPrecedence 2 222 222]

/-- The select of the member 2 ends with an exception at once, so it knows no
    exclusive record; the second check finds that of the member 1. -/
def livingTaken : List Op :=
  bothStarted ++ [.tryToBecomeExclusive 2 (selectAt 101 [] false) 101, .checkPrecedence 2 101 101,
    .markEmpty 2, .markCheck 2 (selectAt 101 [.empty, .member 1, .member 2] true)]

/-- The member 2 is about to take the exclusiveness from the member 1. -/
def takesFrom1 (s : System) (c : Cluster) (now : Nat) : Bool :=
  decide (c.beatFailed = false ∧ c.hasExclusiveness = false ∧
    c.exclusiveScheduler = some (.member 1) ∧ c.phase = .taking now ∧
    (markAsExclusive 2 now s.table c).1 = true)

theorem takesOver_of {now : Nat} (hc : s.clusters 2 = some c) (h : takesFrom1 s c now = true) :
    TakesOver s 2 c (.member 1) := by
  obtain ⟨hfail, hnot, hother, hphase, hok⟩ := of_decide_eq_true h
  exact ⟨hc, hfail, hnot, hother, nofun, by decide, now, hphase, hok⟩

theorem deadTaken_runs : (runAll (System.attemptIf ChecksOnlyDead) noMembers deadTaken).any
    (fun s => (s.clusters 2).any fun c => takesFrom1 s c 222) = true := by
  decide +kernel

theorem deadTaken_justified : ∃ s c,
    runAll (System.attemptIf ChecksOnlyDead) noMembers deadTaken = some s ∧
      TakesOver s 2 c (.member 1) ∧ Justified s.table c (.member 1) := by
  obtain ⟨s, hrun, hany⟩ := (Option.any_eq_true _ _).mp deadTaken_runs
  obtain ⟨c, hc, htakes⟩ := (Option.any_eq_true _ _).mp hany
  have hreach : GuardedReachable s := Reach.runAll attemptIf_step (Reach.start rfl) hrun
  have htake := takesOver_of hc htakes
  exact ⟨s, c, hrun, htake, take_over_justified hreach 2 c (.member 1) htake⟩

theorem livingTaken_runs : (runAll System.attempt noMembers livingTaken).any
    (fun s => (s.clusters 2).any fun c => takesFrom1 s c 101 &&
      (c.schedulerMap (.member 1)).any fun k => k.readings.all fun r => decide (r.dead = false ∧
        r.nowBeforeSelect ≤ heartBeatPeriod + c.config.heartBeatTimeout)) = true := by
  decide +kernel

/-- A living member's exclusiveness is taken after a check that failed. -/
theorem living_taken : ¬ ∀ s, Reachable s → ∀ m c other, TakesOver s m c other →
    Justified s.table c other := by
  intro hall
  obtain ⟨s, hrun, hany⟩ := (Option.any_eq_true _ _).mp livingTaken_runs
  obtain ⟨c, hc, hboth⟩ := (Option.any_eq_true _ _).mp hany
  rw [Bool.and_eq_true] at hboth
  obtain ⟨k, hk, hreadings⟩ := (Option.any_eq_true _ _).mp hboth.2
  have hreach : Reachable s := Reach.runAll attempt_step (Reach.start rfl) hrun
  obtain ⟨view, row, hview, -, -, hjudged⟩ :=
    hall s hreach 2 c (.member 1) (takesOver_of hc hboth.1)
  rw [hk] at hview
  cases hview
  refine not_judged ?_ hjudged
  intro r hr
  exact of_decide_eq_true (List.all_eq_true.mp hreadings r hr)

end ClusterTakeOver
