import SchedulerEngine.ClusterTableProofs

/-! # What a cluster member knows of the others

    A member reads the records of the clusters table from time to time and keeps
    a `Cluster_member` for each of them.  It judges a member dead by its own
    clock: the last heart beat has not changed for too long since it was first
    detected. -/

namespace ClusterHeartBeat

open ClusterTable

/-! ## The program -/

def heartBeatPeriod : Nat := 60
def heartBeatPeriodAtStartup : Nat := 5
def startupPeriod : Nat := heartBeatPeriod
def backupStartupDelay : Nat := 60
def firstDeadOrdersCheckPeriod : Nat := 60

/-- `Database::seconds_before_reopen`. -/
def secondsBeforeReopen : Nat := 40

def intMax : Nat := 2147483647

/-- `Configuration`. -/
structure Configuration where
  isBackupMember : Bool
  backupPrecedence : Int
  demandExclusiveness : Bool
  heartBeatTimeout : Nat
  heartBeatOwnTimeout : Nat
  heartBeatWarnTimeout : Nat
deriving DecidableEq

/-- The checks of `new_cluster_subsystem` and `subsystem_activate`. -/
def Configuration.isAccepted (c : Configuration) : Bool :=
  (!c.isBackupMember || c.demandExclusiveness)
    && decide (c.heartBeatWarnTimeout < c.heartBeatOwnTimeout)
    && decide (c.heartBeatWarnTimeout < c.heartBeatTimeout)
    && (decide (c.heartBeatOwnTimeout < c.heartBeatTimeout)
      || decide (c.heartBeatOwnTimeout = intMax))

/-- One reading of a member's record: the clock before the select and when the
    record was read, and what it said. -/
structure Reading where
  nowBeforeSelect : Nat
  now : Nat
  lastHeartBeat : Nat
  dead : Bool
deriving DecidableEq

/-- `Cluster_member`; `readings` records what was read, newest first. -/
structure ClusterMember where
  isDead : Bool
  isDbDead : Bool
  deadOrdersCheckPeriod : Nat
  nextDeadOrdersCheckTime : Nat
  isExclusive : Bool
  isActive : Bool
  dbLastHeartBeat : Nat
  dbNextHeartBeat : Nat
  lastHeartBeatDetected : Nat
  readings : List Reading
deriving DecidableEq

/-- A new `Cluster_member`. -/
def newMember : ClusterMember :=
  ⟨false, false, firstDeadOrdersCheckPeriod, 0, false, false, 0, 0, 0, []⟩

/-- A heart beat, or a member, is detected. -/
def ClusterMember.detect (m : ClusterMember) (now : Nat) : ClusterMember :=
  { m with
    isDead := m.isDead && m.isDbDead
    deadOrdersCheckPeriod :=
      if m.isDead && !m.isDbDead then firstDeadOrdersCheckPeriod else m.deadOrdersCheckPeriod
    lastHeartBeatDetected := now + 1 }

/-- The heart beat is overdue, and the database has not been reopened lately. -/
def ClusterMember.isOverdue (cfg : Configuration) (reopenTime nowBeforeSelect : Nat)
    (m : ClusterMember) : Bool :=
  let warnDeadline := m.lastHeartBeatDetected + heartBeatPeriod + cfg.heartBeatWarnTimeout
  let standardDeadline := m.lastHeartBeatDetected + heartBeatPeriod + cfg.heartBeatTimeout
  let databaseReconnectDeadline := reopenTime + secondsBeforeReopen + cfg.heartBeatTimeout
  decide (warnDeadline < nowBeforeSelect) && !decide (nowBeforeSelect ≤ databaseReconnectDeadline)
    && decide (standardDeadline < nowBeforeSelect)

/-- A heart beat has been detected, and it is overdue. -/
def ClusterMember.isFoundDead (cfg : Configuration) (reopenTime nowBeforeSelect : Nat)
    (m : ClusterMember) : Bool :=
  decide (m.lastHeartBeatDetected ≠ 0) && m.isOverdue cfg reopenTime nowBeforeSelect

/-- `Cluster_member::check_heart_beat`; the result is false if the member is
    found dead by its heart beat. -/
def checkHeartBeat (cfg : Configuration) (isEmptyMember : Bool)
    (reopenTime nowBeforeSelect now : Nat) (row : Row) (m : ClusterMember) :
    Bool × ClusterMember :=
  let last := row.lastHeartBeat.getD 0
  let m := { m with isExclusive := row.exclusive, isActive := row.active, isDbDead := row.dead }
  let found := !isEmptyMember && decide (last = m.dbLastHeartBeat)
    && m.isFoundDead cfg reopenTime nowBeforeSelect
  let detected := if isEmptyMember ∨ last = m.dbLastHeartBeat then m else m.detect now
  (!found,
    { detected with
      isDead := detected.isDead || found || row.dead
      dbLastHeartBeat := last
      dbNextHeartBeat := row.nextHeartBeat.getD 0
      readings := ⟨nowBeforeSelect, now, last, row.dead⟩ :: m.readings })

/-! ## Justified judgements -/

/-- The readings since the current heart beat was first detected: all of them
    show this heart beat. -/
def Unchanged (m : ClusterMember) (recent : List Reading) : Prop :=
  recent ≠ [] ∧ (∃ older, m.readings = recent ++ older) ∧
    ∀ r ∈ recent, r.lastHeartBeat = m.dbLastHeartBeat

/-- A member may be taken for dead: its record has been seen marked dead, or
    with an unchanged heart beat for more than the period and the timeout, by
    the reader's clock. -/
def Judged (cfg : Configuration) (m : ClusterMember) : Prop :=
  ∃ recent, Unchanged m recent ∧
    ((∃ r ∈ recent, r.dead = true) ∨
      ∃ first last, recent.getLast? = some first ∧ last ∈ recent ∧
        first.now + heartBeatPeriod + cfg.heartBeatTimeout < last.nowBeforeSelect)

/-- What a member's object says of its readings. -/
structure Faithful (cfg : Configuration) (m : ClusterMember) : Prop where
  dead : m.isDead = true → Judged cfg m
  detected : m.lastHeartBeatDetected ≠ 0 →
    ∃ recent first, Unchanged m recent ∧ recent.getLast? = some first ∧
      m.lastHeartBeatDetected = first.now + 1

variable {cfg : Configuration} {m m' : ClusterMember} {recent : List Reading} {r : Reading}

/-- One reading more. -/
theorem Unchanged.cons (h : Unchanged m recent) (hread : m'.readings = r :: m.readings)
    (hlast : m'.dbLastHeartBeat = m.dbLastHeartBeat)
    (hr : r.lastHeartBeat = m.dbLastHeartBeat) : Unchanged m' (r :: recent) := by
  obtain ⟨-, ⟨older, holder⟩, hall⟩ := h
  refine ⟨List.cons_ne_nil _ _, ⟨older, ?_⟩, ?_⟩
  · rw [hread, holder]
    rfl
  · intro r' hr'
    rw [hlast]
    obtain rfl | hr' := List.mem_cons.mp hr'
    · exact hr
    · exact hall r' hr'

/-- The first reading of a heart beat. -/
theorem unchanged_singleton (hread : m'.readings = r :: m.readings)
    (hr : r.lastHeartBeat = m'.dbLastHeartBeat) : Unchanged m' [r] := by
  refine ⟨List.cons_ne_nil _ _, ⟨m.readings, hread⟩, ?_⟩
  intro r' hr'
  rw [List.mem_singleton.mp hr']
  exact hr

theorem getLast?_cons (h : recent ≠ []) (r : Reading) :
    (r :: recent).getLast? = recent.getLast? := by
  rw [List.getLast?_cons_of_ne_nil h]

/-- A reading that shows the same heart beat keeps a judgement. -/
theorem Judged.cons (h : Judged cfg m) (hread : m'.readings = r :: m.readings)
    (hlast : m'.dbLastHeartBeat = m.dbLastHeartBeat)
    (hr : r.lastHeartBeat = m.dbLastHeartBeat) : Judged cfg m' := by
  obtain ⟨recent, hun, hwhy⟩ := h
  refine ⟨r :: recent, hun.cons hread hlast hr, ?_⟩
  obtain ⟨r', hr', hdead⟩ | ⟨first, last, hfirst, hmem, hlong⟩ := hwhy
  · exact Or.inl ⟨r', List.mem_cons_of_mem _ hr', hdead⟩
  · refine Or.inr ⟨first, last, ?_, List.mem_cons_of_mem _ hmem, hlong⟩
    rw [getLast?_cons hun.1]
    exact hfirst

/-- A record that is marked dead justifies the judgement. -/
theorem judged_of_marked (hread : m'.readings = r :: m.readings)
    (hr : r.lastHeartBeat = m'.dbLastHeartBeat) (hdead : r.dead = true) : Judged cfg m' :=
  ⟨[r], unchanged_singleton hread hr, Or.inl ⟨r, List.mem_singleton_self r, hdead⟩⟩

theorem overdue_iff {reopenTime nowBeforeSelect : Nat}
    (h : m.isOverdue cfg reopenTime nowBeforeSelect = true) :
    m.lastHeartBeatDetected + heartBeatPeriod + cfg.heartBeatTimeout < nowBeforeSelect := by
  simp only [ClusterMember.isOverdue, Bool.and_eq_true, decide_eq_true_eq] at h
  exact h.2

/-- What a reading of a record makes of a member's object: the same heart beat,
    or a new one. -/
theorem checkHeartBeat_cases (cfg : Configuration) (reopenTime nowBeforeSelect now : Nat)
    (row : Row) (m : ClusterMember) :
    let read := (checkHeartBeat cfg false reopenTime nowBeforeSelect now row m).2
    (read.dbLastHeartBeat = m.dbLastHeartBeat ∧
      read.lastHeartBeatDetected = m.lastHeartBeatDetected ∧
      (read.isDead = true → m.isDead = true ∨ row.dead = true ∨ m.lastHeartBeatDetected ≠ 0 ∧
        m.lastHeartBeatDetected + heartBeatPeriod + cfg.heartBeatTimeout < nowBeforeSelect)) ∨
    (read.lastHeartBeatDetected = now + 1 ∧ (read.isDead = true → row.dead = true)) := by
  by_cases hsame : row.lastHeartBeat.getD 0 = m.dbLastHeartBeat
  · refine Or.inl ⟨hsame, ?_, ?_⟩
    · simp [checkHeartBeat, hsame]
    · intro hdead
      have hor : (m.isDead || m.isFoundDead cfg reopenTime nowBeforeSelect || row.dead) = true := by
        rw [← hdead]
        simp [checkHeartBeat, hsame]
        rfl
      rw [Bool.or_eq_true, Bool.or_eq_true] at hor
      obtain (hold | hfound) | hdb := hor
      · exact Or.inl hold
      · rw [ClusterMember.isFoundDead, Bool.and_eq_true, decide_eq_true_eq] at hfound
        exact Or.inr (Or.inr ⟨hfound.1, overdue_iff hfound.2⟩)
      · exact Or.inr (Or.inl hdb)
  · refine Or.inr ⟨?_, ?_⟩
    · simp [checkHeartBeat, hsame, ClusterMember.detect]
    · intro hdead
      by_contra hnot
      simp [checkHeartBeat, ClusterMember.detect, hsame, hnot] at hdead

@[simp] theorem checkHeartBeat_last (cfg : Configuration) (isEmptyMember : Bool)
    (reopenTime nowBeforeSelect now : Nat) (row : Row) (m : ClusterMember) :
    (checkHeartBeat cfg isEmptyMember reopenTime nowBeforeSelect now row m).2.dbLastHeartBeat
      = row.lastHeartBeat.getD 0 := rfl

/-- A reading of a record keeps the object faithful. -/
theorem Faithful.checkHeartBeat (h : Faithful cfg m)
    (reopenTime nowBeforeSelect now : Nat) (row : Row) :
    Faithful cfg (checkHeartBeat cfg false reopenTime nowBeforeSelect now row m).2 := by
  by_cases hsame : row.lastHeartBeat.getD 0 = m.dbLastHeartBeat
  · -- the heart beat is the one that was last read
    have hdet : (ClusterHeartBeat.checkHeartBeat cfg false reopenTime nowBeforeSelect now row
        m).2.lastHeartBeatDetected = m.lastHeartBeatDetected := by
      simp [ClusterHeartBeat.checkHeartBeat, hsame]
    have hisDead : (ClusterHeartBeat.checkHeartBeat cfg false reopenTime nowBeforeSelect now row
        m).2.isDead = (m.isDead || m.isFoundDead cfg reopenTime nowBeforeSelect || row.dead) := by
      simp [ClusterHeartBeat.checkHeartBeat, hsame]
      rfl
    refine ⟨?_, ?_⟩
    · intro hdead
      rw [hisDead, Bool.or_eq_true, Bool.or_eq_true] at hdead
      obtain (hold | hfound) | hdb := hdead
      · exact (h.dead hold).cons rfl hsame hsame
      · rw [ClusterMember.isFoundDead, Bool.and_eq_true, decide_eq_true_eq] at hfound
        obtain ⟨recent, first, hun, hfirst, hat⟩ := h.detected hfound.1
        have hlong := overdue_iff hfound.2
        refine ⟨_, hun.cons rfl hsame hsame, Or.inr ⟨first, _, ?_, List.mem_cons_self .., ?_⟩⟩
        · rw [getLast?_cons hun.1]
          exact hfirst
        · show first.now + heartBeatPeriod + cfg.heartBeatTimeout < nowBeforeSelect
          omega
      · exact judged_of_marked rfl rfl hdb
    · intro hne
      rw [hdet] at hne ⊢
      obtain ⟨recent, first, hun, hfirst, hat⟩ := h.detected hne
      refine ⟨_, first, hun.cons rfl hsame hsame, ?_, hat⟩
      rw [getLast?_cons hun.1]
      exact hfirst
  · -- a new heart beat
    have hdet : (ClusterHeartBeat.checkHeartBeat cfg false reopenTime nowBeforeSelect now row
        m).2.lastHeartBeatDetected = now + 1 := by
      simp [ClusterHeartBeat.checkHeartBeat, hsame, ClusterMember.detect]
    refine ⟨?_, ?_⟩
    · intro hdead
      have hdb : row.dead = true := by
        by_contra hnot
        simp [ClusterHeartBeat.checkHeartBeat, ClusterMember.detect, hsame, hnot] at hdead
      exact judged_of_marked rfl rfl hdb
    · intro _
      exact ⟨_, _, unchanged_singleton rfl rfl, rfl, hdet⟩

theorem faithful_newMember : Faithful cfg newMember where
  dead := nofun
  detected := by
    intro h
    exact absurd rfl h

end ClusterHeartBeat
