import SchedulerEngine.ClusterHeartBeatProofs
import SchedulerEngine.RunInvariantProofs
import Mathlib.Data.Rat.Floor
import Mathlib.Tactic.Linarith
import Mathlib.Tactic.Positivity

/-! # The heart beat watchdog

    A member that does not beat in time is taken for dead by the others, on
    their clocks; its own `Heart_beat_watchdog_thread` aborts it before, on its
    own clock.  The clocks run at the same rate.  Between two steps time
    passes, but no watchdog thread wakes later than one second after its time. -/

namespace ClusterWatchdog

open ClusterTable ClusterHeartBeat RunInvariant

/-! ## The program -/

/-- A member's record, without `next_heart_beat` and the columns that do not
    decide about its exclusiveness. -/
structure Record where
  lastHeartBeat : Nat
  active : Bool
  exclusive : Bool
  dead : Bool

def Record.row (r : Record) : Row :=
  { precedence := none, lastHeartBeat := some r.lastHeartBeat, nextHeartBeat := none
    active := r.active, exclusive := r.exclusive, dead := r.dead, command := none }

/-- What the main thread of a member is in: `heartbeat_member_record` or
    `mark_as_exclusive`, before and after the commit, with the clock at the
    begin. -/
inductive Activity where
  | free
  | beating (now : Nat)
  | beaten (now : Nat)
  | marking (now : Nat)
  | marked (now : Nat)
deriving DecidableEq

/-- A running member that demands exclusiveness.  `returned` says that
    `mark_as_exclusive` has come to its end, with its own heart beat;
    `heartBeatTime` and `sleepUntil` are variables of the watchdog thread. -/
structure Member where
  dbLastHeartBeat : Nat
  isActive : Bool
  hasExclusiveness : Bool
  returned : Bool
  activity : Activity
  nowBeforeSelect : Nat
  schedulerMap : Nat → ClusterMember
  heartBeatTime : Nat
  sleepUntil : Nat

structure System where
  time : ℚ≥0
  records : Nat → Option Record
  emptyExclusive : Bool
  members : Nat → Option Member

variable (cfg : Configuration) (offset : Nat → ℚ≥0)

/-- The clock of a member. -/
def clock (s : System) (m : Nat) : ℚ := s.time + offset m

/-- `::time(NULL)`. -/
def second (s : System) (m : Nat) : Nat := ⌊clock offset s m⌋₊

/-- `Heart_beat_watchdog_thread::sleep(delay + 1)`: when it wakes. -/
def wakeTime (heartBeatTime now : Nat) : Nat :=
  max (heartBeatTime + 1 + heartBeatPeriod + cfg.heartBeatOwnTimeout + 1) now

def System.setMember (s : System) (m : Nat) (c : Option Member) : System :=
  { s with members := Function.update s.members m c }

def System.setRecord (s : System) (m : Nat) (r : Option Record) : System :=
  { s with records := Function.update s.records m r }

@[simp] theorem System.setMember_members (s : System) (m : Nat) (c : Option Member) :
    (s.setMember m c).members = Function.update s.members m c := rfl

@[simp] theorem System.setMember_records (s : System) (m : Nat) (c : Option Member) :
    (s.setMember m c).records = s.records := rfl

@[simp] theorem System.setRecord_members (s : System) (m : Nat) (r : Option Record) :
    (s.setRecord m r).members = s.members := rfl

@[simp] theorem System.setRecord_records (s : System) (m : Nat) (r : Option Record) :
    (s.setRecord m r).records = Function.update s.records m r := rfl

/-- `subsystem_activate`: an old record of the member is deleted, which makes the
    empty record exclusive if it was; `now` is the heart beat of the new one. -/
def activate (m now started : Nat) (s : System) : System :=
  { (s.setRecord m (some ⟨now, false, false, false⟩)).setMember m (some
      { dbLastHeartBeat := now, isActive := false, hasExclusiveness := false, returned := false
        activity := .free, nowBeforeSelect := 0, schedulerMap := fun _ => newMember
        heartBeatTime := now, sleepUntil := wakeTime cfg now started }) with
    emptyExclusive := s.emptyExclusive || (s.records m).any fun r => r.exclusive }

/-- `Cluster::close`. -/
def close (m : Nat) (s : System) : System :=
  { (s.setRecord m none).setMember m none with
    emptyExclusive := s.emptyExclusive || (s.records m).any fun r => r.exclusive }

/-- The where clause of the heart beat. -/
def Member.ownsRecord (c : Member) (r : Record) : Bool :=
  decide (r.lastHeartBeat = c.dbLastHeartBeat) && decide (r.active = c.isActive)
    && decide (r.exclusive = c.hasExclusiveness)

/-- `check_my_member_record`, forced after a heart beat that failed. -/
def Member.lost (c : Member) : Member :=
  { c with activity := .free, isActive := false, hasExclusiveness := false, returned := false }

/-- The transaction of `heartbeat_member_record`. -/
def heartbeatMemberRecord (m now : Nat) (s : System) (c : Member) : System :=
  match (s.records m).filter c.ownsRecord with
  | some r => (s.setRecord m (some { r with lastHeartBeat := now })).setMember m
      (some { c with activity := .beaten now })
  | none => s.setMember m (some c.lost)

/-- After the commit of `heartbeat_member_record`; it may be the last part of
    `mark_as_exclusive`. -/
def Member.afterBeat (c : Member) (now : Nat) : Member :=
  { c with
    dbLastHeartBeat := now, returned := c.returned || c.hasExclusiveness, activity := .free }

/-- The record from which `mark_as_exclusive` may take the exclusiveness: it
    belongs to a member that is judged dead, and shows the heart beat last read. -/
def Member.mayTake (c : Member) (other : Nat) (r : Record) : Bool :=
  (c.schedulerMap other).isDead && r.exclusive
    && decide (r.lastHeartBeat = (c.schedulerMap other).dbLastHeartBeat)

/-- The first statement of `mark_as_exclusive`: the exclusiveness is taken from
    the empty record, or from another member's. -/
def takeFrom (m : Nat) (other : Option Nat) (s : System) (c : Member) : Option System :=
  match other with
  | none => if s.emptyExclusive then some { s with emptyExclusive := false } else none
  | some a =>
    if a = m then none
    else ((s.records a).filter (c.mayTake a)).map fun r =>
      s.setRecord a (some { r with exclusive := false, dead := r.dead || !(c.schedulerMap a).isDbDead })

/-- The second statement, and the commit. -/
def giveTo (m now : Nat) (s : System) (c : Member) : Option System :=
  ((s.records m).filter fun r => !r.exclusive && decide (r.active = c.isActive)).map fun r =>
    (s.setRecord m (some { r with active := true, exclusive := true, lastHeartBeat := now })).setMember m
      (some { c with activity := .marked now })

/-- After the commit of `mark_as_exclusive`, which goes on with a heart beat. -/
def Member.afterMark (c : Member) (now : Nat) : Member :=
  { c with
    dbLastHeartBeat := now, isActive := true, hasExclusiveness := true, returned := false
    activity := .free }

/-- `Cluster_member::check_heart_beat` for another member. -/
def Member.check (c : Member) (other reopenTime now : Nat) (r : Record) : Member :=
  { c with
    schedulerMap := Function.update c.schedulerMap other
      (checkHeartBeat cfg false reopenTime c.nowBeforeSelect now r.row (c.schedulerMap other)).2 }

/-- One round of `Heart_beat_watchdog_thread::thread_main`, from one wake-up to
    the next sleep; `none` if it aborts the process. -/
def Member.wake (c : Member) (now : Nat) : Option Member :=
  if c.isActive ∧ c.dbLastHeartBeat = c.heartBeatTime then none
  else some { c with
    heartBeatTime := c.dbLastHeartBeat, sleepUntil := wakeTime cfg c.dbLastHeartBeat now }

/-! ## Steps -/

inductive Op where
  | pass (δ : ℚ≥0)
  | start (m now : Nat)
  | crash (m : Nat)
  | close (m : Nat)
  | beatBegin (m : Nat)
  | beatCommit (m : Nat)
  | beatEnd (m : Nat)
  | select (m : Nat)
  | read (m other reopenTime : Nat)
  | markBegin (m : Nat)
  | markCommit (m : Nat) (other : Option Nat)
  | markFail (m : Nat)
  | markEnd (m : Nat)
  | wake (m : Nat)

/-- The member a step is of. -/
def Op.actor : Op → Nat
  | .pass _ => 0
  | .start m _ | .crash m | .close m | .beatBegin m | .beatCommit m | .beatEnd m | .select m
  | .read m _ _ | .markBegin m | .markCommit m _ | .markFail m | .markEnd m | .wake m => m

/-- A step of a running member whose clock shows `now`. -/
def perform (now : Nat) (s : System) (c : Member) : Op → Option System
  | .pass _ => none
  | .start _ _ => none
  | .crash m => some (s.setMember m none)
  | .close m => if c.activity = .free then some (close m s) else none
  | .beatBegin m =>
    if c.activity = .free then some (s.setMember m (some { c with activity := .beating now }))
    else none
  | .beatCommit m =>
    match c.activity with
    | .beating t => some (heartbeatMemberRecord m t s c)
    | _ => none
  | .beatEnd m =>
    match c.activity with
    | .beaten t => some (s.setMember m (some (c.afterBeat t)))
    | _ => none
  | .select m =>
    if c.activity = .free then some (s.setMember m (some { c with nowBeforeSelect := now }))
    else none
  | .read m other reopenTime =>
    if c.activity = .free then (s.records other).map fun r =>
      s.setMember m (some (c.check cfg other reopenTime now r))
    else none
  | .markBegin m =>
    if c.activity = .free ∧ c.hasExclusiveness = false then
      some (s.setMember m (some { c with activity := .marking now }))
    else none
  | .markCommit m other =>
    match c.activity with
    | .marking t => (takeFrom m other s c).bind fun s => giveTo m t s c
    | _ => none
  | .markFail m =>
    match c.activity with
    | .marking _ => some (s.setMember m (some { c with activity := .free }))
    | _ => none
  | .markEnd m =>
    match c.activity with
    | .marked t => some (s.setMember m (some (c.afterMark t)))
    | _ => none
  | .wake m => if c.sleepUntil ≤ now then some (s.setMember m (c.wake cfg now)) else none

/-- No watchdog thread is more than one second late. -/
def InTime (s : System) : Prop :=
  ∀ m c, s.members m = some c → clock offset s m ≤ c.sleepUntil + 1

/-- A step that is not the passing of time. -/
def step (s : System) (op : Op) : Option System :=
  match s.members op.actor with
  | some c => perform cfg (second offset s op.actor) s c op
  | none =>
    match op with
    | .start m now =>
      if now ≤ second offset s m then some (activate cfg m now (second offset s m) s) else none
    | _ => none

def Step (s : System) (op : Op) (s' : System) : Prop :=
  match op with
  | .pass δ => s' = { s with time := s.time + δ } ∧ InTime offset s'
  | _ => step cfg offset s op = some s'

/-- Only the empty record exists, and it is exclusive. -/
def noMembers : System := ⟨0, fun _ => none, true, fun _ => none⟩

def Reachable : System → Prop := Reach (fun s => s = noMembers) (Step cfg offset)

/-- A member works exclusively: `mark_as_exclusive` has returned, no heart beat
    has failed since, and the process has not ended. -/
def WorksExclusively (s : System) (m : Nat) : Prop :=
  ∃ c, s.members m = some c ∧ c.hasExclusiveness = true ∧ c.returned = true

/-! ## A member and its record -/

/-- The heart beat that stands in the member's record. -/
def Member.written (c : Member) : Nat :=
  match c.activity with
  | .beaten t | .marked t => t
  | _ => c.dbLastHeartBeat

/-- The next heart beat of the member is not before this second. -/
def Member.nextBeat (c : Member) (now : Nat) : Nat :=
  match c.activity with
  | .beating t | .marking t => t
  | _ => now

/-- The second by which the watchdog thread finds that `_db_last_heart_beat` has
    not changed: at the end of its sleep, or of its next one. -/
def Member.deadline (c : Member) : Nat :=
  if c.heartBeatTime = c.dbLastHeartBeat then c.sleepUntil + 1
  else max (c.dbLastHeartBeat + 62 + cfg.heartBeatOwnTimeout) (c.sleepUntil + 1) + 1

def Member.isMarked (c : Member) : Bool :=
  match c.activity with
  | .marked _ => true
  | _ => false

def Member.isBeaten (c : Member) : Bool :=
  match c.activity with
  | .beaten _ => true
  | _ => false

/-- A member that works exclusively, or is about to after its heart beat. -/
def Member.holds (c : Member) : Bool := c.hasExclusiveness && (c.returned || c.isBeaten)

/-- What is true of a running member and its record, by the member's clock. -/
structure Timely (now : Nat) (r : Record) (c : Member) : Prop where
  record : r.lastHeartBeat = c.written
  last_le : c.dbLastHeartBeat ≤ c.written
  written_le : c.written ≤ c.nextBeat now
  next_le : c.nextBeat now ≤ now
  watched : c.heartBeatTime ≤ c.dbLastHeartBeat
  asleep : c.sleepUntil ≤ max (c.heartBeatTime + 62 + cfg.heartBeatOwnTimeout) now
  active : c.hasExclusiveness = true → c.isActive = true
  marks : (∃ t, c.activity = .marking t ∨ c.activity = .marked t) → c.hasExclusiveness = false
  confirming : c.hasExclusiveness = true → c.holds = false →
    c.deadline cfg ≤ max (c.dbLastHeartBeat + 63 + cfg.heartBeatOwnTimeout) (c.nextBeat now + 2)
  holding : c.holds = true → c.deadline cfg ≤ c.written + 62 + cfg.heartBeatOwnTimeout ∨
    c.dbLastHeartBeat = c.written ∧ c.deadline cfg ≤ c.written + 63 + cfg.heartBeatOwnTimeout
  owner : c.holds = true → r.exclusive = true
  holder : r.exclusive = true → c.hasExclusiveness = true ∨ c.isMarked = true
  lost : r.dead = true → c.hasExclusiveness = true ∨ c.isMarked = true ∨ c.isActive = false

variable {cfg offset}
variable {s s' : System} {m a b now : Nat} {c : Member} {r : Record}

/-- The record's columns that the member's facts are about. -/
theorem Timely.of_record (h : Timely cfg now r c) {r' : Record}
    (hlast : r'.lastHeartBeat = r.lastHeartBeat) (howner : c.holds = true → r'.exclusive = true)
    (hex : r'.exclusive = true → r.exclusive = true)
    (hlost : r'.dead = true → c.hasExclusiveness = true ∨ c.isMarked = true ∨ c.isActive = false) :
    Timely cfg now r' c :=
  { h with
    record := hlast.trans h.record
    owner := howner
    holder := fun h' => h.holder (hex h')
    lost := hlost }

theorem nextBeat_mono (c : Member) {now' : Nat} (hle : now ≤ now') :
    c.nextBeat now ≤ c.nextBeat now' := by
  rw [Member.nextBeat, Member.nextBeat]
  split
  · exact le_rfl
  · exact le_rfl
  · exact hle

theorem nextBeat_le_later {now' : Nat} (hle : now ≤ now') (h : c.nextBeat now ≤ now) :
    c.nextBeat now' ≤ now' := by
  rw [Member.nextBeat] at h ⊢
  split
  · rename_i t hact
    rw [hact] at h
    exact h.trans hle
  · rename_i t hact
    rw [hact] at h
    exact h.trans hle
  · exact le_rfl

/-- Time passes. -/
theorem Timely.later (h : Timely cfg now r c) {now' : Nat} (hle : now ≤ now') :
    Timely cfg now' r c :=
  { h with
    written_le := h.written_le.trans (nextBeat_mono c hle)
    next_le := nextBeat_le_later hle h.next_le
    asleep := h.asleep.trans (max_le_max le_rfl hle)
    confirming := by
      intro hhas hnot
      have hmono := nextBeat_mono c hle
      exact (h.confirming hhas hnot).trans (max_le_max le_rfl (by omega)) }

/-- A new process. -/
theorem timely_activate (started : Nat) (hle : now ≤ started) :
    Timely cfg started ⟨now, false, false, false⟩
      { dbLastHeartBeat := now, isActive := false, hasExclusiveness := false, returned := false
        activity := .free, nowBeforeSelect := 0, schedulerMap := fun _ => newMember
        heartBeatTime := now, sleepUntil := wakeTime cfg now started } where
  record := rfl
  last_le := le_rfl
  written_le := hle
  next_le := le_rfl
  watched := le_rfl
  asleep := by
    simp only [wakeTime, heartBeatPeriod]
    omega
  active := nofun
  marks := fun _ => rfl
  confirming := nofun
  holding := nofun
  owner := nofun
  holder := nofun
  lost := nofun

/-- A member that is not in a transaction. -/
theorem Timely.free (h : Timely cfg now r c) (hact : c.activity = .free) :
    r.lastHeartBeat = c.dbLastHeartBeat ∧ c.dbLastHeartBeat ≤ now := by
  have hwritten : c.written = c.dbLastHeartBeat := by rw [Member.written, hact]
  have hle := h.written_le.trans h.next_le
  rw [hwritten] at hle
  exact ⟨h.record.trans hwritten, hle⟩

theorem holds_free (hact : c.activity = .free) : c.holds = (c.hasExclusiveness && c.returned) := by
  simp [Member.holds, Member.isBeaten, hact]

theorem Timely.beatBegin (h : Timely cfg now r c) (hact : c.activity = .free) :
    Timely cfg now r { c with activity := .beating now } := by
  obtain ⟨hrecord, hle⟩ := h.free hact
  have hwritten : c.written = c.dbLastHeartBeat := by rw [Member.written, hact]
  have hnext : c.nextBeat now = now := by rw [Member.nextBeat, hact]
  have hholds : ({ c with activity := .beating now } : Member).holds = c.holds := by
    simp [Member.holds, Member.isBeaten, hact]
  have hnotMarked : c.isMarked = false := by simp [Member.isMarked, hact]
  refine ⟨hrecord, le_rfl, hle, le_rfl, h.watched, h.asleep, h.active, ?_, ?_, ?_, ?_, ?_, ?_⟩
  · rintro ⟨t, ht | ht⟩ <;> cases ht
  · intro hhas hnot
    rw [hholds] at hnot
    have hconfirm := h.confirming hhas hnot
    rw [hnext] at hconfirm
    exact hconfirm
  · intro hh
    have hholding := h.holding (hholds ▸ hh)
    rw [hwritten] at hholding
    exact hholding
  · exact fun hh => h.owner (hholds ▸ hh)
  · intro hex
    exact (h.holder hex).imp_right fun hm => by rw [hnotMarked] at hm; cases hm
  · intro hdead
    exact (h.lost hdead).imp_right fun hm => hm.imp_left fun hm => by rw [hnotMarked] at hm; cases hm

theorem ownsRecord_iff : c.ownsRecord r = true ↔ r.lastHeartBeat = c.dbLastHeartBeat ∧
    r.active = c.isActive ∧ r.exclusive = c.hasExclusiveness := by
  simp only [Member.ownsRecord, Bool.and_eq_true, decide_eq_true_eq, and_assoc]

/-- A heart beat is committed. -/
theorem Timely.beatCommit (h : Timely cfg now r c) {t : Nat} (hact : c.activity = .beating t)
    (howns : c.ownsRecord r = true) (hdead : r.dead = false) :
    Timely cfg now { r with lastHeartBeat := t } { c with activity := .beaten t } := by
  obtain ⟨hlast, -, hex⟩ := ownsRecord_iff.mp howns
  have hwritten : c.written = c.dbLastHeartBeat := by rw [Member.written, hact]
  have hnext : c.nextBeat now = t := by rw [Member.nextBeat, hact]
  have hle := h.written_le
  have hnow := h.next_le
  rw [hwritten, hnext] at hle
  rw [hnext] at hnow
  refine ⟨rfl, hle, hnow, le_rfl, h.watched, h.asleep, h.active, ?_, ?_, ?_, ?_, ?_, ?_⟩
  · rintro ⟨t', ht | ht⟩ <;> cases ht
  · intro hhas hnot
    have hholds : ({ c with activity := .beaten t } : Member).holds = true := by
      have hhas' : c.hasExclusiveness = true := hhas
      simp [Member.holds, Member.isBeaten, hhas']
    rw [hholds] at hnot
    cases hnot
  · intro hh
    have hhas : c.hasExclusiveness = true := by
      rw [Member.holds, Bool.and_eq_true] at hh
      exact hh.1
    show c.deadline cfg ≤ t + 62 + cfg.heartBeatOwnTimeout ∨
      c.dbLastHeartBeat = t ∧ c.deadline cfg ≤ t + 63 + cfg.heartBeatOwnTimeout
    cases hold : c.holds with
    | true =>
        have hholding := h.holding hold
        rw [hwritten] at hholding
        omega
    | false =>
        have hconfirm := h.confirming hhas hold
        rw [hnext] at hconfirm
        omega
  · intro hh
    rw [Member.holds, Bool.and_eq_true] at hh
    exact hex.trans hh.1
  · intro hexr
    exact Or.inl (hex.symm.trans hexr)
  · intro hd
    have hd : r.dead = true := hd
    rw [hdead] at hd
    cases hd

/-- A heart beat that fails has not found the record exclusive. -/
theorem Timely.lose (h : Timely cfg now r c) {t : Nat} (hact : c.activity = .beating t)
    (hactive : r.exclusive = true → r.active = true) (hnot : c.ownsRecord r = false) :
    Timely cfg now r c.lost := by
  have hwritten : c.written = c.dbLastHeartBeat := by rw [Member.written, hact]
  have hle := (h.written_le.trans h.next_le)
  have hrecord := h.record
  rw [hwritten] at hle hrecord
  have hex : r.exclusive = false := by
    refine Bool.eq_false_iff.mpr fun hex => ?_
    obtain hhas | hmarked := h.holder hex
    · rw [ownsRecord_iff.mpr ⟨hrecord, (hactive hex).trans (h.active hhas).symm,
        hex.trans hhas.symm⟩] at hnot
      cases hnot
    · simp [Member.isMarked, hact] at hmarked
  refine ⟨hrecord, le_rfl, hle, le_rfl, h.watched, h.asleep, nofun, fun _ => rfl, nofun, nofun,
    nofun, ?_, fun _ => Or.inr (Or.inr rfl)⟩
  intro hexr
  rw [hex] at hexr
  cases hexr

/-- The heart beat is remembered. -/
theorem Timely.beatEnd (h : Timely cfg now r c) {t : Nat} (hact : c.activity = .beaten t) :
    Timely cfg now r (c.afterBeat t) := by
  have hwritten : c.written = t := by rw [Member.written, hact]
  have hrecord := h.record
  have hle := h.last_le
  have hnow := h.written_le.trans h.next_le
  rw [hwritten] at hrecord hle hnow
  have hbefore : c.hasExclusiveness = true → c.holds = true := by
    intro hhas
    simp [Member.holds, Member.isBeaten, hact, hhas]
  have hafter : (c.afterBeat t).holds = c.hasExclusiveness := by
    rw [holds_free rfl]
    show (c.hasExclusiveness && (c.returned || c.hasExclusiveness)) = c.hasExclusiveness
    cases c.hasExclusiveness <;> simp
  have hnotMarked : c.isMarked = false := by simp [Member.isMarked, hact]
  refine ⟨hrecord, le_rfl, hnow, le_rfl, h.watched.trans hle, h.asleep, h.active, ?_, ?_, ?_, ?_,
    ?_, ?_⟩
  · rintro ⟨t', ht | ht⟩ <;> cases ht
  · intro hhas hnot
    rw [hafter] at hnot
    exact absurd (hnot.symm.trans hhas) nofun
  · intro hh
    have hholding := h.holding (hbefore (hafter ▸ hh))
    rw [hwritten] at hholding
    have hwatched := h.watched
    refine Or.inr ⟨rfl, ?_⟩
    show (if c.heartBeatTime = t then c.sleepUntil + 1
      else max (t + 62 + cfg.heartBeatOwnTimeout) (c.sleepUntil + 1) + 1)
        ≤ t + 63 + cfg.heartBeatOwnTimeout
    rw [Member.deadline] at hholding
    split at hholding <;> split <;> omega
  · exact fun hh => h.owner (hbefore (hafter ▸ hh))
  · intro hex
    exact (h.holder hex).imp_right fun hm => by rw [hnotMarked] at hm; cases hm
  · intro hdead
    exact (h.lost hdead).imp_right fun hm => hm.imp_left fun hm => by rw [hnotMarked] at hm; cases hm

theorem not_holds_of_not (h : c.hasExclusiveness = false) : c.holds = false := by
  rw [Member.holds, h, Bool.false_and]

/-- `mark_as_exclusive` begins. -/
theorem Timely.markBegin (h : Timely cfg now r c) (hact : c.activity = .free)
    (hnot : c.hasExclusiveness = false) :
    Timely cfg now r { c with activity := .marking now } := by
  obtain ⟨hrecord, hle⟩ := h.free hact
  have hnotMarked : c.isMarked = false := by simp [Member.isMarked, hact]
  have hholds : ({ c with activity := .marking now } : Member).holds = false :=
    not_holds_of_not hnot
  refine ⟨hrecord, le_rfl, hle, le_rfl, h.watched, h.asleep, h.active, fun _ => hnot, ?_, ?_, ?_,
    ?_, ?_⟩
  · intro hhas
    exact absurd (hnot.symm.trans hhas) nofun
  · intro hh
    exact absurd (hholds.symm.trans hh) nofun
  · intro hh
    exact absurd (hholds.symm.trans hh) nofun
  · intro hex
    exact (h.holder hex).imp_right fun hm => by rw [hnotMarked] at hm; cases hm
  · intro hdead
    exact (h.lost hdead).imp_right fun hm => hm.imp_left fun hm => by rw [hnotMarked] at hm; cases hm

/-- It fails. -/
theorem Timely.markFail (h : Timely cfg now r c) {t : Nat} (hact : c.activity = .marking t) :
    Timely cfg now r { c with activity := .free } := by
  have hnot := h.marks ⟨t, Or.inl hact⟩
  have hwritten : c.written = c.dbLastHeartBeat := by rw [Member.written, hact]
  have hrecord := h.record
  have hle := h.written_le.trans h.next_le
  rw [hwritten] at hrecord hle
  have hnotMarked : c.isMarked = false := by simp [Member.isMarked, hact]
  have hholds : ({ c with activity := .free } : Member).holds = false := not_holds_of_not hnot
  refine ⟨hrecord, le_rfl, hle, le_rfl, h.watched, h.asleep, h.active, ?_, ?_, ?_, ?_, ?_, ?_⟩
  · rintro ⟨t', ht | ht⟩ <;> cases ht
  · intro hhas
    exact absurd (hnot.symm.trans hhas) nofun
  · intro hh
    exact absurd (hholds.symm.trans hh) nofun
  · intro hh
    exact absurd (hholds.symm.trans hh) nofun
  · intro hex
    exact (h.holder hex).imp_right fun hm => by rw [hnotMarked] at hm; cases hm
  · intro hdead
    exact (h.lost hdead).imp_right fun hm => hm.imp_left fun hm => by rw [hnotMarked] at hm; cases hm

/-- It is committed. -/
theorem Timely.markCommit (h : Timely cfg now r c) {t : Nat} (hact : c.activity = .marking t) :
    Timely cfg now { r with active := true, exclusive := true, lastHeartBeat := t }
      { c with activity := .marked t } := by
  have hnot := h.marks ⟨t, Or.inl hact⟩
  have hwritten : c.written = c.dbLastHeartBeat := by rw [Member.written, hact]
  have hnext : c.nextBeat now = t := by rw [Member.nextBeat, hact]
  have hle := h.written_le
  have hnow := h.next_le
  rw [hwritten, hnext] at hle
  rw [hnext] at hnow
  have hholds : ({ c with activity := .marked t } : Member).holds = false := not_holds_of_not hnot
  refine ⟨rfl, hle, hnow, le_rfl, h.watched, h.asleep, h.active, fun _ => hnot, ?_, ?_, ?_,
    fun _ => Or.inr rfl, fun _ => Or.inr (Or.inl rfl)⟩
  · intro hhas
    exact absurd (hnot.symm.trans hhas) nofun
  · intro hh
    exact absurd (hholds.symm.trans hh) nofun
  · intro hh
    exact absurd (hholds.symm.trans hh) nofun

/-- The member is exclusive, and has to beat. -/
theorem Timely.markEnd (h : Timely cfg now r c) {t : Nat} (hact : c.activity = .marked t) :
    Timely cfg now r (c.afterMark t) := by
  have hwritten : c.written = t := by rw [Member.written, hact]
  have hrecord := h.record
  have hle := h.last_le
  have hnow := h.written_le.trans h.next_le
  rw [hwritten] at hrecord hle hnow
  have hholds : (c.afterMark t).holds = false := by
    rw [holds_free rfl]
    rfl
  refine ⟨hrecord, le_rfl, hnow, le_rfl, h.watched.trans hle, h.asleep, fun _ => rfl, ?_, ?_, ?_,
    ?_, fun _ => Or.inl rfl, fun _ => Or.inl rfl⟩
  · rintro ⟨t', ht | ht⟩ <;> cases ht
  · intro _ _
    have hasleep := h.asleep
    have hwatched := h.watched
    show (if c.heartBeatTime = t then c.sleepUntil + 1
      else max (t + 62 + cfg.heartBeatOwnTimeout) (c.sleepUntil + 1) + 1)
        ≤ max (t + 63 + cfg.heartBeatOwnTimeout) (now + 2)
    split <;> omega
  · intro hh
    exact absurd (hholds.symm.trans hh) nofun
  · intro hh
    exact absurd (hholds.symm.trans hh) nofun

/-- The watchdog thread goes on: the deadline does not become later. -/
theorem Timely.wake (h : Timely cfg now r c) (hlate : now ≤ c.sleepUntil + 1) {c' : Member}
    (hwake : c.wake cfg now = some c') : Timely cfg now r c' := by
  rw [Member.wake] at hwake
  split at hwake
  · cases hwake
  rename_i hgoes
  have hsleep : wakeTime cfg c.dbLastHeartBeat now
      = max (c.dbLastHeartBeat + 62 + cfg.heartBeatOwnTimeout) now := by
    simp only [wakeTime, heartBeatPeriod]
    omega
  have hdeadline : c.isActive = true → ({ c with
      heartBeatTime := c.dbLastHeartBeat
      sleepUntil := wakeTime cfg c.dbLastHeartBeat now } : Member).deadline cfg
        ≤ c.deadline cfg := by
    intro hactive
    have hne : c.heartBeatTime ≠ c.dbLastHeartBeat := by
      intro heq
      exact hgoes ⟨hactive, heq.symm⟩
    rw [Member.deadline, Member.deadline, if_pos rfl, if_neg hne]
    show wakeTime cfg c.dbLastHeartBeat now + 1 ≤ _
    omega
  cases hwake
  refine ⟨h.record, h.last_le, h.written_le, h.next_le, le_rfl, hsleep.le, h.active, h.marks, ?_,
    ?_, h.owner, h.holder, h.lost⟩
  · intro hhas hnot
    exact (hdeadline (h.active hhas)).trans (h.confirming hhas hnot)
  · intro hh
    have hhas : c.hasExclusiveness = true := by
      have hh' : c.holds = true := hh
      rw [Member.holds, Bool.and_eq_true] at hh'
      exact hh'.1
    have hle := hdeadline (h.active hhas)
    exact (h.holding hh).imp hle.trans fun hor => ⟨hor.1, hle.trans hor.2⟩

/-- Reading records does not touch what is remembered of the own one. -/
theorem Timely.select (h : Timely cfg now r c) (nowBeforeSelect : Nat) :
    Timely cfg now r { c with nowBeforeSelect := nowBeforeSelect } :=
  ⟨h.record, h.last_le, h.written_le, h.next_le, h.watched, h.asleep, h.active, h.marks,
    h.confirming, h.holding, h.owner, h.holder, h.lost⟩

theorem Timely.check (h : Timely cfg now r c) (other reopenTime : Nat) (r' : Record) :
    Timely cfg now r (c.check cfg other reopenTime now r') :=
  ⟨h.record, h.last_le, h.written_le, h.next_le, h.watched, h.asleep, h.active, h.marks,
    h.confirming, h.holding, h.owner, h.holder, h.lost⟩

/-! ## The views of the other members -/

/-- What a view says of the record's owner, by the clocks of both. -/
structure Seen (cfg : Configuration) (mine theirs : ℚ) (k : ClusterMember) : Prop where
  detected : k.lastHeartBeatDetected ≠ 0 →
    (k.dbLastHeartBeat : ℚ) + mine < k.lastHeartBeatDetected + theirs
  dead : k.isDead = true → (k.dbLastHeartBeat : ℚ) + 61 + cfg.heartBeatTimeout < theirs

/-- Both clocks run at the same rate. -/
theorem Seen.later {mine theirs : ℚ} {k : ClusterMember} (h : Seen cfg mine theirs k) {δ : ℚ}
    (hδ : 0 ≤ δ) : Seen cfg (mine + δ) (theirs + δ) k where
  detected := by
    intro hne
    have hdet := h.detected hne
    linarith
  dead := by
    intro hdead
    have hlong := h.dead hdead
    linarith

/-- A record is read. -/
theorem Seen.read {mine theirs : ℚ} {k : ClusterMember} (h : Seen cfg mine theirs k)
    {reopenTime nowBeforeSelect : Nat} (hbefore : (nowBeforeSelect : ℚ) ≤ mine)
    (hnow : mine < now + 1) (hpast : (r.lastHeartBeat : ℚ) ≤ theirs)
    (hdead : r.dead = true → (r.lastHeartBeat : ℚ) + 61 + cfg.heartBeatTimeout < theirs) :
    Seen cfg mine theirs
      (checkHeartBeat cfg false reopenTime nowBeforeSelect now r.row k).2 := by
  have hlast : (checkHeartBeat cfg false reopenTime nowBeforeSelect now r.row k).2.dbLastHeartBeat
      = r.lastHeartBeat := rfl
  have hrow : r.row.dead = r.dead := rfl
  obtain ⟨hsame, hdet, hwhy⟩ | ⟨hdet, hwhy⟩ :=
    checkHeartBeat_cases cfg reopenTime nowBeforeSelect now r.row k
  · refine ⟨?_, ?_⟩
    · intro hne
      rw [hsame, hdet]
      exact h.detected (hdet ▸ hne)
    · intro hd
      obtain hold | hmark | ⟨hne, hover⟩ := hwhy hd
      · rw [hsame]
        exact h.dead hold
      · rw [hlast]
        exact hdead (hrow ▸ hmark)
      · -- overdue since it was first detected
        have hdetected := h.detected hne
        have hcast : ((k.lastHeartBeatDetected + heartBeatPeriod + cfg.heartBeatTimeout + 1 : ℕ) : ℚ)
            ≤ nowBeforeSelect := by exact_mod_cast hover
        rw [hsame]
        push_cast [heartBeatPeriod] at hcast
        linarith
  · refine ⟨?_, ?_⟩
    · intro _
      rw [hdet, hlast]
      push_cast
      linarith
    · intro hd
      rw [hlast]
      exact hdead (hrow ▸ hwhy hd)

theorem seen_newMember (mine theirs : ℚ) : Seen cfg mine theirs newMember where
  detected := by
    intro h
    exact absurd rfl h
  dead := nofun

/-! ## The invariant -/

theorem clock_nonneg (offset : Nat → ℚ≥0) (s : System) (m : Nat) : 0 ≤ clock offset s m := by
  rw [clock]
  positivity

theorem second_le (offset : Nat → ℚ≥0) (s : System) (m : Nat) :
    (second offset s m : ℚ) ≤ clock offset s m :=
  Nat.floor_le (clock_nonneg offset s m)

theorem clock_lt (offset : Nat → ℚ≥0) (s : System) (m : Nat) :
    clock offset s m < second offset s m + 1 :=
  Nat.lt_floor_add_one _

/-- The records: what they show is past, a member marked dead has been
    exclusive, and at most one record is exclusive. -/
structure Records (cfg : Configuration) (offset : Nat → ℚ≥0) (s : System) : Prop where
  past : ∀ m r, s.records m = some r → (r.lastHeartBeat : ℚ) ≤ clock offset s m
  dead : ∀ m r, s.records m = some r → r.dead = true → r.exclusive = false ∧ r.active = true ∧
    (r.lastHeartBeat : ℚ) + 61 + cfg.heartBeatTimeout < clock offset s m
  active : ∀ m r, s.records m = some r → r.exclusive = true → r.active = true
  unique : ∀ a b ra rb, s.records a = some ra → s.records b = some rb → ra.exclusive = true →
    rb.exclusive = true → a = b
  empty : s.emptyExclusive = true → ∀ m r, s.records m = some r → r.exclusive = false

/-- What is true of a running member. -/
structure Runs (cfg : Configuration) (offset : Nat → ℚ≥0) (s : System) (m : Nat) (c : Member) :
    Prop where
  timely : ∃ r, s.records m = some r ∧ Timely cfg (second offset s m) r c
  inTime : clock offset s m ≤ c.sleepUntil + 1
  before : (c.nowBeforeSelect : ℚ) ≤ clock offset s m
  seen : ∀ a, Seen cfg (clock offset s m) (clock offset s a) (c.schedulerMap a)

structure Inv (cfg : Configuration) (offset : Nat → ℚ≥0) (s : System) : Prop where
  records : Records cfg offset s
  runs : ∀ m c, s.members m = some c → Runs cfg offset s m c

theorem inv_noMembers : Inv cfg offset noMembers := by
  refine ⟨⟨?_, ?_, ?_, ?_, ?_⟩, ?_⟩
  · intro m r hr
    cases hr
  · intro m r hr
    cases hr
  · intro m r hr
    cases hr
  · intro a b ra rb ha
    cases ha
  · intro _ m r hr
    cases hr
  · intro m c hc
    cases hc

/-- Time passes, while no watchdog thread is late. -/
theorem Inv.pass (h : Inv cfg offset s) {δ : ℚ≥0}
    (hin : InTime offset { s with time := s.time + δ }) :
    Inv cfg offset { s with time := s.time + δ } := by
  have hclock : ∀ m, clock offset { s with time := s.time + δ } m = clock offset s m + δ := by
    intro m
    simp only [clock]
    push_cast
    ring
  have hδ : (0 : ℚ) ≤ δ := δ.coe_nonneg
  have hsecond : ∀ m, second offset s m ≤ second offset { s with time := s.time + δ } m := by
    intro m
    rw [second, second, hclock]
    exact Nat.floor_mono (le_add_of_nonneg_right hδ)
  refine ⟨⟨?_, ?_, h.records.active, h.records.unique, h.records.empty⟩, ?_⟩
  · intro m r hr
    rw [hclock]
    exact (h.records.past m r hr).trans (le_add_of_nonneg_right hδ)
  · intro m r hr hd
    obtain ⟨hex, hact, hlong⟩ := h.records.dead m r hr hd
    rw [hclock]
    exact ⟨hex, hact, hlong.trans_le (le_add_of_nonneg_right hδ)⟩
  · intro m c hc
    obtain ⟨⟨r, hr, htimely⟩, -, hbefore, hseen⟩ := h.runs m c hc
    refine ⟨⟨r, hr, htimely.later (hsecond m)⟩, hin m c hc, ?_, ?_⟩
    · rw [hclock]
      exact hbefore.trans (le_add_of_nonneg_right hδ)
    · intro a
      rw [hclock, hclock]
      exact (hseen a).later hδ

/-- A step that changes only the memory of one member. -/
theorem Inv.setMember (h : Inv cfg offset s) {o : Option Member}
    (hown : ∀ c, o = some c → Runs cfg offset s m c) : Inv cfg offset (s.setMember m o) := by
  refine ⟨⟨h.records.past, h.records.dead, h.records.active, h.records.unique, h.records.empty⟩, ?_⟩
  intro n c hc
  have hruns : Runs cfg offset s n c := by
    by_cases hn : n = m
    · subst hn
      rw [System.setMember_members, Function.update_self] at hc
      exact hown c hc
    · rw [System.setMember_members, Function.update_of_ne hn] at hc
      exact h.runs n c hc
  exact ⟨hruns.timely, hruns.inTime, hruns.before, hruns.seen⟩

/-- A step of a member that reads no other record and does not sleep. -/
theorem Inv.setTimely (h : Inv cfg offset s) (hc : s.members m = some c) {c' : Member}
    (htimely : ∀ r, s.records m = some r → Timely cfg (second offset s m) r c →
      Timely cfg (second offset s m) r c')
    (hsame : c'.sleepUntil = c.sleepUntil ∧ c'.nowBeforeSelect = c.nowBeforeSelect ∧
      c'.schedulerMap = c.schedulerMap) : Inv cfg offset (s.setMember m (some c')) := by
  obtain ⟨⟨r, hr, hold⟩, hin, hbefore, hseen⟩ := h.runs m c hc
  refine h.setMember ?_
  intro k hk
  cases hk
  refine ⟨⟨r, hr, htimely r hr hold⟩, ?_, ?_, ?_⟩
  · rw [hsame.1]
    exact hin
  · rw [hsame.2.1]
    exact hbefore
  · rw [hsame.2.2]
    exact hseen

theorem Inv.removeMember (h : Inv cfg offset s) (m : Nat) :
    Inv cfg offset (s.setMember m none) := by
  refine h.setMember ?_
  intro c hc
  cases hc

/-- A step that changes the record of one member, while the memories stay. -/
theorem Inv.setRecord (h : Inv cfg offset s) {r r' : Record} (hr : s.records m = some r)
    (hrecords : Records cfg offset (s.setRecord m (some r')))
    (hown : ∀ c, s.members m = some c → Timely cfg (second offset s m) r c →
      Timely cfg (second offset s m) r' c) : Inv cfg offset (s.setRecord m (some r')) := by
  refine ⟨hrecords, ?_⟩
  intro n c hc
  obtain ⟨⟨rn, hrn, htimely⟩, hin, hbefore, hseen⟩ := h.runs n c hc
  refine ⟨?_, hin, hbefore, hseen⟩
  by_cases hn : n = m
  · subst hn
    rw [hr] at hrn
    cases hrn
    refine ⟨r', ?_, hown c hc htimely⟩
    rw [System.setRecord_records, Function.update_self]
  · refine ⟨rn, ?_, htimely⟩
    rw [System.setRecord_records, Function.update_of_ne hn]
    exact hrn

/-- A member that is about to lose its exclusiveness, having been judged dead,
    does not hold it: its watchdog thread would have aborted it. -/
theorem not_holds_of_taken (hsafe : cfg.heartBeatOwnTimeout + 2 ≤ cfg.heartBeatTimeout)
    (h : Inv cfg offset s) (hc : s.members m = some c) {other : Nat} (hr : s.records other = some r)
    (hmay : c.mayTake other r = true) {k : Member} (hk : s.members other = some k) :
    k.holds = false := by
  simp only [Member.mayTake, Bool.and_eq_true, decide_eq_true_eq] at hmay
  obtain ⟨⟨hdead, -⟩, hlast⟩ := hmay
  have hlong := ((h.runs m c hc).seen other).dead hdead
  rw [← hlast] at hlong
  obtain ⟨⟨rk, hrk, htimely⟩, hin, -⟩ := h.runs other k hk
  rw [hr] at hrk
  cases hrk
  refine Bool.eq_false_iff.mpr fun hholds => ?_
  have hdeadline : k.deadline cfg ≤ k.written + 63 + cfg.heartBeatOwnTimeout := by
    obtain h' | ⟨-, h'⟩ := htimely.holding hholds <;> omega
  have hsleep : k.sleepUntil + 1 ≤ k.deadline cfg := by
    rw [Member.deadline]
    split <;> omega
  have hle : k.sleepUntil + 1 ≤ r.lastHeartBeat + 61 + cfg.heartBeatTimeout := by
    rw [htimely.record]
    omega
  have hcast : ((k.sleepUntil + 1 : ℕ) : ℚ) ≤ r.lastHeartBeat + 61 + cfg.heartBeatTimeout := by
    exact_mod_cast hle
  push_cast at hcast
  linarith

/-- The first statement of `mark_as_exclusive` leaves nobody exclusive. -/
theorem Inv.takeFrom (hsafe : cfg.heartBeatOwnTimeout + 2 ≤ cfg.heartBeatTimeout)
    (h : Inv cfg offset s) (hc : s.members m = some c) {other : Option Nat}
    (ht : takeFrom m other s c = some s') : Inv cfg offset s' ∧ s'.members = s.members ∧
      s'.time = s.time ∧ s'.emptyExclusive = false ∧
      ∀ a r, s'.records a = some r → r.exclusive = false := by
  obtain _ | a := other
  · simp only [ClusterWatchdog.takeFrom] at ht
    split at ht
    · rename_i hempty
      cases ht
      have hnone := h.records.empty hempty
      refine ⟨⟨⟨h.records.past, h.records.dead, h.records.active, h.records.unique, nofun⟩, ?_⟩,
        rfl, rfl, rfl, hnone⟩
      intro n k hk
      obtain ⟨htimely, hin, hbefore, hseen⟩ := h.runs n k hk
      exact ⟨htimely, hin, hbefore, hseen⟩
    · cases ht
  · simp only [ClusterWatchdog.takeFrom] at ht
    split at ht
    · cases ht
    obtain ⟨r, hr, rfl⟩ := Option.map_eq_some_iff.mp ht
    obtain ⟨hr, hmay⟩ := Option.filter_eq_some_iff.mp hr
    have hmay' := hmay
    simp only [Member.mayTake, Bool.and_eq_true, decide_eq_true_eq] at hmay'
    obtain ⟨⟨hdead, hex⟩, hlast⟩ := hmay'
    have hlong := ((h.runs m c hc).seen a).dead hdead
    rw [← hlast] at hlong
    have hnotEmpty : s.emptyExclusive = false := by
      refine Bool.eq_false_iff.mpr fun hempty => ?_
      rw [h.records.empty hempty a r hr] at hex
      cases hex
    -- the records of the others are not exclusive
    have hrecord : ∀ b rb, (s.setRecord a (some { r with
        exclusive := false, dead := r.dead || !(c.schedulerMap a).isDbDead })).records b = some rb →
        rb.exclusive = false ∧ (b = a ∧ rb = { r with
          exclusive := false, dead := r.dead || !(c.schedulerMap a).isDbDead } ∨
          s.records b = some rb) := by
      intro b rb hb
      rw [System.setRecord_records] at hb
      by_cases hba : b = a
      · subst hba
        rw [Function.update_self] at hb
        cases hb
        exact ⟨rfl, Or.inl ⟨rfl, rfl⟩⟩
      · rw [Function.update_of_ne hba] at hb
        refine ⟨?_, Or.inr hb⟩
        exact Bool.eq_false_iff.mpr fun hexb => hba (h.records.unique b a rb r hb hr hexb hex)
    refine ⟨h.setRecord hr ?_ ?_, rfl, rfl, hnotEmpty, fun b rb hb => (hrecord b rb hb).1⟩
    · refine ⟨?_, ?_, ?_, ?_, ?_⟩
      · intro b rb hb
        obtain ⟨-, ⟨rfl, rfl⟩ | hold⟩ := hrecord b rb hb
        · exact h.records.past b r hr
        · exact h.records.past b rb hold
      · intro b rb hb hd
        obtain ⟨hexb, ⟨rfl, rfl⟩ | hold⟩ := hrecord b rb hb
        · exact ⟨rfl, h.records.active b r hr hex, hlong⟩
        · exact h.records.dead b rb hold hd
      · intro b rb hb hexb
        exact absurd ((hrecord b rb hb).1.symm.trans hexb) nofun
      · intro b b' rb rb' hb _ hexb
        exact absurd ((hrecord b rb hb).1.symm.trans hexb) nofun
      · exact fun _ b rb hb => (hrecord b rb hb).1
    · intro k hk htimely
      have hnot := not_holds_of_taken hsafe h hc hr hmay hk
      refine htimely.of_record rfl ?_ nofun ?_
      · intro hholds
        exact absurd (hnot.symm.trans hholds) nofun
      · intro _
        exact (htimely.holder hex).imp_right Or.inl

/-- A transaction of a member on its own record. -/
theorem Inv.commit (h : Inv cfg offset s) (hc : s.members m = some c) (hr : s.records m = some r)
    {r' : Record} {c' : Member} (hrecords : Records cfg offset (s.setRecord m (some r')))
    (htimely : Timely cfg (second offset s m) r c → Timely cfg (second offset s m) r' c')
    (hsame : c'.sleepUntil = c.sleepUntil ∧ c'.nowBeforeSelect = c.nowBeforeSelect ∧
      c'.schedulerMap = c.schedulerMap) :
    Inv cfg offset ((s.setRecord m (some r')).setMember m (some c')) := by
  refine ⟨⟨hrecords.past, hrecords.dead, hrecords.active, hrecords.unique, hrecords.empty⟩, ?_⟩
  intro n k hk
  rw [System.setMember_members] at hk
  by_cases hn : n = m
  · subst hn
    rw [Function.update_self] at hk
    cases hk
    obtain ⟨⟨rn, hrn, hold⟩, hin, hbefore, hseen⟩ := h.runs n c hc
    rw [hr] at hrn
    cases hrn
    refine ⟨⟨r', Function.update_self .., htimely hold⟩, ?_, ?_, ?_⟩
    · rw [hsame.1]
      exact hin
    · rw [hsame.2.1]
      exact hbefore
    · rw [hsame.2.2]
      exact hseen
  · rw [Function.update_of_ne hn] at hk
    obtain ⟨⟨rn, hrn, hold⟩, hin, hbefore, hseen⟩ := h.runs n k hk
    refine ⟨⟨rn, ?_, hold⟩, hin, hbefore, hseen⟩
    exact (Function.update_of_ne hn _ _).trans hrn

/-- A record is written that keeps the facts about the records. -/
theorem Records.setRecord (h : Records cfg offset s) {r' : Record}
    (hpast : (r'.lastHeartBeat : ℚ) ≤ clock offset s m) (hdead : r'.dead = false)
    (hactive : r'.exclusive = true → r'.active = true)
    (hex : r'.exclusive = true → s.emptyExclusive = false ∧
      ∀ a r, a ≠ m → s.records a = some r → r.exclusive = false) :
    Records cfg offset (s.setRecord m (some r')) := by
  have hcases : ∀ a ra, (s.setRecord m (some r')).records a = some ra →
      (a = m ∧ ra = r') ∨ (a ≠ m ∧ s.records a = some ra) := by
    intro a ra ha
    rw [System.setRecord_records] at ha
    by_cases ham : a = m
    · subst ham
      rw [Function.update_self] at ha
      cases ha
      exact Or.inl ⟨rfl, rfl⟩
    · rw [Function.update_of_ne ham] at ha
      exact Or.inr ⟨ham, ha⟩
  refine ⟨?_, ?_, ?_, ?_, ?_⟩
  · intro a ra ha
    obtain ⟨rfl, rfl⟩ | ⟨-, ha⟩ := hcases a ra ha
    · exact hpast
    · exact h.past a ra ha
  · intro a ra ha hd
    obtain ⟨rfl, rfl⟩ | ⟨-, ha⟩ := hcases a ra ha
    · exact absurd (hdead.symm.trans hd) nofun
    · exact h.dead a ra ha hd
  · intro a ra ha hexa
    obtain ⟨rfl, rfl⟩ | ⟨-, ha⟩ := hcases a ra ha
    · exact hactive hexa
    · exact h.active a ra ha hexa
  · intro a b ra rb ha hb hexa hexb
    obtain ⟨rfl, rfl⟩ | ⟨ham, hra⟩ := hcases a ra ha
    · obtain ⟨rfl, rfl⟩ | ⟨hbm, hrb⟩ := hcases b rb hb
      · rfl
      · exact absurd (((hex hexa).2 b rb hbm hrb).symm.trans hexb) nofun
    · obtain ⟨rfl, rfl⟩ | ⟨hbm, hrb⟩ := hcases b rb hb
      · exact absurd (((hex hexb).2 a ra ham hra).symm.trans hexa) nofun
      · exact h.unique a b ra rb hra hrb hexa hexb
  · intro hempty a ra ha
    obtain ⟨rfl, rfl⟩ | ⟨-, ha⟩ := hcases a ra ha
    · refine Bool.eq_false_iff.mpr fun hexa => ?_
      exact absurd ((hex hexa).1.symm.trans hempty) nofun
    · exact h.empty hempty a ra ha

/-- The clock has been read before. -/
theorem nextBeat_past {t : Nat} (hnext : c.nextBeat (second offset s m) = t)
    (h : Timely cfg (second offset s m) r c) : (t : ℚ) ≤ clock offset s m := by
  have hle := h.next_le
  rw [hnext] at hle
  have hcast : (t : ℚ) ≤ second offset s m := by exact_mod_cast hle
  exact hcast.trans (second_le offset s m)

/-- The second statement of `mark_as_exclusive`. -/
theorem Inv.giveTo (h : Inv cfg offset s) (hc : s.members m = some c) {t : Nat}
    (hact : c.activity = .marking t) (hempty : s.emptyExclusive = false)
    (hnone : ∀ a r, s.records a = some r → r.exclusive = false) (hg : giveTo m t s c = some s') :
    Inv cfg offset s' := by
  obtain ⟨r, hr, rfl⟩ := Option.map_eq_some_iff.mp hg
  obtain ⟨hr, hcond⟩ := Option.filter_eq_some_iff.mp hr
  simp only [Bool.and_eq_true, Bool.not_eq_true', decide_eq_true_eq] at hcond
  obtain ⟨⟨rm, hrm, htimely⟩, -⟩ := h.runs m c hc
  rw [hr] at hrm
  cases hrm
  have hnot := htimely.marks ⟨t, Or.inl hact⟩
  -- a record marked dead is active, and its member knows that it is not
  have hdead : r.dead = false := by
    refine Bool.eq_false_iff.mpr fun hd => ?_
    have hactive := (h.records.dead m r hr hd).2.1
    obtain hhas | hmarked | hinactive := htimely.lost hd
    · exact absurd (hnot.symm.trans hhas) nofun
    · simp [Member.isMarked, hact] at hmarked
    · rw [hcond.2, hinactive] at hactive
      cases hactive
  have hpast := nextBeat_past (by rw [Member.nextBeat, hact]) htimely
  refine h.commit hc hr ?_ (fun ht => ht.markCommit hact) ⟨rfl, rfl, rfl⟩
  exact h.records.setRecord hpast hdead (fun _ => rfl) fun _ => ⟨hempty, fun a ra _ => hnone a ra⟩

theorem heartbeat_owned {t : Nat} (hr : s.records m = some r) (howns : c.ownsRecord r = true) :
    heartbeatMemberRecord m t s c = (s.setRecord m (some { r with lastHeartBeat := t })).setMember m
      (some { c with activity := .beaten t }) := by
  rw [heartbeatMemberRecord, hr, Option.filter_some, if_pos howns]

/-- The transaction of a heart beat. -/
theorem Inv.heartbeat (h : Inv cfg offset s) (hc : s.members m = some c) {t : Nat}
    (hact : c.activity = .beating t) : Inv cfg offset (heartbeatMemberRecord m t s c) := by
  obtain ⟨⟨r, hr, htimely⟩, -⟩ := h.runs m c hc
  cases howns : c.ownsRecord r with
  | true =>
      obtain ⟨-, hactive, hex⟩ := ownsRecord_iff.mp howns
      have hdead : r.dead = false := by
        refine Bool.eq_false_iff.mpr fun hd => ?_
        obtain ⟨hnot, hisActive, -⟩ := h.records.dead m r hr hd
        obtain hhas | hmarked | hinactive := htimely.lost hd
        · exact absurd (hnot.symm.trans (hex.trans hhas)) nofun
        · simp [Member.isMarked, hact] at hmarked
        · exact absurd (hinactive.symm.trans (hactive.symm.trans hisActive)) nofun
      have hpast := nextBeat_past (by rw [Member.nextBeat, hact]) htimely
      rw [heartbeat_owned hr howns]
      refine h.commit hc hr ?_ (fun ht => ht.beatCommit hact howns hdead) ⟨rfl, rfl, rfl⟩
      refine h.records.setRecord hpast hdead (h.records.active m r hr) ?_
      intro hexr
      refine ⟨?_, ?_⟩
      · refine Bool.eq_false_iff.mpr fun hempty => ?_
        exact absurd ((h.records.empty hempty m r hr).symm.trans hexr) nofun
      · intro a ra ha hra
        exact Bool.eq_false_iff.mpr fun hexa => ha (h.records.unique a m ra r hra hr hexa hexr)
  | false =>
      have heq : heartbeatMemberRecord m t s c = s.setMember m (some c.lost) := by
        rw [heartbeatMemberRecord, hr, Option.filter_some, if_neg (by rw [howns]; nofun)]
      rw [heq]
      refine h.setTimely hc ?_ ⟨rfl, rfl, rfl⟩
      intro r' hr' ht
      rw [hr] at hr'
      cases hr'
      exact ht.lose hact (h.records.active m r hr) howns

/-- The record of a member that is not running is replaced, or deleted; the
    empty record becomes exclusive if it was. -/
theorem Inv.replace (h : Inv cfg offset s) {o : Option Record} {k : Option Member}
    (ho : ∀ r, o = some r → r.exclusive = false ∧ r.dead = false ∧
      (r.lastHeartBeat : ℚ) ≤ clock offset s m)
    (hk : ∀ c, k = some c → Runs cfg offset (s.setRecord m o) m c)
    (hs : s' = { (s.setRecord m o).setMember m k with
      emptyExclusive := s.emptyExclusive || (s.records m).any fun r => r.exclusive }) :
    Inv cfg offset s' := by
  subst hs
  have hcases : ∀ a ra, (Function.update s.records m o) a = some ra →
      (a = m ∧ o = some ra) ∨ (a ≠ m ∧ s.records a = some ra) := by
    intro a ra ha
    by_cases ham : a = m
    · subst ham
      rw [Function.update_self] at ha
      exact Or.inl ⟨rfl, ha⟩
    · rw [Function.update_of_ne ham] at ha
      exact Or.inr ⟨ham, ha⟩
  refine ⟨⟨?_, ?_, ?_, ?_, ?_⟩, ?_⟩
  · intro a ra ha
    obtain ⟨rfl, hra⟩ | ⟨-, hra⟩ := hcases a ra ha
    · exact (ho ra hra).2.2
    · exact h.records.past a ra hra
  · intro a ra ha hd
    obtain ⟨rfl, hra⟩ | ⟨-, hra⟩ := hcases a ra ha
    · exact absurd ((ho ra hra).2.1.symm.trans hd) nofun
    · exact h.records.dead a ra hra hd
  · intro a ra ha hex
    obtain ⟨rfl, hra⟩ | ⟨-, hra⟩ := hcases a ra ha
    · exact absurd ((ho ra hra).1.symm.trans hex) nofun
    · exact h.records.active a ra hra hex
  · intro a b ra rb ha hb hexa hexb
    obtain ⟨rfl, hra⟩ | ⟨-, hra⟩ := hcases a ra ha
    · exact absurd ((ho ra hra).1.symm.trans hexa) nofun
    · obtain ⟨rfl, hrb⟩ | ⟨-, hrb⟩ := hcases b rb hb
      · exact absurd ((ho rb hrb).1.symm.trans hexb) nofun
      · exact h.records.unique a b ra rb hra hrb hexa hexb
  · intro hempty a ra ha
    obtain ⟨rfl, hra⟩ | ⟨ham, hra⟩ := hcases a ra ha
    · exact (ho ra hra).1
    · simp only [Bool.or_eq_true, Option.any_eq_true] at hempty
      refine Bool.eq_false_iff.mpr fun hexa => ?_
      obtain hempty | ⟨rm, hrm, hexm⟩ := hempty
      · exact absurd ((h.records.empty hempty a ra hra).symm.trans hexa) nofun
      · exact ham (h.records.unique a m ra rm hra hrm hexa hexm)
  · intro n c hc
    simp only [System.setMember_members] at hc
    by_cases hn : n = m
    · subst hn
      rw [Function.update_self] at hc
      obtain ⟨htimely, hin, hbefore, hseen⟩ := hk c hc
      exact ⟨htimely, hin, hbefore, hseen⟩
    · rw [Function.update_of_ne hn] at hc
      obtain ⟨⟨r, hr, htimely⟩, hin, hbefore, hseen⟩ := h.runs n c hc
      exact ⟨⟨r, (Function.update_of_ne hn _ _).trans hr, htimely⟩, hin, hbefore, hseen⟩

theorem Inv.close (h : Inv cfg offset s) (m : Nat) : Inv cfg offset (close m s) :=
  h.replace (o := none) (k := none) nofun nofun rfl

theorem Inv.activate (h : Inv cfg offset s) (hle : now ≤ second offset s m) :
    Inv cfg offset (activate cfg m now (second offset s m) s) := by
  refine h.replace ?_ ?_ rfl
  · intro r hr
    cases hr
    have hcast : (now : ℚ) ≤ second offset s m := by exact_mod_cast hle
    exact ⟨rfl, rfl, hcast.trans (second_le offset s m)⟩
  · intro c hc
    cases hc
    refine ⟨⟨_, Function.update_self .., timely_activate _ hle⟩, ?_, ?_, ?_⟩
    · have hcast : ((second offset s m : ℕ) : ℚ) ≤ (wakeTime cfg now (second offset s m) : ℕ) := by
        exact_mod_cast le_max_right _ _
      have hlt := clock_lt offset s m
      show clock offset s m ≤ (wakeTime cfg now (second offset s m) : ℕ) + 1
      linarith
    · exact_mod_cast clock_nonneg offset s m
    · exact fun a => seen_newMember _ _

/-- The watchdog thread sleeps again. -/
theorem Inv.wake (h : Inv cfg offset s) (hc : s.members m = some c) :
    Inv cfg offset (s.setMember m (c.wake cfg (second offset s m))) := by
  obtain ⟨⟨r, hr, htimely⟩, hin, hbefore, hseen⟩ := h.runs m c hc
  refine h.setMember ?_
  intro c' hwake
  have hlate : second offset s m ≤ c.sleepUntil + 1 := by
    have hcast : ((second offset s m : ℕ) : ℚ) ≤ ((c.sleepUntil + 1 : ℕ) : ℚ) := by
      push_cast
      exact (second_le offset s m).trans hin
    exact_mod_cast hcast
  have htimely' := htimely.wake hlate hwake
  rw [Member.wake] at hwake
  split at hwake
  · cases hwake
  cases hwake
  refine ⟨⟨r, hr, htimely'⟩, ?_, hbefore, hseen⟩
  have hcast : ((second offset s m : ℕ) : ℚ)
      ≤ (wakeTime cfg c.dbLastHeartBeat (second offset s m) : ℕ) := by
    exact_mod_cast le_max_right _ _
  have hlt := clock_lt offset s m
  show clock offset s m ≤ (wakeTime cfg c.dbLastHeartBeat (second offset s m) : ℕ) + 1
  linarith

/-- A record is read. -/
theorem Inv.check (h : Inv cfg offset s) (hc : s.members m = some c) {other : Nat}
    (hr : s.records other = some r) (reopenTime : Nat) :
    Inv cfg offset (s.setMember m (some (c.check cfg other reopenTime (second offset s m) r))) := by
  obtain ⟨⟨rm, hrm, htimely⟩, hin, hbefore, hseen⟩ := h.runs m c hc
  refine h.setMember ?_
  intro c' hc'
  cases hc'
  refine ⟨⟨rm, hrm, htimely.check _ _ _⟩, hin, hbefore, ?_⟩
  intro a
  by_cases ha : a = other
  · subst ha
    simp only [Member.check, Function.update_self]
    exact (hseen a).read hbefore (clock_lt offset s m) (h.records.past a r hr)
      fun hd => (h.records.dead a r hr hd).2.2
  · simp only [Member.check, Function.update_of_ne ha]
    exact hseen a

/-- Every step keeps the invariant, if the timeouts are far enough apart. -/
theorem Inv.perform (hsafe : cfg.heartBeatOwnTimeout + 2 ≤ cfg.heartBeatTimeout)
    (h : Inv cfg offset s) {op : Op} (hc : s.members op.actor = some c)
    (hp : perform cfg (second offset s op.actor) s c op = some s') : Inv cfg offset s' := by
  cases op with
  | pass δ => cases hp
  | start m now => cases hp
  | crash m =>
      cases hp
      exact h.removeMember m
  | close m =>
      simp only [ClusterWatchdog.perform] at hp
      split at hp
      · cases hp
        exact h.close m
      · cases hp
  | beatBegin m =>
      simp only [ClusterWatchdog.perform] at hp
      split at hp
      · cases hp
        exact h.setTimely hc (fun _ _ ht => ht.beatBegin ‹_›) ⟨rfl, rfl, rfl⟩
      · cases hp
  | beatCommit m =>
      simp only [ClusterWatchdog.perform] at hp
      split at hp
      · cases hp
        exact h.heartbeat hc ‹_›
      · cases hp
  | beatEnd m =>
      simp only [ClusterWatchdog.perform] at hp
      split at hp
      · cases hp
        exact h.setTimely hc (fun _ _ ht => ht.beatEnd ‹_›) ⟨rfl, rfl, rfl⟩
      · cases hp
  | select m =>
      simp only [ClusterWatchdog.perform] at hp
      split at hp
      · cases hp
        obtain ⟨⟨r, hr, htimely⟩, hin, -, hseen⟩ := h.runs m c hc
        refine h.setMember ?_
        intro c' hc'
        cases hc'
        exact ⟨⟨r, hr, htimely.select _⟩, hin, second_le offset s m, hseen⟩
      · cases hp
  | read m other reopenTime =>
      simp only [ClusterWatchdog.perform] at hp
      split at hp
      · obtain ⟨r, hr, rfl⟩ := Option.map_eq_some_iff.mp hp
        exact h.check hc hr reopenTime
      · cases hp
  | markBegin m =>
      simp only [ClusterWatchdog.perform] at hp
      split at hp
      · rename_i hwhen
        cases hp
        exact h.setTimely hc (fun _ _ ht => ht.markBegin hwhen.1 hwhen.2) ⟨rfl, rfl, rfl⟩
      · cases hp
  | markCommit m other =>
      simp only [ClusterWatchdog.perform] at hp
      split at hp
      · obtain ⟨s₁, ht, hg⟩ := Option.bind_eq_some_iff.mp hp
        obtain ⟨hinv, hmembers, -, hempty, hnone⟩ := h.takeFrom hsafe hc ht
        exact hinv.giveTo ((congrFun hmembers m).trans hc) ‹_› hempty hnone hg
      · cases hp
  | markFail m =>
      simp only [ClusterWatchdog.perform] at hp
      split at hp
      · cases hp
        exact h.setTimely hc (fun _ _ ht => ht.markFail ‹_›) ⟨rfl, rfl, rfl⟩
      · cases hp
  | markEnd m =>
      simp only [ClusterWatchdog.perform] at hp
      split at hp
      · cases hp
        exact h.setTimely hc (fun _ _ ht => ht.markEnd ‹_›) ⟨rfl, rfl, rfl⟩
      · cases hp
  | wake m =>
      simp only [ClusterWatchdog.perform] at hp
      split at hp
      · cases hp
        exact h.wake hc
      · cases hp

theorem Inv.step (hsafe : cfg.heartBeatOwnTimeout + 2 ≤ cfg.heartBeatTimeout)
    (h : Inv cfg offset s) {op : Op} (hstep : Step cfg offset s op s') : Inv cfg offset s' := by
  by_cases hpass : ∃ δ, op = .pass δ
  · obtain ⟨δ, rfl⟩ := hpass
    obtain ⟨rfl, hin⟩ := hstep
    exact h.pass hin
  have hstep : ClusterWatchdog.step cfg offset s op = some s' := by
    cases op with
    | pass δ => exact absurd ⟨δ, rfl⟩ hpass
    | _ => exact hstep
  rw [ClusterWatchdog.step.eq_def] at hstep
  split at hstep
  · exact h.perform hsafe ‹_› hstep
  · split at hstep
    · split at hstep
      · cases hstep
        exact h.activate ‹_›
      · cases hstep
    · cases hstep

theorem Reachable.inv (hsafe : cfg.heartBeatOwnTimeout + 2 ≤ cfg.heartBeatTimeout)
    (h : Reachable cfg offset s) : Inv cfg offset s := by
  refine Reach.invariant ?_ ?_ h
  · rintro s rfl
    exact inv_noMembers
  · intro s op s' hinv hstep
    exact hinv.step hsafe hstep

/-! ## The law of the watchdog -/

/-- No two members work exclusively at the same time; and no member works
    exclusively when another one, having declared it dead, takes its
    exclusiveness. -/
def ExclusiveAlone (cfg : Configuration) (offset : Nat → ℚ≥0) (s : System) : Prop :=
  (∀ a b, WorksExclusively s a → WorksExclusively s b → a = b) ∧
    ∀ b a s', step cfg offset s (.markCommit b (some a)) = some s' → ¬ WorksExclusively s a

theorem Inv.holder_exclusive (h : Inv cfg offset s) (hw : WorksExclusively s m) :
    ∃ r, s.records m = some r ∧ r.exclusive = true := by
  obtain ⟨c, hc, hhas, hret⟩ := hw
  obtain ⟨⟨r, hr, htimely⟩, -⟩ := h.runs m c hc
  refine ⟨r, hr, htimely.owner ?_⟩
  rw [Member.holds, hhas, hret]
  rfl

/-- Only a member that does not work exclusively is declared dead and robbed. -/
theorem Inv.not_works_of_taken (hsafe : cfg.heartBeatOwnTimeout + 2 ≤ cfg.heartBeatTimeout)
    (h : Inv cfg offset s) (hstep : ClusterWatchdog.step cfg offset s (.markCommit b (some a)) = some s') :
    ¬ WorksExclusively s a := by
  rintro ⟨k, hk, hhas, hret⟩
  have hholds : k.holds = true := by
    rw [Member.holds, hhas, hret]
    rfl
  rw [ClusterWatchdog.step.eq_def] at hstep
  split at hstep
  · rename_i c hc
    simp only [ClusterWatchdog.perform] at hstep
    split at hstep
    · obtain ⟨s₁, ht, -⟩ := Option.bind_eq_some_iff.mp hstep
      simp only [ClusterWatchdog.takeFrom] at ht
      split at ht
      · cases ht
      obtain ⟨r, hr, -⟩ := Option.map_eq_some_iff.mp ht
      obtain ⟨hr, hmay⟩ := Option.filter_eq_some_iff.mp hr
      exact absurd ((not_holds_of_taken hsafe h hc hr hmay hk).symm.trans hholds) nofun
    · cases hstep
  · cases hstep

theorem exclusiveAlone_of_safe (hsafe : cfg.heartBeatOwnTimeout + 2 ≤ cfg.heartBeatTimeout)
    (h : Reachable cfg offset s) : ExclusiveAlone cfg offset s := by
  have hinv := Reachable.inv hsafe h
  refine ⟨?_, fun b a s' hstep => hinv.not_works_of_taken hsafe hstep⟩
  intro a b ha hb
  obtain ⟨ra, hra, hexa⟩ := hinv.holder_exclusive ha
  obtain ⟨rb, hrb, hexb⟩ := hinv.holder_exclusive hb
  exact hinv.records.unique a b ra rb hra hrb hexa hexb

/-! ### Two seconds are needed -/

/-- The clock of the member 2 is half a second ahead. -/
def halfAhead (m : Nat) : ℚ≥0 := if m = 2 then 1 / 2 else 0

/-- A new member at the first second. -/
def started (cfg : Configuration) : Member :=
  { dbLastHeartBeat := 1, isActive := false, hasExclusiveness := false, returned := false
    activity := .free, nowBeforeSelect := 0, schedulerMap := fun _ => newMember
    heartBeatTime := 1, sleepUntil := wakeTime cfg 1 1 }

/-- Only the members 1 and 2 are running. -/
structure Duo (cfg : Configuration) (s : System) (t : ℚ≥0) (r₁ r₂ : Record) (c₁ c₂ : Member) :
    Prop where
  reachable : Reachable cfg halfAhead s
  time : s.time = t
  record₁ : s.records 1 = some r₁
  record₂ : s.records 2 = some r₂
  member₁ : s.members 1 = some c₁
  member₂ : s.members 2 = some c₂
  others : ∀ m, m ≠ 1 → m ≠ 2 → s.members m = none

variable {t : ℚ≥0} {r₁ r₂ : Record} {c₁ c₂ : Member}

theorem second_eq {k : Nat} (hle : (k : ℚ) ≤ clock offset s m) (hlt : clock offset s m < k + 1) :
    second offset s m = k :=
  (Nat.floor_eq_iff (clock_nonneg offset s m)).mpr ⟨hle, hlt⟩

/-- A step of a running member. -/
theorem step_of_perform (op : Op) {n : Nat} (hop : op.actor = n) (hc : s.members n = some c)
    (hnow : second offset s n = now) (hp : perform cfg now s c op = some s') :
    Step cfg offset s op s' := by
  subst hop hnow
  cases op with
  | pass δ => cases hp
  | _ =>
      simp only [Step, step]
      rw [hc]
      exact hp

/-- A member is started. -/
theorem step_of_activate {k : Nat} (hnone : s.members m = none) (hnow : second offset s m = k)
    (hle : now ≤ k) : Step cfg offset s (.start m now) (activate cfg m now k s) := by
  simp only [Step, step, Op.actor]
  rw [hnone, hnow]
  exact if_pos hle

/-- A step of the member 1 in its own memory. -/
theorem Duo.step₁ (h : Duo cfg s t r₁ r₂ c₁ c₂) (op : Op) {c' : Member} (hop : op.actor = 1)
    (hnow : second halfAhead s 1 = now)
    (hp : perform cfg now s c₁ op = some (s.setMember 1 (some c'))) :
    Duo cfg (s.setMember 1 (some c')) t r₁ r₂ c' c₂ := by
  refine ⟨h.reachable.next (step_of_perform op hop h.member₁ hnow hp), h.time, h.record₁, h.record₂,
    ?_, ?_, ?_⟩
  · simp
  · simp [h.member₂]
  · intro m h1 h2
    simp [h1, h.others m h1 h2]

/-- A step of the member 2 in its own memory. -/
theorem Duo.step₂ (h : Duo cfg s t r₁ r₂ c₁ c₂) (op : Op) {c' : Member} (hop : op.actor = 2)
    (hnow : second halfAhead s 2 = now)
    (hp : perform cfg now s c₂ op = some (s.setMember 2 (some c'))) :
    Duo cfg (s.setMember 2 (some c')) t r₁ r₂ c₁ c' := by
  refine ⟨h.reachable.next (step_of_perform op hop h.member₂ hnow hp), h.time, h.record₁, h.record₂,
    ?_, ?_, ?_⟩
  · simp [h.member₁]
  · simp
  · intro m h1 h2
    simp [h2, h.others m h1 h2]

/-- A heart beat of the member 1 finds its record. -/
theorem Duo.beat₁ (h : Duo cfg s t r₁ r₂ c₁ c₂) {k : Nat} (hact : c₁.activity = .beating k)
    (howns : c₁.ownsRecord r₁ = true) : ∃ s', Duo cfg s' t { r₁ with lastHeartBeat := k } r₂
      { c₁ with activity := .beaten k } c₂ := by
  have hp : perform cfg (second halfAhead s 1) s c₁ (.beatCommit 1)
      = some ((s.setRecord 1 (some { r₁ with lastHeartBeat := k })).setMember 1
        (some { c₁ with activity := .beaten k })) := by
    simp only [perform, hact]
    rw [heartbeat_owned h.record₁ howns]
  refine ⟨_, h.reachable.next (step_of_perform (.beatCommit 1) rfl h.member₁ rfl hp), h.time, ?_, ?_, ?_, ?_, ?_⟩
  · simp
  · simp [h.record₂]
  · simp
  · simp [h.member₂]
  · intro m h1 h2
    simp [h1, h.others m h1 h2]

/-- A heart beat of the member 2 finds its record. -/
theorem Duo.beat₂ (h : Duo cfg s t r₁ r₂ c₁ c₂) {k : Nat} (hact : c₂.activity = .beating k)
    (howns : c₂.ownsRecord r₂ = true) : ∃ s', Duo cfg s' t r₁ { r₂ with lastHeartBeat := k } c₁
      { c₂ with activity := .beaten k } := by
  have hp : perform cfg (second halfAhead s 2) s c₂ (.beatCommit 2)
      = some ((s.setRecord 2 (some { r₂ with lastHeartBeat := k })).setMember 2
        (some { c₂ with activity := .beaten k })) := by
    simp only [perform, hact]
    rw [heartbeat_owned h.record₂ howns]
  refine ⟨_, h.reachable.next (step_of_perform (.beatCommit 2) rfl h.member₂ rfl hp), h.time, ?_, ?_, ?_, ?_, ?_⟩
  · simp [h.record₁]
  · simp
  · simp [h.member₁]
  · simp
  · intro m h1 h2
    simp [h2, h.others m h1 h2]

theorem giveTo_own {k : Nat} (hr : s.records m = some r) (hex : r.exclusive = false)
    (hactive : r.active = c.isActive) : giveTo m k s c = some ((s.setRecord m (some { r with
      active := true, exclusive := true, lastHeartBeat := k })).setMember m
        (some { c with activity := .marked k })) := by
  have hcond : (!r.exclusive && decide (r.active = c.isActive)) = true := by simp [hex, hactive]
  rw [giveTo, hr, Option.filter_some, if_pos hcond, Option.map_some]

/-- The member 1 takes the exclusiveness from the empty record. -/
theorem Duo.mark₁ (h : Duo cfg s t r₁ r₂ c₁ c₂) {k : Nat} (hact : c₁.activity = .marking k)
    (hempty : s.emptyExclusive = true) (hex : r₁.exclusive = false)
    (hactive : r₁.active = c₁.isActive) :
    ∃ s', Duo cfg s' t { r₁ with active := true, exclusive := true, lastHeartBeat := k } r₂
      { c₁ with activity := .marked k } c₂ := by
  have htake : takeFrom 1 none s c₁ = some { s with emptyExclusive := false } := if_pos hempty
  have hgive := giveTo_own (s := { s with emptyExclusive := false }) (k := k) h.record₁ hex hactive
  have hp : perform cfg (second halfAhead s 1) s c₁ (.markCommit 1 none)
      = giveTo 1 k { s with emptyExclusive := false } c₁ := by
    simp only [perform, hact, htake, Option.bind_some]
  refine ⟨_, h.reachable.next (step_of_perform (.markCommit 1 none) rfl h.member₁ rfl
    (hp.trans hgive)), h.time, ?_, ?_, ?_, ?_, ?_⟩
  · simp
  · simp [h.record₂]
  · simp
  · simp [h.member₂]
  · intro m h1 h2
    simp [h1, h.others m h1 h2]

/-- The member 2 takes the exclusiveness from the member 1. -/
theorem Duo.mark₂ (h : Duo cfg s t r₁ r₂ c₁ c₂) {k : Nat} (hact : c₂.activity = .marking k)
    (hmay : c₂.mayTake 1 r₁ = true) (hex : r₂.exclusive = false)
    (hactive : r₂.active = c₂.isActive) :
    ∃ s' r', Duo cfg s' t r' { r₂ with active := true, exclusive := true, lastHeartBeat := k }
      c₁ { c₂ with activity := .marked k } := by
  have htake : takeFrom 2 (some 1) s c₂ = some (s.setRecord 1 (some { r₁ with
      exclusive := false, dead := r₁.dead || !(c₂.schedulerMap 1).isDbDead })) := by
    simp only [takeFrom, h.record₁, Option.filter_some, if_pos hmay, Option.map_some]
    rfl
  have hrecord : (s.setRecord 1 (some { r₁ with
      exclusive := false, dead := r₁.dead || !(c₂.schedulerMap 1).isDbDead })).records 2
      = some r₂ := by simp [h.record₂]
  have hgive := giveTo_own (k := k) hrecord hex hactive
  have hp : perform cfg (second halfAhead s 2) s c₂ (.markCommit 2 (some 1))
      = giveTo 2 k (s.setRecord 1 (some { r₁ with
        exclusive := false, dead := r₁.dead || !(c₂.schedulerMap 1).isDbDead })) c₂ := by
    simp only [perform, hact, htake, Option.bind_some]
  refine ⟨_, { r₁ with exclusive := false, dead := r₁.dead || !(c₂.schedulerMap 1).isDbDead },
    h.reachable.next (step_of_perform (.markCommit 2 (some 1)) rfl h.member₂ rfl
      (hp.trans hgive)), h.time, ?_, ?_, ?_, ?_, ?_⟩
  · rw [System.setMember_records, System.setRecord_records, System.setRecord_records,
      Function.update_of_ne (by decide), Function.update_self]
  · simp
  · simp [h.member₁]
  · simp
  · intro m h1 h2
    simp [h2, h.others m h1 h2]

/-- The member 2 reads the record of the member 1. -/
theorem Duo.read₂ (h : Duo cfg s t r₁ r₂ c₁ c₂) (hact : c₂.activity = .free)
    (hnow : second halfAhead s 2 = now) :
    ∃ s', Duo cfg s' t r₁ r₂ c₁ (c₂.check cfg 1 0 now r₁) := by
  refine ⟨_, h.step₂ (.read 2 1 0) rfl hnow ?_⟩
  simp only [perform, if_pos hact, h.record₁, Option.map_some]

theorem second_at_one (hs : s.time = 1) (hm : m = 1 ∨ m = 2) : second halfAhead s m = 1 := by
  obtain rfl | rfl := hm
  · exact second_eq (by norm_num [clock, halfAhead, hs]) (by norm_num [clock, halfAhead, hs])
  · exact second_eq (by norm_num [clock, halfAhead, hs]) (by norm_num [clock, halfAhead, hs])

/-- Both members have started in the first second. -/
theorem duo_started (cfg : Configuration) : ∃ s, Duo cfg s 1 ⟨1, false, false, false⟩
    ⟨1, false, false, false⟩ (started cfg) (started cfg) ∧ s.emptyExclusive = true := by
  let s₀ : System := { noMembers with time := 1 }
  have hreach : Reachable cfg halfAhead s₀ := by
    have hstart : Reachable cfg halfAhead noMembers := Reach.start rfl
    have hpass : Step cfg halfAhead noMembers (.pass 1) s₀ := by
      refine ⟨?_, ?_⟩
      · simp [s₀, noMembers]
      · intro m c hc
        cases hc
    exact hstart.next hpass
  have hstart₁ : Step cfg halfAhead s₀ (.start 1 1) (activate cfg 1 1 1 s₀) :=
    step_of_activate rfl (second_at_one rfl (Or.inl rfl)) le_rfl
  have hstart₂ : Step cfg halfAhead (activate cfg 1 1 1 s₀) (.start 2 1)
      (activate cfg 2 1 1 (activate cfg 1 1 1 s₀)) :=
    step_of_activate rfl (second_at_one rfl (Or.inr rfl)) le_rfl
  refine ⟨_, ⟨(hreach.next hstart₁).next hstart₂, rfl, rfl, rfl, rfl, rfl, ?_⟩, rfl⟩
  intro m h1 h2
  simp [activate, s₀, noMembers, h1, h2]

/-- The member 1 becomes exclusive, and beats in the same second. -/
theorem duo_exclusive (cfg : Configuration) : ∃ s, Duo cfg s 1 ⟨1, true, true, false⟩
    ⟨1, false, false, false⟩
    { started cfg with isActive := true, hasExclusiveness := true, returned := true }
    (started cfg) := by
  obtain ⟨s, h, hempty⟩ := duo_started cfg
  have h1 := h.step₁ (.markBegin 1) rfl (second_at_one h.time (Or.inl rfl)) rfl
  obtain ⟨s, h2⟩ := h1.mark₁ rfl hempty rfl rfl
  have h3 := h2.step₁ (.markEnd 1) rfl rfl rfl
  have h4 := h3.step₁ (.beatBegin 1) rfl (second_at_one h3.time (Or.inl rfl)) rfl
  obtain ⟨s, h5⟩ := h4.beat₁ rfl rfl
  exact ⟨_, h5.step₁ (.beatEnd 1) rfl rfl rfl⟩

/-- Half a second before the watchdog thread of the member 1 has to wake. -/
def lastMoment (cfg : Configuration) : ℚ≥0 := 1 + (cfg.heartBeatOwnTimeout + 125 / 2)

theorem clock_lastMoment (hs : s.time = lastMoment cfg) :
    clock halfAhead s 1 = cfg.heartBeatOwnTimeout + 127 / 2 ∧
      clock halfAhead s 2 = cfg.heartBeatOwnTimeout + 64 := by
  simp only [clock, halfAhead, hs, lastMoment]
  push_cast
  refine ⟨?_, ?_⟩ <;> norm_num <;> ring

theorem second_lastMoment (hs : s.time = lastMoment cfg) :
    second halfAhead s 2 = cfg.heartBeatOwnTimeout + 64 := by
  have hclock := (clock_lastMoment hs).2
  refine second_eq ?_ ?_
  · rw [hclock]
    push_cast
    exact le_rfl
  · rw [hclock]
    push_cast
    linarith

theorem started_sleepUntil (cfg : Configuration) :
    (started cfg).sleepUntil = cfg.heartBeatOwnTimeout + 63 := by
  simp only [started, wakeTime, heartBeatPeriod]
  omega

/-- Nobody has to wake before. -/
theorem Duo.wait (h : Duo cfg s 1 r₁ r₂ c₁ c₂) (h₁ : c₁.sleepUntil = (started cfg).sleepUntil)
    (h₂ : c₂.sleepUntil = (started cfg).sleepUntil) :
    ∃ s', Duo cfg s' (lastMoment cfg) r₁ r₂ c₁ c₂ := by
  have htime : ({ s with time := s.time + (cfg.heartBeatOwnTimeout + 125 / 2) } : System).time
      = lastMoment cfg := by
    rw [lastMoment, ← h.time]
  obtain ⟨hclock₁, hclock₂⟩ := clock_lastMoment htime
  have hpass : Step cfg halfAhead s (.pass (cfg.heartBeatOwnTimeout + 125 / 2))
      { s with time := s.time + (cfg.heartBeatOwnTimeout + 125 / 2) } := by
    refine ⟨rfl, ?_⟩
    intro m c hc
    have hc : s.members m = some c := hc
    by_cases hm1 : m = 1
    · subst hm1
      rw [h.member₁] at hc
      cases hc
      rw [hclock₁, h₁, started_sleepUntil]
      push_cast
      linarith
    by_cases hm2 : m = 2
    · subst hm2
      rw [h.member₂] at hc
      cases hc
      rw [hclock₂, h₂, started_sleepUntil]
      push_cast
      linarith
    rw [h.others m hm1 hm2] at hc
    cases hc
  exact ⟨_, h.reachable.next hpass, htime, h.record₁, h.record₂, h.member₁, h.member₂, h.others⟩

/-- The member 1, last read in the first second, is found dead. -/
theorem mayTake_lastMoment (hown : cfg.heartBeatTimeout = cfg.heartBeatOwnTimeout + 1)
    (hwarn : cfg.heartBeatWarnTimeout < cfg.heartBeatOwnTimeout) :
    (({ ({ started cfg with nowBeforeSelect := 1 } : Member).check cfg 1 0 1 ⟨1, true, true, false⟩ with
      nowBeforeSelect := cfg.heartBeatOwnTimeout + 64 } : Member).check cfg 1 0
        (cfg.heartBeatOwnTimeout + 64) ⟨1, true, true, false⟩).mayTake 1 ⟨1, true, true, false⟩
          = true := by
  simp [Member.mayTake, Member.check, started, checkHeartBeat, newMember, ClusterMember.detect,
    ClusterMember.isFoundDead, ClusterMember.isOverdue, Record.row, heartBeatPeriod,
    secondsBeforeReopen, hown]
  omega

/-- The member 1 stalls, and the member 2 becomes exclusive. -/
theorem duo_both (hown : cfg.heartBeatTimeout = cfg.heartBeatOwnTimeout + 1)
    (hwarn : cfg.heartBeatWarnTimeout < cfg.heartBeatOwnTimeout) :
    ∃ s, Reachable cfg halfAhead s ∧ WorksExclusively s 1 ∧ WorksExclusively s 2 := by
  obtain ⟨s, h⟩ := duo_exclusive cfg
  have h1 := h.step₂ (.select 2) rfl (second_at_one h.time (Or.inr rfl)) rfl
  obtain ⟨s, h2⟩ := h1.read₂ rfl (second_at_one h1.time (Or.inr rfl))
  obtain ⟨s, h3⟩ := h2.wait rfl rfl
  have h4 := h3.step₂ (.select 2) rfl (second_lastMoment h3.time) rfl
  obtain ⟨s, h5⟩ := h4.read₂ rfl (second_lastMoment h4.time)
  have h6 := h5.step₂ (.markBegin 2) rfl (second_lastMoment h5.time) rfl
  obtain ⟨s, r, h7⟩ := h6.mark₂ rfl (mayTake_lastMoment hown hwarn) rfl rfl
  have h8 := h7.step₂ (.markEnd 2) rfl rfl rfl
  have h9 := h8.step₂ (.beatBegin 2) rfl (second_lastMoment h8.time) rfl
  obtain ⟨s, h10⟩ := h9.beat₂ rfl (ownsRecord_iff.mpr ⟨rfl, rfl, rfl⟩)
  have h11 := h10.step₂ (.beatEnd 2) rfl rfl rfl
  exact ⟨_, h11.reachable, ⟨_, h11.member₁, rfl, rfl⟩, ⟨_, h11.member₂, rfl, rfl⟩⟩

/-- Whatever the clocks show, no two members work exclusively at the same time,
    if and only if the own timeout is at least two seconds shorter than that of
    the others. -/
theorem exclusive_alone_iff (hcfg : cfg.isAccepted = true)
    (hown : cfg.heartBeatOwnTimeout < cfg.heartBeatTimeout) :
    (∀ offset s, Reachable cfg offset s → ExclusiveAlone cfg offset s) ↔
      cfg.heartBeatOwnTimeout + 2 ≤ cfg.heartBeatTimeout := by
  constructor
  · intro hall
    by_contra hnot
    have heq : cfg.heartBeatTimeout = cfg.heartBeatOwnTimeout + 1 := by omega
    simp only [Configuration.isAccepted, Bool.and_eq_true, decide_eq_true_eq] at hcfg
    obtain ⟨s, hreach, h1, h2⟩ := duo_both heq hcfg.1.1.2
    exact absurd ((hall halfAhead s hreach).1 1 2 h1 h2) (by decide)
  · intro hsafe offset s hreach
    exact exclusiveAlone_of_safe hsafe hreach

/-- Timeouts that are accepted, one second apart. -/
def oneSecond : Configuration := ⟨false, 0, true, 60, 59, 10⟩

theorem both_exclusive : ¬ ∀ cfg offset s, cfg.isAccepted = true →
    cfg.heartBeatOwnTimeout < cfg.heartBeatTimeout → Reachable cfg offset s →
    ExclusiveAlone cfg offset s := by
  intro hall
  have hboth : ∃ s, Reachable oneSecond halfAhead s ∧ WorksExclusively s 1 ∧ WorksExclusively s 2 :=
    duo_both rfl (by decide)
  obtain ⟨s, hreach, h1, h2⟩ := hboth
  exact absurd ((hall oneSecond halfAhead s rfl (by decide) hreach).1 1 2 h1 h2) (by decide)

/-- The default timeouts. -/
def defaultTimeouts : Configuration := ⟨false, 0, true, 60, 55, 10⟩

theorem default_alone : (∀ offset s, Reachable defaultTimeouts offset s →
    ExclusiveAlone defaultTimeouts offset s) ↔
      defaultTimeouts.heartBeatOwnTimeout + 2 ≤ defaultTimeouts.heartBeatTimeout :=
  exclusive_alone_iff rfl (by decide)

end ClusterWatchdog
