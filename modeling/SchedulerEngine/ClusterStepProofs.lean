import SchedulerEngine.ClusterHeartBeatProofs
import SchedulerEngine.RunInvariantProofs

/-! # The members of a cluster

    Every member works on the clusters table in transactions and acts, between
    them, on what it has read before.  A step of the system is one transaction
    of one member, with the decisions the member takes before its next one; a
    member may crash at any time, and start again. -/

namespace ClusterStep

open ClusterTable ClusterHeartBeat RunInvariant

/-! ## A member -/

/-- Where a member is: in `subsystem_activate`, in its operations, in
    `try_to_become_exclusive` and `mark_as_exclusive` (with the clock at its
    begin), or in the loop of the `Active_schedulers_watchdog`. -/
inductive Phase where
  | checking
  | deletingOwn
  | creatingEmpty
  | inserting
  | rechecking
  | operating
  | precedence
  | markEmpty (now : Nat)
  | markCheck (now : Nat)
  | taking (now : Nat)
  | deactivating
deriving DecidableEq

/-- The own record has been inserted. -/
def Phase.isInserted : Phase → Bool
  | .checking | .deletingOwn | .creatingEmpty | .inserting => false
  | _ => true

/-- `start_operations` has been called. -/
def Phase.isStarted (p : Phase) : Bool := p.isInserted && decide (p ≠ .rechecking)

/-- `Cluster`, the memory of a member; the map holds a `Cluster_member` for each
    record that it knows, also for its own (`_my_scheduler`). -/
structure Cluster where
  config : Configuration
  phase : Phase
  isActive : Bool
  hasExclusiveness : Bool
  isExclusivenessLost : Bool
  isInError : Bool
  continueNonBackup : Bool
  startTime : Nat
  nextHeartBeat : Nat
  dbLastHeartBeat : Nat
  dbNextHeartBeat : Nat
  schedulerMap : MemberId → Option ClusterMember
  exclusiveScheduler : Option MemberId
  isStarting : Bool
  waitForBackupSchedulerStartUntil : Nat
  nextPrecedenceCheck : Nat
  exclusiveWatchdog : Bool
  activeWatchdog : Bool
  beatFailed : Bool
  hasCommand : Bool

/-- The table, the memories of the running members; and for each member since it
    inserted its record, the commands that were set for it, executed by it, and
    replaced before it read them. -/
structure System where
  table : Table
  clusters : Nat → Option Cluster
  commandsSet : Nat → List String
  executed : Nat → List String
  replaced : Nat → List String

variable (me : Nat)

/-- `Cluster::exclusive_scheduler()`: not the empty member. -/
def Cluster.exclusiveMember (c : Cluster) : Option MemberId :=
  c.exclusiveScheduler.filter fun id => decide (id ≠ .empty)

/-- `is_member_allowed_to_start()`. -/
def Cluster.isMemberAllowedToStart (c : Cluster) : Bool :=
  (c.schedulerMap .empty).isSome || !c.config.isBackupMember

/-- `calculate_next_heart_beat`. -/
def Cluster.calculateNextHeartBeat (c : Cluster) (now : Nat) : Nat :=
  now + if now ≤ c.startTime + startupPeriod then heartBeatPeriodAtStartup else heartBeatPeriod

def Cluster.setMember (c : Cluster) (id : MemberId) (m : ClusterMember) : Cluster :=
  { c with schedulerMap := Function.update c.schedulerMap id (some m) }

@[simp] theorem Cluster.setMember_schedulerMap (c : Cluster) (id : MemberId) (m : ClusterMember) :
    (c.setMember id m).schedulerMap = Function.update c.schedulerMap id (some m) := rfl

/-! ## `check_schedulers_heart_beat` -/

/-- What the transaction reads: the clock before the select, the records in the
    order of the result set with the clock when each is read, whether it comes
    to the end of the result set without an exception, and when the database
    was reopened. -/
structure Select where
  nowBeforeSelect : Nat
  reads : List (MemberId × Nat)
  complete : Bool
  reopenTime : Nat

/-- The result set holds each record once, and all of them if it is read to the
    end. -/
def Select.Reads (q : Select) (t : Table) : Prop :=
  (q.reads.map Prod.fst).Nodup ∧ (∀ r ∈ q.reads, r.1 ∈ t.keys) ∧
    (q.complete = true → ∀ id ∈ t.keys, id ∈ q.reads.map Prod.fst)

instance (q : Select) (t : Table) : Decidable (q.Reads t) :=
  inferInstanceAs (Decidable (_ ∧ _ ∧ _))

/-- The loop over the result set: the result, whether the loop came to its end,
    and the memory.  A second exclusive record throws SCHEDULER-371. -/
def readRows (t : Table) (nowBeforeSelect reopenTime : Nat) :
    List (MemberId × Nat) → Cluster → Bool × Bool × Cluster
  | [], c => (true, true, c)
  | (id, now) :: rest, c =>
    match t.lookup id with
    | none => readRows t nowBeforeSelect reopenTime rest c
    | some row =>
      let checked := checkHeartBeat c.config (decide (id = .empty)) reopenTime nowBeforeSelect now
        row ((c.schedulerMap id).getD newMember)
      let c := c.setMember id checked.2
      if row.exclusive then
        if c.exclusiveScheduler.isSome then (checked.1, false, { c with isInError := true })
        else
          let later := readRows t nowBeforeSelect reopenTime rest
            { c with exclusiveScheduler := some id }
          (checked.1 && later.1, later.2)
      else
        let later := readRows t nowBeforeSelect reopenTime rest c
        (checked.1 && later.1, later.2)

/-- `Cluster::check_schedulers_heart_beat`: after a complete reading the members
    without a record are forgotten. -/
def checkSchedulersHeartBeat (t : Table) (q : Select) (c : Cluster) : Bool × Cluster :=
  let read := readRows t q.nowBeforeSelect q.reopenTime q.reads { c with exclusiveScheduler := none }
  if q.complete && read.2.1 then
    (read.1, { read.2.2 with
      schedulerMap := fun id =>
        if id ∈ q.reads.map Prod.fst then read.2.2.schedulerMap id else none })
  else (read.1, read.2.2)

/-! ## Transactions that write -/

/-- `check_empty_member_record`: a primary scheduler inserts the empty record,
    which is exclusive if no other record is; `none` if it finds two exclusive
    records, which throws SCHEDULER-371. -/
def checkEmptyMemberRecord (t : Table) (c : Cluster) : Option Table :=
  let exclusiveCount := t.entries.countP fun e => e.2.exclusive
  if MemberId.empty ∈ t ∨ c.config.isBackupMember then some t
  else if 1 < exclusiveCount then none
  else some <| t.insert .empty
    { precedence := none, lastHeartBeat := none, nextHeartBeat := none
      active := c.isActive
      exclusive := decide (exclusiveCount = 0)
      dead := false, command := none }

/-- `insert_member_record`. -/
def insertMemberRecord (now : Nat) (t : Table) (c : Cluster) : Option (Table × Cluster) :=
  let next := c.calculateNextHeartBeat now
  (insertRow (.member me)
    { precedence := some c.config.backupPrecedence
      lastHeartBeat := some now, nextHeartBeat := some next
      active := c.isActive, exclusive := false, dead := false, command := none } t).map
    fun t => (t, { c with nextHeartBeat := next, dbLastHeartBeat := now, dbNextHeartBeat := next })

/-- The where clause of the heart beat, without the command. -/
def Cluster.ownsRecord (c : Cluster) (row : Row) : Bool :=
  decide (row.lastHeartBeat = some c.dbLastHeartBeat)
    && decide (row.nextHeartBeat = some c.dbNextHeartBeat)
    && decide (row.active = c.isActive) && decide (row.exclusive = c.hasExclusiveness)

/-- `heartbeat_member_record`: if the record is not found without a command, it
    is tried with one. -/
def heartbeatMemberRecord (now : Nat) (t : Table) (c : Cluster) : Bool × Table × Cluster :=
  let next := c.calculateNextHeartBeat now
  let beat := fun row : Row => { row with lastHeartBeat := some now, nextHeartBeat := some next }
  let first := updateRow (.member me) (fun row => c.ownsRecord row && row.command.isNone) beat t
  let second := if first.1 then first else updateRow (.member me) c.ownsRecord beat first.2
  let hasCommand := !first.1 && second.1
  if second.1 then
    (true, second.2,
      { c with
        nextHeartBeat := next, dbLastHeartBeat := now, dbNextHeartBeat := next
        hasCommand := c.hasCommand || hasCommand })
  else
    (false, second.2,
      { c with
        nextHeartBeat := next
        isExclusivenessLost := c.isExclusivenessLost || c.hasExclusiveness
        beatFailed := true })

/-- `check_my_member_record`, forced after a heart beat that failed; `none` if
    the record is lost, which throws. -/
def checkMyMemberRecord (t : Table) (c : Cluster) : Option Cluster :=
  (t.lookup (.member me)).map fun row =>
    let lostActive := c.beatFailed || c.isActive && !row.active
    let lostExclusive := c.beatFailed || c.hasExclusiveness && !row.exclusive
    { c with
      isActive := c.isActive && !lostActive
      hasExclusiveness := c.hasExclusiveness && !lostExclusive
      isExclusivenessLost := c.isExclusivenessLost || lostExclusive && c.hasExclusiveness
      isInError := c.isInError || lostActive || lostExclusive
      beatFailed := false }

/-- The update that takes the exclusiveness from the member that was exclusive. -/
def takeFrom (id : MemberId) (m : ClusterMember) (t : Table) : Bool × Table :=
  if id = .empty then
    updateRow id (fun row => row.exclusive)
      (fun row => { row with exclusive := false, active := true }) t
  else
    updateRow id
      (fun row => row.exclusive && decide (row.lastHeartBeat = some m.dbLastHeartBeat)
        && decide (row.nextHeartBeat = some m.dbNextHeartBeat))
      (fun row => { row with exclusive := false, dead := row.dead || !m.isDbDead }) t

/-- The update that makes the own record exclusive. -/
def giveTo (c : Cluster) (now next : Nat) (t : Table) : Bool × Table :=
  updateRow (.member me) (fun row => !row.exclusive && decide (row.active = c.isActive))
    (fun row => { row with
      active := true, exclusive := true, lastHeartBeat := some now, nextHeartBeat := some next }) t

/-- In memory, after the exclusiveness has been taken. -/
def Cluster.becomeExclusive (c : Cluster) (taken : MemberId) (now next : Nat) : Cluster :=
  let own := (c.schedulerMap (.member me)).map fun m =>
    { m with isExclusive := true, isActive := true }
  let map := Function.update c.schedulerMap (.member me) own
  { c with
    dbLastHeartBeat := now, dbNextHeartBeat := next
    hasExclusiveness := true, isActive := true
    schedulerMap := Function.update map taken
      ((map taken).map fun m => { m with isExclusive := false })
    exclusiveScheduler := own.map fun _ => .member me }

/-- The transaction of `mark_as_exclusive`. -/
def markAsExclusive (now : Nat) (t : Table) (c : Cluster) : Bool × Table × Cluster :=
  let next := c.calculateNextHeartBeat now
  match c.exclusiveScheduler with
  | none => (false, t, c)
  | some id =>
    let taken := takeFrom id ((c.schedulerMap id).getD newMember) t
    let given := giveTo me c now next taken.2
    if taken.1 && given.1 then
      (true, given.2, { c.becomeExclusive me id now next with nextHeartBeat := next })
    else (false, t, { c with nextHeartBeat := next })

/-- `Mark_as_inactive_option`. -/
inductive MarkAsInactiveOption where
  | standard
  | deleteMyInactiveRecord
  | markInactiveRecordAsDead
deriving DecidableEq

/-- The first statement of `mark_as_inactive`. -/
def deactivateRow (option : MarkAsInactiveOption) (id : MemberId) (m : ClusterMember)
    (t : Table) : Bool × Table :=
  let cond := fun row : Row => decide (row.exclusive = m.isExclusive)
  match option with
  | .deleteMyInactiveRecord => deleteRow id cond t
  | .markInactiveRecordAsDead =>
    updateRow id cond (fun row => { row with active := false, exclusive := false, dead := true }) t
  | .standard => updateRow id cond (fun row => { row with active := false, exclusive := false }) t

/-- The second statement: the exclusiveness goes to the empty record, or the
    empty record is deleted. -/
def releaseExclusiveness (deleteEmptyMemberRecord : Bool) (t : Table) : Bool × Table :=
  if deleteEmptyMemberRecord then (true, (deleteRow .empty (fun _ => true) t).2)
  else updateRow .empty (fun _ => true) (fun row => { row with exclusive := true }) t

/-- The transaction of `Cluster_member::mark_as_inactive`: its result, whether
    its second statement was without effect, and the table. -/
def markAsInactive (option : MarkAsInactiveOption) (id : MemberId) (m : ClusterMember)
    (t : Table) (c : Cluster) : Bool × Bool × Table :=
  let deleteEmptyMemberRecord := decide (id = .member me) && c.continueNonBackup
  let first := deactivateRow option id m t
  if first.1 then
    if m.isExclusive then
      let second := releaseExclusiveness deleteEmptyMemberRecord first.2
      if second.1 then (true, false, second.2) else (false, true, t)
    else (true, false, first.2)
  else (false, false, t)

/-- `delete_dead_record`. -/
def deleteDeadRecord (id : MemberId) (t : Table) : Bool × Table :=
  deleteRow id (fun row => row.dead) t

/-! ## Decisions between the transactions -/

/-- `start_operations`. -/
def Cluster.startOperations (c : Cluster) : Cluster :=
  { c with
    exclusiveWatchdog := c.exclusiveWatchdog || c.config.demandExclusiveness && !c.hasExclusiveness
    activeWatchdog := c.activeWatchdog || c.isActive }

/-- `_wait_for_backup_scheduler_start_until`: a backup scheduler that starts lets
    the primary one start first. -/
def Cluster.waitUntil (c : Cluster) (now : Nat) : Nat :=
  if c.exclusiveMember.isSome then 0
  else if c.isStarting && c.config.isBackupMember && c.isMemberAllowedToStart then
    now + backupStartupDelay
  else c.waitForBackupSchedulerStartUntil

/-- `exclusive_scheduler && !exclusive_scheduler->_is_dead`. -/
def Cluster.exclusiveIsAlive (c : Cluster) : Bool :=
  c.exclusiveMember.any fun id => !((c.schedulerMap id).getD newMember).isDead

/-- `try_to_become_exclusive`, after its `check_schedulers_heart_beat`. -/
def Cluster.tryToBecomeExclusive (now : Nat) (c : Cluster) : Cluster :=
  if c.waitUntil now ≤ now then
    let c := { c with waitForBackupSchedulerStartUntil := 0, isStarting := false }
    if c.exclusiveIsAlive then { c with nextPrecedenceCheck := 0 }
    else if c.isMemberAllowedToStart then { c with phase := .precedence }
    else c
  else { c with waitForBackupSchedulerStartUntil := c.waitUntil now, isStarting := false }

/-- The select of `check_has_backup_precedence` finds another member. -/
def anotherHasPrecedence (now : Nat) (t : Table) (c : Cluster) : Bool :=
  let window := heartBeatPeriod + c.config.heartBeatWarnTimeout
  t.entries.any fun e =>
    e.2.precedence.any (fun p => decide (p < c.config.backupPrecedence))
      && !e.2.active && !e.2.exclusive && !e.2.dead
      && e.2.nextHeartBeat.any fun next =>
        decide (now ≤ next + window) && decide (next ≤ now + window)

/-- `check_has_backup_precedence`. -/
def checkHasBackupPrecedence (now : Nat) (t : Table) (c : Cluster) : Bool × Cluster :=
  if c.nextPrecedenceCheck ≤ now then
    if anotherHasPrecedence now t c && decide (c.nextPrecedenceCheck = 0) then
      (false, { c with
        nextPrecedenceCheck := now + heartBeatPeriod + c.config.heartBeatWarnTimeout + 2 })
    else (true, { c with nextPrecedenceCheck := 0 })
  else (false, c)

/-- The begin of `mark_as_exclusive`. -/
def Cluster.beginMark (now : Nat) (c : Cluster) : Cluster :=
  { c with phase := if c.exclusiveScheduler.isNone then .markEmpty now else .taking now }

/-- `subsystem_activate`, once no old record of this member is left. -/
def Cluster.afterOwnDeleted (c : Cluster) : Cluster :=
  { c with
    isActive := !c.config.demandExclusiveness
    phase := if c.config.demandExclusiveness then .creatingEmpty else .inserting }

/-- `subsystem_activate`, after its first check: an old record of this member
    has to be deleted. -/
def Cluster.afterFirstCheck (c : Cluster) : Cluster :=
  if (c.schedulerMap (.member me)).isSome then { c with phase := .deletingOwn }
  else c.afterOwnDeleted

/-- In memory, after `mark_as_inactive` of the own record. -/
def Cluster.markedInactive (c : Cluster) (withoutEffect : Bool) : Cluster :=
  { c with
    isActive := false, hasExclusiveness := false
    isInError := c.isInError || withoutEffect
    schedulerMap := Function.update c.schedulerMap (.member me)
      ((c.schedulerMap (.member me)).map fun m => { m with isActive := false, isExclusive := false }) }

/-- `deactivate_and_release_orders_after_death` is called, and it is time. -/
def Cluster.releasesOrders (now : Nat) (id : MemberId) (m : ClusterMember) : Bool :=
  decide (id ≠ .member me) && decide (id ≠ .empty) && m.isActive && m.isDead
    && decide (m.nextDeadOrdersCheckTime ≤ now)

/-- Only a primary scheduler marks a record as dead. -/
def Cluster.marksDead (c : Cluster) (m : ClusterMember) : Bool :=
  !m.isDbDead && !c.config.isBackupMember

/-- The next check of a dead member's orders. -/
def laterCheck (now : Nat) (m : ClusterMember) : ClusterMember :=
  { m with
    deadOrdersCheckPeriod := m.deadOrdersCheckPeriod * 2
    nextDeadOrdersCheckTime := now + m.deadOrdersCheckPeriod * 2 }

/-- The memory of a new process. -/
def newCluster (config : Configuration) (now : Nat) : Cluster :=
  { config := config, phase := .checking
    isActive := false, hasExclusiveness := false, isExclusivenessLost := false
    isInError := false, continueNonBackup := false
    startTime := now, nextHeartBeat := 0, dbLastHeartBeat := 0, dbNextHeartBeat := 0
    schedulerMap := fun _ => none, exclusiveScheduler := none
    isStarting := true, waitForBackupSchedulerStartUntil := 0, nextPrecedenceCheck := 0
    exclusiveWatchdog := false, activeWatchdog := false
    beatFailed := false, hasCommand := false }

/-! ## The system -/

/-- One transaction of a member, the start or the crash of its process. -/
inductive Op where
  | start (m : Nat) (config : Configuration) (now : Nat)
  | crash (m : Nat)
  | firstCheck (m : Nat) (q : Select)
  | deleteOwn (m : Nat)
  | createEmpty (m : Nat)
  | insert (m : Nat) (now : Nat)
  | lastCheck (m : Nat) (q : Select)
  | continueOperations (m : Nat)
  | domElement (m : Nat) (q : Select)
  | beat (m : Nat) (now : Nat)
  | checkOwnRecord (m : Nat)
  | tryToBecomeExclusive (m : Nat) (q : Select) (now : Nat)
  | checkPrecedence (m : Nat) (now nowMark : Nat)
  | markEmpty (m : Nat)
  | markCheck (m : Nat) (q : Select)
  | take (m : Nat)
  | giveUp (m : Nat)
  | watchActive (m : Nat) (q : Select)
  | deactivate (m : Nat) (other : MemberId) (now : Nat)
  | close (m : Nat)
  | deleteDead (m : Nat) (other : MemberId)
  | setCommand (m : Nat) (other : Option Nat) (command : String)
  | readCommand (m : Nat)
  | setContinue (m : Nat) (nonBackup : Bool)

/-- The member a step is of. -/
def Op.actor : Op → Nat
  | .start m _ _ | .crash m | .firstCheck m _ | .deleteOwn m | .createEmpty m | .insert m _
  | .lastCheck m _ | .continueOperations m | .domElement m _ | .beat m _ | .checkOwnRecord m
  | .tryToBecomeExclusive m _ _ | .checkPrecedence m _ _ | .markEmpty m | .markCheck m _
  | .take m | .giveUp m | .watchActive m _ | .deactivate m _ _ | .close m | .deleteDead m _
  | .setCommand m _ _ | .readCommand m | .setContinue m _ => m

def System.setCluster (s : System) (m : Nat) (c : Option Cluster) : System :=
  { s with clusters := Function.update s.clusters m c }

/-- A transaction of a member and its memory afterwards. -/
def System.commit (s : System) (m : Nat) (t : Table) (c : Option Cluster) : System :=
  { s with table := t, clusters := Function.update s.clusters m c }

/-! ### `subsystem_activate` -/

def firstCheck (m : Nat) (q : Select) (s : System) (c : Cluster) : Option System :=
  if c.phase = .checking then
    some (s.setCluster m (some ((checkSchedulersHeartBeat s.table q c).2.afterFirstCheck m)))
  else none

def deleteOwn (m : Nat) (s : System) (c : Cluster) : Option System :=
  if c.phase = .deletingOwn then
    let own := (c.schedulerMap (.member m)).getD newMember
    let marked := markAsInactive m .deleteMyInactiveRecord (.member m) own s.table c
    some (s.commit m marked.2.2 (some ((c.markedInactive m marked.2.1).afterOwnDeleted)))
  else none

def createEmpty (m : Nat) (s : System) (c : Cluster) : Option System :=
  if c.phase = .creatingEmpty then
    (checkEmptyMemberRecord s.table c).map fun t =>
      s.commit m t (some { c with phase := .inserting })
  else none

/-- The commands are those since the record was inserted. -/
def insert (m now : Nat) (s : System) (c : Cluster) : Option System :=
  if c.phase = .inserting then
    (insertMemberRecord m now s.table c).map fun r =>
      { s.commit m r.1 (some { r.2 with phase := .rechecking }) with
        commandsSet := Function.update s.commandsSet m []
        executed := Function.update s.executed m []
        replaced := Function.update s.replaced m [] }
  else none

/-- A member whose record is missing ends with SCHEDULER-371. -/
def lastCheck (m : Nat) (q : Select) (s : System) (c : Cluster) : Option System :=
  if c.phase = .rechecking then
    let read := (checkSchedulersHeartBeat s.table q c).2
    some (s.setCluster m
      (if (read.schedulerMap (.member m)).isSome then
        some { read.startOperations with phase := .operating }
      else none))
  else none

/-! ### Operations -/

/-- `Cluster::async_continue_`. -/
def continueOperations (m : Nat) (s : System) (c : Cluster) : Option System :=
  if c.phase = .operating then
    let c := { c with exclusiveWatchdog := c.exclusiveWatchdog && !c.hasExclusiveness }
    some (s.setCluster m (some (if c.isInError then c else c.startOperations)))
  else none

/-- `Cluster::dom_element`. -/
def domElement (m : Nat) (q : Select) (s : System) (c : Cluster) : Option System :=
  if c.phase = .operating then
    some (s.setCluster m (some (checkSchedulersHeartBeat s.table q c).2))
  else none

def beat (m now : Nat) (s : System) (c : Cluster) : Option System :=
  if c.phase.isStarted ∧ c.beatFailed = false then
    let beaten := heartbeatMemberRecord m now s.table c
    some (s.commit m beaten.2.1 (some beaten.2.2))
  else none

/-- A member whose record is lost ends. -/
def checkOwnRecord (m : Nat) (s : System) (c : Cluster) : Option System :=
  if c.phase.isStarted then some (s.setCluster m (checkMyMemberRecord m s.table c)) else none

def tryToBecomeExclusive (m : Nat) (q : Select) (now : Nat) (s : System) (c : Cluster) :
    Option System :=
  if c.phase = .operating ∧ c.exclusiveWatchdog = true ∧ c.hasExclusiveness = false
      ∧ c.beatFailed = false then
    some (s.setCluster m
      (some ((checkSchedulersHeartBeat s.table q c).2.tryToBecomeExclusive now)))
  else none

def checkPrecedence (m now nowMark : Nat) (s : System) (c : Cluster) : Option System :=
  if c.phase = .precedence ∧ c.beatFailed = false then
    let checked := checkHasBackupPrecedence now s.table c
    some (s.setCluster m (some
      (if checked.1 then checked.2.beginMark nowMark else { checked.2 with phase := .operating })))
  else none

def markEmpty (m : Nat) (s : System) (c : Cluster) : Option System :=
  match c.phase with
  | .markEmpty now =>
    if c.beatFailed then none
    else (checkEmptyMemberRecord s.table c).map fun t =>
      s.commit m t (some { c with phase := .markCheck now })
  | _ => none

def markCheck (m : Nat) (q : Select) (s : System) (c : Cluster) : Option System :=
  match c.phase with
  | .markCheck now =>
    if c.beatFailed then none
    else
      let read := (checkSchedulersHeartBeat s.table q c).2
      some (s.setCluster m (some
        { read with phase := if read.exclusiveScheduler.isNone then .operating else .taking now }))
  | _ => none

def take (m : Nat) (s : System) (c : Cluster) : Option System :=
  match c.phase with
  | .taking now =>
    if c.beatFailed ∨ c.hasExclusiveness then none
    else
      let marked := markAsExclusive m now s.table c
      some (s.commit m marked.2.1 (some { marked.2.2 with phase := .operating }))
  | _ => none

/-- The exception of a transaction is caught, or the loop is at its end. -/
def giveUp (m : Nat) (s : System) (c : Cluster) : Option System :=
  if c.phase.isStarted then some (s.setCluster m (some { c with phase := .operating })) else none

def watchActive (m : Nat) (q : Select) (s : System) (c : Cluster) : Option System :=
  if c.phase = .operating ∧ c.activeWatchdog = true ∧ c.beatFailed = false then
    let checked := checkSchedulersHeartBeat s.table q c
    some (s.setCluster m
      (some { checked.2 with phase := if checked.1 then .operating else .deactivating }))
  else none

def deactivate (m : Nat) (other : MemberId) (now : Nat) (s : System) (c : Cluster) :
    Option System :=
  if c.phase = .deactivating ∧ c.beatFailed = false then
    (c.schedulerMap other).bind fun known =>
      if Cluster.releasesOrders m now other known then
        let c := c.setMember other (laterCheck now known)
        if c.marksDead known then
          let marked := markAsInactive m .markInactiveRecordAsDead other known s.table c
          some (s.commit m marked.2.2 (some { c with isInError := c.isInError || marked.2.1 }))
        else some (s.setCluster m (some c))
      else none
  else none

/-- `Cluster::close`. -/
def close (m : Nat) (s : System) (c : Cluster) : Option System :=
  if c.phase.isInserted then
    match c.schedulerMap (.member m) with
    | none => some (s.setCluster m none)
    | some own =>
      if own.isDbDead && c.continueNonBackup then none
      else
        let option := if own.isDbDead then .standard else .deleteMyInactiveRecord
        some (s.commit m (markAsInactive m option (.member m) own s.table c).2.2 none)
  else none

def deleteDead (other : MemberId) (s : System) (c : Cluster) : Option System :=
  if c.phase.isStarted ∧ (c.schedulerMap other).isSome then
    some { s with table := (deleteDeadRecord other s.table).2 }
  else none

/-! ### Commands -/

/-- `and not member_id in (mine, empty) and dead is null [and member_id = other]`. -/
def addressed (m : Nat) (other : Option Nat) (id : MemberId) (row : Row) : Bool :=
  decide (id ≠ .member m) && decide (id ≠ .empty) && !row.dead
    && other.all fun n => decide (id = .member n)

/-- A command is set for a member. -/
def System.isReached (s : System) (m : Nat) (other : Option Nat) (n : Nat) : Bool :=
  (s.table.lookup (.member n)).any fun row => addressed m other (.member n) row

/-- The command that a member has not read yet. -/
def System.unread (s : System) (n : Nat) : List String :=
  ((s.table.lookup (.member n)).bind fun row => row.command).toList

/-- `set_command_for_scheduler` and `set_command_for_all_schedulers_but_me`; the
    callers set no empty command. -/
def setCommand (m : Nat) (other : Option Nat) (command : String) (s : System) (c : Cluster) :
    Option System :=
  if c.phase.isStarted ∧ command ≠ "" then
    some { s with
      table := updateAll (addressed m other) (fun row => { row with command := some command })
        s.table
      commandsSet := fun n =>
        if s.isReached m other n then s.commandsSet n ++ [command] else s.commandsSet n
      replaced := fun n =>
        if s.isReached m other n then s.replaced n ++ s.unread n else s.replaced n }
  else none

/-- `read_and_execute_command`: an empty command is not executed. -/
def readCommand (m : Nat) (s : System) (c : Cluster) : Option System :=
  if c.phase.isStarted ∧ c.hasCommand = true then
    match s.table.lookup (.member m) with
    | none => some (s.setCluster m (some { c with hasCommand := false }))
    | some row =>
      some { s.commit m (s.table.insert (.member m) { row with command := none })
          (some { c with hasCommand := false }) with
        executed := Function.update s.executed m
          (s.executed m ++ (row.command.filter fun text => decide (text ≠ "")).toList) }
  else none

/-! ### All steps -/

/-- What an operation of a running member does; `none` if it is not its turn. -/
def perform (s : System) (c : Cluster) : Op → Option System
  | .start _ _ _ => none
  | .crash m => some (s.setCluster m none)
  | .firstCheck m q => firstCheck m q s c
  | .deleteOwn m => deleteOwn m s c
  | .createEmpty m => createEmpty m s c
  | .insert m now => insert m now s c
  | .lastCheck m q => lastCheck m q s c
  | .continueOperations m => continueOperations m s c
  | .domElement m q => domElement m q s c
  | .beat m now => beat m now s c
  | .checkOwnRecord m => checkOwnRecord m s c
  | .tryToBecomeExclusive m q now => tryToBecomeExclusive m q now s c
  | .checkPrecedence m now nowMark => checkPrecedence m now nowMark s c
  | .markEmpty m => markEmpty m s c
  | .markCheck m q => markCheck m q s c
  | .take m => take m s c
  | .giveUp m => giveUp m s c
  | .watchActive m q => watchActive m q s c
  | .deactivate m other now => deactivate m other now s c
  | .close m => close m s c
  | .deleteDead _ other => deleteDead other s c
  | .setCommand m other command => setCommand m other command s c
  | .readCommand m => readCommand m s c
  | .setContinue m nonBackup =>
    some (s.setCluster m (some { c with continueNonBackup := nonBackup }))

/-- A process is started for a member that is not running. -/
def startMember (s : System) : Op → Option System
  | .start m config now =>
    if config.isAccepted then some (s.setCluster m (some (newCluster config now))) else none
  | _ => none

/-- A step of the system. -/
def step (s : System) (op : Op) : Option System :=
  match s.clusters op.actor with
  | none => startMember s op
  | some c => perform s c op

/-- A reading transaction reads the table. -/
def Reads (s : System) : Op → Prop
  | .firstCheck _ q | .lastCheck _ q | .domElement _ q | .tryToBecomeExclusive _ q _ | .markCheck _ q
  | .watchActive _ q => q.Reads s.table
  | _ => True

def Step (s : System) (op : Op) (s' : System) : Prop := Reads s op ∧ step s op = some s'

instance (s : System) : (op : Op) → Decidable (Reads s op)
  | .firstCheck _ q | .lastCheck _ q | .domElement _ q | .tryToBecomeExclusive _ q _ | .markCheck _ q
  | .watchActive _ q => inferInstanceAs (Decidable (q.Reads s.table))
  | .start .. | .crash _ | .deleteOwn _ | .createEmpty _ | .insert .. | .continueOperations _
  | .beat .. | .checkOwnRecord _ | .checkPrecedence .. | .markEmpty _ | .take _ | .giveUp _
  | .deactivate .. | .close _ | .deleteDead .. | .setCommand .. | .readCommand _
  | .setContinue .. => isTrue trivial

/-- No records and no members yet. -/
def noMembers : System := ⟨∅, fun _ => none, fun _ => [], fun _ => [], fun _ => []⟩

def Reachable : System → Prop := Reach (fun s => s = noMembers) Step

/-- A step starts a member that is not running, or is one of a running member. -/
theorem step_cases {s s' : System} {op : Op} (h : step s op = some s') :
    (∃ m config now, op = .start m config now ∧ config.isAccepted = true ∧
      s' = s.setCluster m (some (newCluster config now))) ∨
      ∃ c, s.clusters op.actor = some c ∧ perform s c op = some s' := by
  cases hc : s.clusters op.actor with
  | some c =>
      simp only [step, hc] at h
      exact Or.inr ⟨c, rfl, h⟩
  | none =>
      simp only [step, hc] at h
      cases op with
      | start m config now =>
          rw [startMember] at h
          split at h
          · cases h
            exact Or.inl ⟨m, config, now, rfl, ‹_›, rfl⟩
          · cases h
      | _ => cases h

/-- A step, if it is possible. -/
def System.attempt (s : System) (op : Op) : Option System :=
  if Reads s op then step s op else none

theorem attempt_step (s : System) (op : Op) (s' : System) (h : s.attempt op = some s') :
    Step s op s' := by
  rw [System.attempt] at h
  split at h
  · exact ⟨‹_›, h⟩
  · cases h

/-- A step, if it is possible and meets a condition. -/
def System.attemptIf (guard : System → Op → Prop) [∀ s op, Decidable (guard s op)] (s : System)
    (op : Op) : Option System :=
  if guard s op then s.attempt op else none

theorem attemptIf_step {guard : System → Op → Prop} [∀ s op, Decidable (guard s op)] (s : System)
    (op : Op) (s' : System) (h : s.attemptIf guard op = some s') : Guarded guard Step s op s' := by
  rw [System.attemptIf] at h
  split at h
  · exact ⟨‹_›, attempt_step s op s' h⟩
  · cases h

/-- A primary scheduler. -/
def primary : Configuration := ⟨false, 0, true, 60, 55, 10⟩

/-- A select at one time. -/
def selectAt (now : Nat) (ids : List MemberId) (complete : Bool) : Select :=
  ⟨now, ids.map fun id => (id, now), complete, 0⟩

/-! ## What `check_schedulers_heart_beat` leaves alone -/

/-- The fields of a member that reading the table does not change. -/
structure SameOwn (c c' : Cluster) : Prop where
  config : c'.config = c.config
  phase : c'.phase = c.phase
  isActive : c'.isActive = c.isActive
  hasExclusiveness : c'.hasExclusiveness = c.hasExclusiveness
  dbLastHeartBeat : c'.dbLastHeartBeat = c.dbLastHeartBeat
  dbNextHeartBeat : c'.dbNextHeartBeat = c.dbNextHeartBeat
  beatFailed : c'.beatFailed = c.beatFailed

theorem readRows_sameOwn (t : Table) (nowBeforeSelect reopenTime : Nat)
    (reads : List (MemberId × Nat)) (c : Cluster) :
    SameOwn c (readRows t nowBeforeSelect reopenTime reads c).2.2 := by
  induction reads generalizing c with
  | nil => exact ⟨rfl, rfl, rfl, rfl, rfl, rfl, rfl⟩
  | cons r reads ih =>
      obtain ⟨id, now⟩ := r
      rw [readRows]
      cases hrow : t.lookup id with
      | none => exact ih c
      | some row =>
          simp only
          split
          · split
            · exact ⟨rfl, rfl, rfl, rfl, rfl, rfl, rfl⟩
            · obtain ⟨h1, h2, h3, h4, h5, h6, h7⟩ := ih { c.setMember id (checkHeartBeat c.config
                (decide (id = .empty)) reopenTime nowBeforeSelect now row
                ((c.schedulerMap id).getD newMember)).2 with exclusiveScheduler := some id }
              exact ⟨h1, h2, h3, h4, h5, h6, h7⟩
          · obtain ⟨h1, h2, h3, h4, h5, h6, h7⟩ := ih (c.setMember id (checkHeartBeat c.config
              (decide (id = .empty)) reopenTime nowBeforeSelect now row
              ((c.schedulerMap id).getD newMember)).2)
            exact ⟨h1, h2, h3, h4, h5, h6, h7⟩

theorem checkSchedulers_sameOwn (t : Table) (q : Select) (c : Cluster) :
    SameOwn c (checkSchedulersHeartBeat t q c).2 := by
  obtain ⟨h1, h2, h3, h4, h5, h6, h7⟩ :=
    readRows_sameOwn t q.nowBeforeSelect q.reopenTime q.reads { c with exclusiveScheduler := none }
  rw [checkSchedulersHeartBeat]
  simp only
  split
  · exact ⟨h1, h2, h3, h4, h5, h6, h7⟩
  · exact ⟨h1, h2, h3, h4, h5, h6, h7⟩

theorem tryToBecomeExclusive_same (now : Nat) (c : Cluster) :
    (c.tryToBecomeExclusive now).isActive = c.isActive ∧
      (c.tryToBecomeExclusive now).hasExclusiveness = c.hasExclusiveness ∧
      (c.tryToBecomeExclusive now).dbLastHeartBeat = c.dbLastHeartBeat ∧
      (c.tryToBecomeExclusive now).dbNextHeartBeat = c.dbNextHeartBeat ∧
      (c.tryToBecomeExclusive now).beatFailed = c.beatFailed := by
  simp only [Cluster.tryToBecomeExclusive]
  split
  · split
    · exact ⟨rfl, rfl, rfl, rfl, rfl⟩
    · split <;> exact ⟨rfl, rfl, rfl, rfl, rfl⟩
  · exact ⟨rfl, rfl, rfl, rfl, rfl⟩

theorem tryToBecomeExclusive_isInserted (now : Nat) {c : Cluster}
    (h : c.phase.isInserted = true) : (c.tryToBecomeExclusive now).phase.isInserted = true := by
  simp only [Cluster.tryToBecomeExclusive]
  split
  · split
    · exact h
    · split
      · rfl
      · exact h
  · exact h

/-! ## Phases -/

theorem isStarted_isInserted {p : Phase} (h : p.isStarted = true) : p.isInserted = true := by
  rw [Phase.isStarted, Bool.and_eq_true] at h
  exact h.1

theorem afterOwnDeleted_isInserted (c : Cluster) :
    c.afterOwnDeleted.phase.isInserted = false := by
  rw [Cluster.afterOwnDeleted]
  split <;> rfl

theorem afterFirstCheck_isInserted (m : Nat) (c : Cluster) :
    (c.afterFirstCheck m).phase.isInserted = false := by
  rw [Cluster.afterFirstCheck]
  split
  · rfl
  · exact afterOwnDeleted_isInserted c

/-! ## The heart beat -/

/-- A heart beat finds the own record as it is remembered and writes it, or it
    changes nothing in the table. -/
theorem heartbeat_cases (m now : Nat) (t : Table) (c : Cluster) :
    (∃ row, t.lookup (.member m) = some row ∧ c.ownsRecord row = true ∧
      heartbeatMemberRecord m now t c = (true,
        t.insert (.member m) { row with
          lastHeartBeat := some now, nextHeartBeat := some (c.calculateNextHeartBeat now) },
        { c with
          nextHeartBeat := c.calculateNextHeartBeat now, dbLastHeartBeat := now
          dbNextHeartBeat := c.calculateNextHeartBeat now
          hasCommand := c.hasCommand || row.command.isSome })) ∨
      (∀ row, t.lookup (.member m) = some row → c.ownsRecord row = false) ∧
        heartbeatMemberRecord m now t c = (false, t,
          { c with
            nextHeartBeat := c.calculateNextHeartBeat now
            isExclusivenessLost := c.isExclusivenessLost || c.hasExclusiveness
            beatFailed := true }) := by
  cases hrow : t.lookup (.member m) with
  | none =>
      refine Or.inr ⟨nofun, ?_⟩
      simp [heartbeatMemberRecord, updateRow, hrow]
  | some row =>
      cases hown : c.ownsRecord row with
      | false =>
          refine Or.inr ⟨?_, ?_⟩
          · intro row' heq
            cases heq
            exact hown
          · simp [heartbeatMemberRecord, updateRow, hrow, hown]
      | true =>
          refine Or.inl ⟨row, rfl, hown, ?_⟩
          cases hcommand : row.command with
          | none => simp [heartbeatMemberRecord, updateRow, hrow, hown, hcommand]
          | some text => simp [heartbeatMemberRecord, updateRow, hrow, hown, hcommand]

theorem ownsRecord_iff {c : Cluster} {row : Row} : c.ownsRecord row = true ↔
    row.lastHeartBeat = some c.dbLastHeartBeat ∧ row.nextHeartBeat = some c.dbNextHeartBeat ∧
      row.active = c.isActive ∧ row.exclusive = c.hasExclusiveness := by
  simp only [Cluster.ownsRecord, Bool.and_eq_true, decide_eq_true_eq, and_assoc]

/-! ## Taking the exclusiveness -/

theorem takeFrom_cases (id : MemberId) (k : ClusterMember) (t : Table) :
    takeFrom id k t = (false, t) ∨ ∃ own taken, t.lookup id = some own ∧ own.exclusive = true ∧
      (id ≠ .empty → own.lastHeartBeat = some k.dbLastHeartBeat) ∧ taken.exclusive = false ∧
      (id = .empty → taken.dead = own.dead) ∧ taken.lastHeartBeat = own.lastHeartBeat ∧
      taken.nextHeartBeat = own.nextHeartBeat ∧ takeFrom id k t = (true, t.insert id taken) := by
  rw [takeFrom]
  split
  · rename_i hid
    obtain h | ⟨own, hown, hex, h⟩ := updateRow_cases id (fun row => row.exclusive)
      (fun row => { row with exclusive := false, active := true }) t
    · exact Or.inl h
    · exact Or.inr ⟨own, { own with exclusive := false, active := true }, hown, hex,
        fun hne => absurd hid hne, rfl, fun _ => rfl, rfl, rfl, h⟩
  · rename_i hid
    obtain h | ⟨own, hown, hcond, h⟩ := updateRow_cases id
      (fun row => row.exclusive && decide (row.lastHeartBeat = some k.dbLastHeartBeat)
        && decide (row.nextHeartBeat = some k.dbNextHeartBeat))
      (fun row => { row with exclusive := false, dead := row.dead || !k.isDbDead }) t
    · exact Or.inl h
    · simp only [Bool.and_eq_true, decide_eq_true_eq] at hcond
      exact Or.inr ⟨own, { own with exclusive := false, dead := own.dead || !k.isDbDead }, hown,
        hcond.1.1, fun _ => hcond.1.2, rfl, fun h => absurd h hid, rfl, rfl, h⟩

theorem giveTo_cases (m : Nat) (c : Cluster) (now next : Nat) (t : Table) :
    giveTo m c now next t = (false, t) ∨ ∃ mine given, t.lookup (.member m) = some mine ∧
      mine.exclusive = false ∧ given.exclusive = true ∧ given.active = true ∧
      given.dead = mine.dead ∧ given.lastHeartBeat = some now ∧ given.nextHeartBeat = some next ∧
      giveTo m c now next t = (true, t.insert (.member m) given) := by
  rw [giveTo]
  obtain h | ⟨mine, hmine, hcond, h⟩ := updateRow_cases (.member m)
    (fun row => !row.exclusive && decide (row.active = c.isActive))
    (fun row => { row with
      active := true, exclusive := true, lastHeartBeat := some now, nextHeartBeat := some next }) t
  · exact Or.inl h
  · simp only [Bool.and_eq_true, Bool.not_eq_true'] at hcond
    exact Or.inr ⟨mine, { mine with
      active := true, exclusive := true, lastHeartBeat := some now, nextHeartBeat := some next },
      hmine, hcond.1, rfl, rfl, rfl, rfl, rfl, h⟩

/-- `mark_as_exclusive` changes nothing but the next heart beat, or it takes the
    exclusiveness from the record it knows as exclusive. -/
theorem markAsExclusive_cases (m now : Nat) (t : Table) (c : Cluster) :
    (∃ next, markAsExclusive m now t c = (false, t, { c with nextHeartBeat := next })) ∨
      ∃ id own taken mine given next, c.exclusiveScheduler = some id ∧
        t.lookup id = some own ∧ own.exclusive = true ∧
        (id ≠ .empty → own.lastHeartBeat
          = some ((c.schedulerMap id).getD newMember).dbLastHeartBeat) ∧
        taken.exclusive = false ∧ (id = .empty → taken.dead = own.dead) ∧
        taken.lastHeartBeat = own.lastHeartBeat ∧ taken.nextHeartBeat = own.nextHeartBeat ∧
        (t.insert id taken).lookup (.member m) = some mine ∧ mine.exclusive = false ∧
        given.exclusive = true ∧ given.active = true ∧ given.dead = mine.dead ∧
        given.lastHeartBeat = some now ∧ given.nextHeartBeat = some next ∧
        markAsExclusive m now t c = (true, (t.insert id taken).insert (.member m) given,
          { c.becomeExclusive m id now next with nextHeartBeat := next }) := by
  obtain hid | ⟨id, hid⟩ := Option.eq_none_or_eq_some c.exclusiveScheduler
  · have hnone : markAsExclusive m now t c = (false, t, c) := by
      unfold markAsExclusive
      split
      · rfl
      · rename_i heq
        rw [hid] at heq
        cases heq
    exact Or.inl ⟨c.nextHeartBeat, hnone⟩
  · simp only [markAsExclusive, hid]
    obtain htake | ⟨own, taken, hown, hex, hlast, htex, htdead, htl, htn, htake⟩ :=
      takeFrom_cases id ((c.schedulerMap id).getD newMember) t
    · rw [htake]
      exact Or.inl ⟨_, rfl⟩
    rw [htake]
    obtain hgive | ⟨mine, given, hmine, hmex, hgex, hga, hgd, hgl, hgn, hgive⟩ :=
      giveTo_cases m c now (c.calculateNextHeartBeat now) (t.insert id taken)
    · simp only [hgive]
      exact Or.inl ⟨_, rfl⟩
    · simp only [hgive]
      exact Or.inr ⟨id, own, taken, mine, given, _, rfl, hown, hex, hlast, htex, htdead, htl,
        htn, hmine, hmex, hgex, hga, hgd, hgl, hgn, rfl⟩

end ClusterStep
