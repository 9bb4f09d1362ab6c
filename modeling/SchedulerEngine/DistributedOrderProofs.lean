import SchedulerEngine.RunInvariantProofs
import Mathlib.Logic.Function.Basic

/-! # Distributed orders

    The members of a cluster share the orders of a distributed job chain in one
    table.  A member works on an order with an object in its memory; each
    transaction names one record of the table and adds conditions on its columns,
    which tell who occupies the record. -/

namespace DistributedOrder

open RunInvariant

/-! ## The table -/

structure Key where
  jobChain : String
  id : String
deriving DecidableEq

/-- The text of `distributed_next_time`: a second, or one of the constants of the
    year 3111. -/
inductive NextTime where
  | at (second : Nat)
  | never
  | blacklist
  | replacement
deriving DecidableEq

/-- `now_database_distributed_next_time`, the begin of the year 2000. -/
def nowNextTime : NextTime := .at 946684800

/-- `never_int`. -/
def neverInt : Nat := 2147483647

/-- `Time::of_utc_date_time`, in milliseconds; what is later than `Time::never`
    becomes `Time::never`. -/
def NextTime.toTime : NextTime → Nat
  | .at second => min (second * 1000) (neverInt * 1000)
  | _ => neverInt * 1000

/-- The attributes of the column `order_xml`. -/
structure OrderXml where
  replacement : Bool
  touched : Bool
  suspended : Bool
  setback : Nat
deriving DecidableEq

/-- A record of the orders table. -/
structure Record where
  state : String
  /-- `occupying_cluster_member_id`. -/
  occupying : Option Nat
  nextTime : NextTime
  orderXml : OrderXml
deriving DecidableEq

/-! ## An order in memory -/

/-- What a member does with an order object: it has read the record of the next
    order, it has occupied it, a task processes it, or it has been loaded for
    `<modify_order>`. -/
inductive Phase where
  | found | occupied | processing | loaded
deriving DecidableEq

structure Order where
  key : Key
  phase : Phase
  state : String
  occupiedState : Option String
  isDbOccupied : Bool
  isInDatabase : Bool
  isReplacement : Bool
  isOnBlacklist : Bool
  suspended : Bool
  scheduleIsIncomplete : Bool
  isTouched : Bool
  hasTask : Bool
  setback : Nat
deriving DecidableEq

namespace Order

/-- `is_self_processable`. -/
def isSelfProcessable (o : Order) : Bool :=
  !o.isOnBlacklist && !o.suspended && !o.hasTask && !o.isReplacement && !o.scheduleIsIncomplete

/-- `calculate_db_distributed_next_time`. -/
def calculateNextTime (o : Order) : NextTime :=
  if o.isOnBlacklist then .blacklist
  else if o.isReplacement then .replacement
  else
    let nextTime := if o.isSelfProcessable then o.setback else neverInt * 1000
    if nextTime = 0 then nowNextTime
    else if neverInt * 1000 ≤ nextTime then .never
    else .at ((nextTime + 999) / 1000)

/-- `database_xml`. -/
def databaseXml (o : Order) : OrderXml := ⟨o.isReplacement, o.isTouched, o.suspended, o.setback⟩

/-- `load_record`, of a record that carries the time. -/
def ofRecord (key : Key) (r : Record) (setback : Nat) (phase : Phase) : Order where
  key
  phase
  state := r.state
  occupiedState := none
  isDbOccupied := false
  isInDatabase := true
  isReplacement := false
  isOnBlacklist := false
  suspended := false
  scheduleIsIncomplete := false
  isTouched := false
  hasTask := false
  setback

/-- `load_blobs`. -/
def loadBlobs (xml : OrderXml) (o : Order) : Order :=
  { o with
    isReplacement := o.isReplacement || xml.replacement
    isTouched := xml.touched
    suspended := o.suspended || xml.suspended
    setback := if xml.setback = 0 then o.setback else xml.setback }

/-- The order that `try_load_distributed_order_from_database` makes of a record;
    it does not read the time. -/
def loaded (key : Key) (r : Record) : Order := (ofRecord key r 0 .loaded).loadBlobs r.orderXml

/-- The columns that `db_update2` writes. -/
def write (o : Order) (occupying : Option Nat) : Record :=
  ⟨o.state, occupying, o.calculateNextTime, o.databaseXml⟩

end Order

/-! ## The transactions

    A transaction is about the record with the key of its order. -/

/-- `Update_option`. -/
inductive UpdateOption where
  | anyway | notOccupied | andReleaseOccupation
deriving DecidableEq

variable (me : Nat)

/-- The condition of `db_occupy_for_processing`. -/
def isOccupiable (o : Order) (r : Record) : Bool :=
  r.state = o.state && r.occupying.isNone && r.nextTime = o.calculateNextTime

/-- `db_occupy_for_processing`. -/
def dbOccupyForProcessing (o : Order) (record : Option Record) : Order × Option Record :=
  match record with
  | some r =>
      if isOccupiable o r then
        ({ o with isDbOccupied := true, occupiedState := some o.state, phase := .occupied },
          some { r with occupying := some me })
      else (o, record)
  | none => (o, record)

/-- The condition of `db_update2` and `db_release_occupation` for an occupied
    order. -/
def isMine (o : Order) (r : Record) : Bool :=
  r.occupying = some me && some r.state = o.occupiedState

/-- `db_release_occupation`. -/
def dbReleaseOccupation (o : Order) (record : Option Record) : Order × Option Record :=
  if o.isDbOccupied then
    ({ o with isDbOccupied := false },
      record.map fun r => if isMine me o r then { r with occupying := none } else r)
  else (o, record)

/-- The condition of `db_update2`. -/
def matches_ (o : Order) (r : Record) : Bool :=
  if o.isDbOccupied then isMine me o r else r.occupying.isNone

/-- `db_handle_modified_order`: a replacement is made executable. -/
def dbHandleModifiedOrder (key : Key) (record : Option Record) : Option Record :=
  record.map fun r =>
    -- an occupied record throws SCHEDULER-379
    if r.occupying.isNone && (Order.loaded key r).isReplacement
    then { Order.loaded key r with isReplacement := false }.write none
    else r

/-- The statement of `db_update2`, or what is done when it finds no record. -/
def updateOrDelete (option : UpdateOption) (delet : Bool) (o : Order) (record : Option Record) :
    Option Record :=
  match record.filter (matches_ me o) with
  | some r =>
      if delet then none
      else some (o.write (if option = .andReleaseOccupation then none else r.occupying))
  | none => dbHandleModifiedOrder o.key record

/-- What `db_update2` does with the order. -/
def Order.afterUpdate (option : UpdateOption) (delet : Bool) (o : Order) : Order :=
  if delet then { o with isInDatabase := false, isDbOccupied := false, occupiedState := none }
  else if option = .andReleaseOccupation then { o with isDbOccupied := false, occupiedState := none }
  else o

/-- `db_update2`; it throws if the order is occupied and must not be. -/
def dbUpdate2 (allTasksKilled : Bool) (option : UpdateOption) (delet : Bool) (o : Order)
    (record : Option Record) : Order × Option Record :=
  if option = .andReleaseOccupation && allTasksKilled then dbReleaseOccupation me o record
  else if !o.isInDatabase || option = .notOccupied && o.isDbOccupied then (o, record)
  else (o.afterUpdate option delet, updateOrDelete me option delet o record)

/-- The first part of `db_try_insert`: a replacement waits if the record is
    occupied. -/
def Order.replace (o : Order) (record : Option Record) : Order :=
  { o with isReplacement := o.isReplacement && record.any fun r => r.occupying.isSome }

/-- `db_try_insert`, of a distributed order. -/
def dbTryInsert (o : Order) (record : Option Record) : Option Record :=
  if o.isReplacement then some ((o.replace record).write none)
  else some (record.getD (o.write none))

/-- `try_delete_distributed`. -/
def tryDeleteDistributed (key : Key) (record : Option Record) : Option Record :=
  record.filter fun r => r.occupying.isSome || (Order.loaded key r).isTouched

/-! ## The members -/

/-- A member and the number of one of its order objects. -/
abbrev Handle := Nat × Nat

structure System where
  table : Key → Option Record
  orders : Handle → Option Order
  /-- `_are_all_tasks_killed`. -/
  allTasksKilled : Nat → Bool

namespace System

variable (s : System)

def setOrder (h : Handle) (o : Option Order) : System :=
  { s with orders := Function.update s.orders h o }

def setRecord (key : Key) (r : Option Record) : System :=
  { s with table := Function.update s.table key r }

/-- A transaction for an order object. -/
def transact (h : Handle) (f : Order → Option Record → Order × Option Record) : System :=
  match s.orders h with
  | some o => (s.setOrder h (some (f o (s.table o.key)).1)).setRecord o.key (f o (s.table o.key)).2
  | none => s

end System

/-- What a task or a command changes in an order. -/
structure Change where
  state : String
  setback : Nat
  isOnBlacklist : Bool
  suspended : Bool
  scheduleIsIncomplete : Bool
  leavesTask : Bool

def Order.change (c : Change) (o : Order) : Order :=
  { o with
    state := c.state
    setback := c.setback
    isOnBlacklist := c.isOnBlacklist
    suspended := c.suspended
    scheduleIsIncomplete := c.scheduleIsIncomplete
    hasTask := o.hasTask && !c.leavesTask }

/-- An order that is to be added to its job chain. -/
def Order.new (key : Key) (state : String) (suspended : Bool) (setback : Nat)
    (isReplacement : Bool) : Order where
  key
  phase := .loaded
  state
  occupiedState := none
  isDbOccupied := false
  isInDatabase := false
  isReplacement
  isOnBlacklist := false
  suspended
  scheduleIsIncomplete := false
  isTouched := false
  hasTask := false
  setback

/-- `occupy_for_task`, after the rest of the record has been read. -/
def Order.occupyForTask (o : Order) : Order :=
  { o with setback := 0, hasTask := true, isTouched := true, phase := .processing }

/-- `close`; then the object is gone. -/
def Order.close (o : Order) (record : Option Record) : Order × Option Record :=
  dbReleaseOccupation me { o with hasTask := false, isReplacement := false } record

/-- What a member does: the steps of
    `load_and_occupy_next_distributed_order_from_database`, the processing of an
    order, `<modify_order>`, the insertion of an order, and the removal of a
    standing order. -/
inductive Op where
  | read (h : Nat) (key : Key) (now : Nat)
  | occupy (h : Nat)
  | loadBlobs (h : Nat)
  | change (h : Nat) (c : Change)
  | dbUpdate (h : Nat) (option : UpdateOption)
  | dbDelete (h : Nat) (option : UpdateOption)
  | close (h : Nat)
  | load (h : Nat) (key : Key)
  | insert (key : Key) (state : String) (suspended : Bool) (setback : Nat) (isReplacement : Bool)
  | tryDelete (key : Key)
  | killAllTasks

/-- The order that the member reads. -/
def System.foundOrder (s : System) (key : Key) : Option Order :=
  (s.table key).map fun r => Order.ofRecord key r r.nextTime.toTime .found

def System.loadedOrder (s : System) (key : Key) : Option Order :=
  (s.table key).map fun r => Order.loaded key r

/-- `load_blobs`; if the record is gone the order is closed. -/
def System.loadBlobs (h : Handle) (s : System) : System :=
  match s.orders h with
  | some o =>
      match s.table o.key with
      | some r => s.setOrder h (some (o.loadBlobs r.orderXml).occupyForTask)
      | none => s.setOrder h none
  | none => s

def perform (s : System) : Op → System
  | .read h key _ => s.setOrder (me, h) (s.foundOrder key)
  | .occupy h => s.transact (me, h) (dbOccupyForProcessing me)
  | .loadBlobs h => s.loadBlobs (me, h)
  | .change h c => s.setOrder (me, h) ((s.orders (me, h)).map (Order.change c))
  | .dbUpdate h option =>
      s.transact (me, h) (dbUpdate2 me (s.allTasksKilled me) option false)
  | .dbDelete h option =>
      s.transact (me, h) (dbUpdate2 me (s.allTasksKilled me) option true)
  | .close h => (s.transact (me, h) (Order.close me)).setOrder (me, h) none
  | .load h key => s.setOrder (me, h) (s.loadedOrder key)
  | .insert key state suspended setback isReplacement =>
      s.setRecord key
        (dbTryInsert (Order.new key state suspended setback isReplacement) (s.table key))
  | .tryDelete key => s.setRecord key (tryDeleteDistributed key (s.table key))
  | .killAllTasks => { s with allTasksKilled := Function.update s.allTasksKilled me true }

/-- `distributed_next_time <= now`. -/
def NextTime.isDue (now : Nat) : NextTime → Bool
  | .at second => second ≤ now
  | _ => false

/-- The object is in the phase. -/
def System.isIn (s : System) (h : Handle) (p : Order → Bool) : Bool := (s.orders h).any p

/-- When a member may do it; the clock has not reached the end of time. -/
def enabled (s : System) : Op → Bool
  | .read h key now =>
      (s.orders (me, h)).isNone && now < neverInt &&
        (s.table key).any fun r => r.nextTime.isDue now && r.occupying.isNone
  | .occupy h => s.isIn (me, h) fun o => o.phase = .found
  | .loadBlobs h => s.isIn (me, h) fun o => o.phase = .occupied
  | .change h _ => s.isIn (me, h) fun o => o.phase = .processing || o.phase = .loaded
  | .dbUpdate h _ => s.isIn (me, h) fun o => o.phase = .processing || o.phase = .loaded
  | .dbDelete h _ => s.isIn (me, h) fun o => o.phase = .processing || o.phase = .loaded
  | .close h => s.isIn (me, h) fun _ => true
  | .load h key =>
      (s.orders (me, h)).isNone && (s.table key).any fun r => r.occupying.isNone
  | _ => true

/-- A step of a member. -/
def Step (s : System) (op : Nat × Op) (s' : System) : Prop :=
  enabled op.1 s op.2 = true ∧ s' = perform op.1 s op.2

def attempt (s : System) (op : Nat × Op) : Option System :=
  if enabled op.1 s op.2 then some (perform op.1 s op.2) else none

theorem attempt_step (s : System) (op : Nat × Op) (s' : System) (h : attempt s op = some s') :
    Step s op s' := by
  rw [attempt] at h
  split at h
  · rename_i he
    exact ⟨he, (Option.some.inj h).symm⟩
  · cases h

/-- No order is in memory; no record of the table is occupied or waits. -/
structure Initial (s : System) : Prop where
  orders : ∀ h, s.orders h = none
  records : ∀ key r, s.table key = some r →
    r.occupying = none ∧ r.nextTime ≠ .replacement ∧ r.orderXml.replacement = false

def Reachable : System → Prop := Reach Initial Step

/-! ## What a step leaves alone -/

variable {me : Nat} {s s' : System} {x y : Handle} {key : Key} {o : Order}
  {f : Order → Option Record → Order × Option Record}

theorem System.setOrder_orders (order : Option Order) :
    (s.setOrder x order).orders y = if y = x then order else s.orders y :=
  Function.update_apply _ _ _ _

theorem System.setRecord_table (key' : Key) (record : Option Record) :
    (s.setRecord key record).table key' = if key' = key then record else s.table key' :=
  Function.update_apply _ _ _ _

theorem System.transact_orders (hx : s.orders x = some o) :
    (s.transact x f).orders y = if y = x then some (f o (s.table o.key)).1 else s.orders y := by
  rw [transact, hx]
  exact setOrder_orders _

theorem System.transact_table (hx : s.orders x = some o) :
    (s.transact x f).table key
      = if key = o.key then (f o (s.table o.key)).2 else s.table key := by
  rw [transact, hx]
  exact setRecord_table _ _

theorem System.transact_orders_of_ne (hne : y ≠ x) : (s.transact x f).orders y = s.orders y := by
  cases hx : s.orders x with
  | none => rw [transact, hx]
  | some o => rw [transact_orders hx, if_neg hne]

/-- The object that an operation works on. -/
def Op.handle : Op → Option Nat
  | .read h _ _ | .occupy h | .loadBlobs h | .change h _ | .dbUpdate h _ | .dbDelete h _
  | .close h | .load h _ => some h
  | .insert .. | .tryDelete _ | .killAllTasks => none

/-- The other objects stay as they are. -/
theorem perform_orders_of_ne (op : Op) (hne : ∀ h, op.handle = some h → x ≠ (me, h)) :
    (perform me s op).orders x = s.orders x := by
  cases op with
  | read h key now => exact Function.update_of_ne (hne h rfl) _ _
  | occupy h => exact System.transact_orders_of_ne (hne h rfl)
  | loadBlobs h =>
      show (s.loadBlobs (me, h)).orders x = s.orders x
      rw [System.loadBlobs]
      split
      · split <;> exact Function.update_of_ne (hne h rfl) _ _
      · rfl
  | change h c => exact Function.update_of_ne (hne h rfl) _ _
  | dbUpdate h option => exact System.transact_orders_of_ne (hne h rfl)
  | dbDelete h option => exact System.transact_orders_of_ne (hne h rfl)
  | close h =>
      show ((s.transact (me, h) (Order.close me)).setOrder (me, h) none).orders x = s.orders x
      rw [System.setOrder_orders, if_neg (hne h rfl), System.transact_orders_of_ne (hne h rfl)]
  | load h key => exact Function.update_of_ne (hne h rfl) _ _
  | _ => rfl

theorem runAll_orders_of_ne {ops : List (Nat × Op)} (hrun : runAll attempt s ops = some s')
    (hne : ∀ op ∈ ops, ∀ h, op.2.handle = some h → x ≠ (op.1, h)) :
    s'.orders x = s.orders x := by
  induction ops generalizing s with
  | nil =>
      cases hrun
      rfl
  | cons op ops ih =>
      obtain ⟨s₁, hstep, hrest⟩ := Option.bind_eq_some_iff.mp hrun
      obtain ⟨-, rfl⟩ := attempt_step s op s₁ hstep
      rw [ih hrest fun op' hin => hne op' (List.mem_cons_of_mem op hin)]
      exact perform_orders_of_ne op.2 (hne op List.mem_cons_self)

end DistributedOrder
