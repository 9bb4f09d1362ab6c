import SchedulerEngine.RunInvariantProofs
import Mathlib.Data.List.Nodup
import Mathlib.Data.List.Chain

/-! # Idempotent requests

    `Idempotence` evaluates the body of a request when it is the first with its id,
    and remembers the response for a duplicate until the lifetime of the request
    expires or the next request comes.  The operation is remembered before its body
    is evaluated: when the body throws, a promise is remembered that nobody keeps. -/

set_option linter.unusedSectionVars false

namespace Idempotence

open RunInvariant

/-! ## Request ids -/

/-- `Long.MaxValue`. -/
def maxLong : Int := 9223372036854775807

structure RequestId where
  number : Int
  isLong : -maxLong - 1 ≤ number ∧ number ≤ maxLong
deriving DecidableEq

/-- `toString` of the case class. -/
def RequestId.text (id : RequestId) : String := "RequestId(" ++ toString id.number ++ ")"

/-- `addExact( number, 1 )`; `none` is an `ArithmeticException`. -/
def RequestId.succExact (id : RequestId) : Option Int :=
  if id.number = maxLong then none else some (id.number + 1)

/-- What `RequestId.Eater` does with an id. -/
inductive Eaten where
  | thrown
  | refused
  /-- The id was expected, and now the next one is. -/
  | accepted (expected : Int)
deriving DecidableEq

/-- `RequestId.Eater`: the first id is taken as it is. -/
def eat (expected : Option Int) (id : RequestId) : Eaten :=
  id.succExact.elim .thrown fun next =>
    if expected = none ∨ expected = some id.number then .accepted next else .refused

/-! ## Deliveries -/

structure Request where
  id : RequestId
  lifetime : Option Int
  uri : String

/-- What happens when the body of a delivery is evaluated. -/
structure Outcome where
  /-- The body throws instead of returning a future. -/
  bodyThrows : Bool
  /-- The timer service does not take the timer. -/
  timerFails : Bool

inductive Response where
  /-- The future of an operation. -/
  | future (operation : Nat)
  | badRequest (text : String)
  | thrown
deriving DecidableEq

/-- `Operation`.  Its number says which object it is. -/
structure Operation where
  number : Nat
  id : RequestId
  uri : String
deriving DecidableEq

/-- A lifetime that runs. -/
structure Timer where
  operation : Nat
  due : Int
deriving DecidableEq

/-- A delivery whose body has been evaluated. -/
structure Execution where
  number : Nat
  id : RequestId
  uri : String
  response : Response
  /-- The end of its lifetime, if it has one. -/
  due : Option Int
  /-- Its lifetime has expired. -/
  expired : Bool

structure Server where
  now : Int
  /-- `eatRequestId`. -/
  expected : Option Int
  pendingOperation : Option Operation
  timers : List Timer
  /-- The timers that have elapsed, and whose `onElapsed` is to be called. -/
  elapsed : List Nat
  /-- The next number for an operation. -/
  next : Nat
  /-- The executions, the last one first.  The code does not know them. -/
  executed : List Execution

namespace Server

/-- `pendingOperation.getAndSet`, and the timer of the old operation is cancelled. -/
def register (r : Request) (expected : Int) (s : Server) : Server :=
  { s with
    expected := some expected
    pendingOperation := some ⟨s.next, r.id, r.uri⟩
    timers := s.pendingOperation.elim s.timers fun old =>
      s.timers.filter fun t => t.operation ≠ old.number
    next := s.next + 1 }

/-- The timer of the operation is started, after the body has returned. -/
def startLifetime (r : Request) (o : Outcome) (number : Nat) (s : Server) : Server :=
  if o.bodyThrows || o.timerFails then s
  else { s with timers := r.lifetime.elim s.timers fun d => ⟨number, s.now + d⟩ :: s.timers }

/-- What the executing delivery is answered with. -/
def firstResponse (r : Request) (o : Outcome) (s : Server) : Response :=
  if o.bodyThrows || r.lifetime.isSome && o.timerFails then .thrown else .future s.next

def record (r : Request) (response : Response) (s : Server) : Server :=
  { s with executed :=
      ⟨s.next, r.id, r.uri, response, r.lifetime.map (s.now + ·), false⟩ :: s.executed }

/-- A delivery that is not executed: the latest operation, or an error. -/
def answerKnown (r : Request) (s : Server) : Response :=
  (s.pendingOperation.filter fun known => known.id = r.id).elim
    (.badRequest (if s.expected.any fun expected => r.id.number < expected then
        "HTTP request with expired (duplicate) " ++ r.id.text ++ " is ignored"
      else "HTTP request with unexpected " ++ r.id.text))
    fun known =>
      if r.uri = known.uri then .future known.number
      else .badRequest "Duplicate HTTP request does not match URI"

/-- `apply`. -/
def deliver (r : Request) (o : Outcome) (s : Server) : Response × Server :=
  match eat s.expected r.id with
  | .thrown => (.thrown, s)
  | .refused => (s.answerKnown r, s)
  | .accepted expected =>
      (s.firstResponse r o,
        ((s.record r (s.firstResponse r o)).register r expected).startLifetime r o s.next)

/-- The timer service completes a timer. -/
def elapse (t : Timer) (s : Server) : Server :=
  { s with timers := s.timers.erase t, elapsed := s.elapsed ++ [t.operation] }

/-- `pendingOperation.compareAndSet( newOperation, null )`. -/
def expire (number : Nat) (s : Server) : Server :=
  { s with
    elapsed := s.elapsed.erase number
    pendingOperation := s.pendingOperation.filter fun known => known.number ≠ number
    executed := s.executed.map fun e => if e.number = number then { e with expired := true } else e }

end Server

/-! ## Runs -/

inductive Op where
  | deliver (r : Request) (o : Outcome)
  | tick (d : Nat)
  | elapse (t : Timer)
  | expire (number : Nat)

def perform (s : Server) : Op → Server
  | .deliver r o => (s.deliver r o).2
  | .tick d => { s with now := s.now + d }
  | .elapse t => s.elapse t
  | .expire number => s.expire number

def Allowed (s : Server) : Op → Prop
  | .elapse t => t ∈ s.timers ∧ t.due ≤ s.now
  | .expire number => number ∈ s.elapsed
  | _ => True

def Step (s : Server) (op : Op) (s' : Server) : Prop := Allowed s op ∧ s' = perform s op

structure Initial (s : Server) : Prop where
  expected : s.expected = none
  pendingOperation : s.pendingOperation = none
  timers : s.timers = []
  elapsed : s.elapsed = []
  executed : s.executed = []

/-! ## What is claimed, and when it holds -/

/-- A duplicate of this execution. -/
def Execution.isDuplicate (e : Execution) (r : Request) : Bool := r.id = e.id && r.uri = e.uri

structure Lawful (s : Server) : Prop where
  /-- No id is executed twice. -/
  atMostOnce : (s.executed.map fun e => e.id.number).Nodup
  consecutive : (s.executed.map fun e => e.id.number).IsChain fun a b => a = b + 1
  /-- A duplicate of the latest execution gets its future, and executes nothing. -/
  duplicate : ∀ e ∈ s.executed.head?, e.expired = false → ∀ r o, e.isDuplicate r = true →
    e.response = .future e.number ∧ s.deliver r o = (e.response, s)
  /-- Every other delivery that executes nothing fails, and changes nothing. -/
  other : ∀ r o, (s.deliver r o).2.executed = s.executed →
    (∀ e ∈ s.executed.head?, e.isDuplicate r = true → e.expired = true) →
    (∀ n, (s.deliver r o).1 ≠ .future n) ∧ (s.deliver r o).2 = s
  /-- A lifetime does not expire before its end. -/
  lifetime : ∀ e ∈ s.executed, e.expired = true → ∃ d, e.due = some d ∧ d ≤ s.now
  /-- What is remembered is the latest execution, until its own lifetime expires. -/
  remembered : ∀ e ∈ s.executed.head?, e.expired = false → ∀ number, number ≠ e.number →
    (s.expire number).pendingOperation = some ⟨e.number, e.id, e.uri⟩

/-- The body of a delivery that is executed returns a future, and the timer of its
    lifetime is taken. -/
def Good (s : Server) : Op → Prop
  | .deliver r o => (∃ expected, eat s.expected r.id = .accepted expected) →
      o.bodyThrows = false ∧ (r.lifetime.isSome = true → o.timerFails = false)
  | _ => True

/-! ## The invariant -/

variable {s s' : Server} {r : Request} {o : Outcome} {e : Execution}

/-- The operation that is remembered for an execution. -/
def Execution.remembered (e : Execution) : Option Operation :=
  if e.expired then none else some ⟨e.number, e.id, e.uri⟩

structure Inv (s : Server) : Prop where
  expected : s.expected = s.executed.head?.map fun e => e.id.number + 1
  pending : s.pendingOperation = s.executed.head?.bind Execution.remembered
  response : ∀ e ∈ s.executed, e.response = .future e.number
  consecutive : (s.executed.map fun e => e.id.number).IsChain fun a b => a = b + 1
  notLast : ∀ e ∈ s.executed, e.id.number ≠ maxLong
  bound : ∀ e ∈ s.executed, e.number < s.next
  numbers : (s.executed.map fun e => e.number).Nodup
  timers : ∀ t ∈ s.timers, t.operation < s.next ∧
    ∀ e ∈ s.executed, e.number = t.operation → e.due = some t.due
  elapsed : ∀ n ∈ s.elapsed, n < s.next ∧
    ∀ e ∈ s.executed, e.number = n → ∃ d, e.due = some d ∧ d ≤ s.now
  lifetime : ∀ e ∈ s.executed, e.expired = true → ∃ d, e.due = some d ∧ d ≤ s.now

theorem inv_initial (h : Initial s) : Inv s := by
  have hnone : ∀ e, ¬e ∈ s.executed := by
    intro e he
    rw [h.executed] at he
    exact absurd he List.not_mem_nil
  refine ⟨?_, ?_, fun e he => absurd he (hnone e), ?_, fun e he => absurd he (hnone e), fun e he => absurd he (hnone e),
    ?_, ?_, ?_, fun e he => absurd he (hnone e)⟩
  · rw [h.expected, h.executed]
    rfl
  · rw [h.pendingOperation, h.executed]
    rfl
  · rw [h.executed]
    exact List.isChain_nil
  · rw [h.executed]
    exact List.nodup_nil
  · intro t ht
    rw [h.timers] at ht
    exact absurd ht List.not_mem_nil
  · intro n hn
    rw [h.elapsed] at hn
    exact absurd hn List.not_mem_nil

/-! ## Deliveries -/

theorem eat_accepted {expected : Option Int} {id : RequestId} {next : Int}
    (h : eat expected id = .accepted next) :
    next = id.number + 1 ∧ id.number ≠ maxLong ∧
      (expected = none ∨ expected = some id.number) := by
  rw [eat, RequestId.succExact] at h
  split at h
  · cases h
  · rename_i hmax
    rw [Option.elim_some] at h
    split at h
    · rename_i hor
      exact ⟨(Eaten.accepted.inj h).symm, hmax, hor⟩
    · cases h

/-- A delivery whose id is not accepted changes nothing. -/
theorem deliver_refused (h : ∀ expected, eat s.expected r.id ≠ .accepted expected) :
    (s.deliver r o).2 = s ∧
      ((s.deliver r o).1 = .thrown ∨ (s.deliver r o).1 = s.answerKnown r) := by
  rw [Server.deliver]
  cases heat : eat s.expected r.id with
  | thrown => exact ⟨rfl, Or.inl rfl⟩
  | refused => exact ⟨rfl, Or.inr rfl⟩
  | accepted expected => exact absurd heat (h expected)

/-- A delivery whose id is accepted is executed. -/
theorem deliver_accepted {expected : Int} (h : eat s.expected r.id = .accepted expected) :
    s.deliver r o = (s.firstResponse r o,
      ((s.record r (s.firstResponse r o)).register r expected).startLifetime r o s.next) := by
  rw [Server.deliver, h]

theorem startLifetime_executed {n : Nat} : (s.startLifetime r o n).executed = s.executed := by
  rw [Server.startLifetime]
  split <;> rfl

/-- An execution adds to the executions. -/
theorem accepted_executed {expected : Int} (h : eat s.expected r.id = .accepted expected) :
    (s.deliver r o).2.executed =
      ⟨s.next, r.id, r.uri, s.firstResponse r o, r.lifetime.map (s.now + ·), false⟩ ::
        s.executed := by
  rw [deliver_accepted h]
  show (Server.startLifetime r o s.next _).executed = _
  rw [startLifetime_executed]
  rfl

theorem Inv.head_pending (h : Inv s) (he : e ∈ s.executed.head?) (hlive : e.expired = false) :
    s.pendingOperation = some ⟨e.number, e.id, e.uri⟩ := by
  rw [h.pending, Option.mem_def.mp he, Option.bind_some, Execution.remembered, if_neg]
  rw [hlive]
  exact Bool.false_ne_true

/-- A duplicate of the latest execution is refused. -/
theorem Inv.eat_duplicate (h : Inv s) (he : e ∈ s.executed.head?) (hid : r.id = e.id) :
    eat s.expected r.id = .refused := by
  have hmem := List.mem_of_mem_head? he
  rw [eat, RequestId.succExact, hid, if_neg (h.notLast e hmem), Option.elim_some, if_neg]
  rw [h.expected, Option.mem_def.mp he]
  rintro (hnone | hsome)
  · cases hnone
  · have := Option.some.inj hsome
    dsimp only at this
    omega

theorem Inv.deliver_duplicate (h : Inv s) (he : e ∈ s.executed.head?) (hlive : e.expired = false)
    (hdup : e.isDuplicate r = true) : s.deliver r o = (.future e.number, s) := by
  rw [Execution.isDuplicate, Bool.and_eq_true, decide_eq_true_iff, decide_eq_true_iff] at hdup
  rw [Server.deliver, h.eat_duplicate he hdup.1]
  show (s.answerKnown r, s) = _
  rw [Server.answerKnown, h.head_pending he hlive,
    Option.filter_some_pos (p := fun known : Operation => decide (known.id = r.id))
      (decide_eq_true hdup.1.symm), Option.elim_some, if_pos hdup.2]

/-- What is not a duplicate of the latest execution, or comes too late, fails. -/
theorem Inv.answerKnown_fails (h : Inv s)
    (hother : ∀ e ∈ s.executed.head?, e.isDuplicate r = true → e.expired = true) (n : Nat) :
    s.answerKnown r ≠ .future n := by
  rw [Server.answerKnown]
  cases hf : s.pendingOperation.filter fun known => known.id = r.id with
  | none => exact Response.noConfusion
  | some known =>
      obtain ⟨hpending, hid⟩ := Option.filter_eq_some_iff.mp hf
      rw [h.pending] at hpending
      obtain ⟨e, he, hrem⟩ := Option.bind_eq_some_iff.mp hpending
      rw [Execution.remembered] at hrem
      rw [Option.elim_some]
      split
      · rename_i huri
        split at hrem
        · cases hrem
        · rename_i hlive
          cases hrem
          -- the uri is the same, so that it is a duplicate in time
          have hdup : e.isDuplicate r = true := by
            rw [Execution.isDuplicate, Bool.and_eq_true, decide_eq_true_iff, decide_eq_true_iff]
            exact ⟨(of_decide_eq_true hid).symm, huri⟩
          exact absurd (hother e he hdup) hlive
      · exact Response.noConfusion

/-! ## Every step -/

theorem startLifetime_cases {n : Nat} (s : Server) :
    (s.startLifetime r o n = s) ∨
      ∃ d, r.lifetime = some d ∧
        s.startLifetime r o n = { s with timers := ⟨n, s.now + d⟩ :: s.timers } := by
  rw [Server.startLifetime]
  split
  · exact Or.inl rfl
  · cases hd : r.lifetime with
    | none => exact Or.inl rfl
    | some d => exact Or.inr ⟨d, rfl, rfl⟩

theorem mem_cancelled {old : Option Operation} {l : List Timer} {t : Timer}
    (h : t ∈ old.elim l fun old => l.filter fun t => t.operation ≠ old.number) : t ∈ l := by
  cases old with
  | none => exact h
  | some old => exact (List.mem_filter.mp h).1

theorem firstResponse_good (hgood : o.bodyThrows = false ∧
    (r.lifetime.isSome = true → o.timerFails = false)) :
    s.firstResponse r o = .future s.next := by
  rw [Server.firstResponse, hgood.1, if_neg]
  rw [Bool.false_or, Bool.and_eq_true]
  rintro ⟨hlifetime, hfails⟩
  rw [hgood.2 hlifetime] at hfails
  cases hfails

theorem inv_deliver (h : Inv s) (hgood : Good s (.deliver r o)) : Inv (s.deliver r o).2 := by
  by_cases hacc : ∃ expected, eat s.expected r.id = .accepted expected
  · obtain ⟨hbody, htimer⟩ := hgood hacc
    obtain ⟨expected, hacc⟩ := hacc
    obtain ⟨hnext, hmax, hor⟩ := eat_accepted hacc
    rw [deliver_accepted hacc, firstResponse_good ⟨hbody, htimer⟩]
    have hreg : Inv ((s.record r (.future s.next)).register r expected) := by
      refine ⟨congrArg some hnext, rfl, ?_, ?_, ?_, ?_, ?_, ?_, ?_, ?_⟩
      · rintro e (_ | ⟨_, he⟩)
        · rfl
        · exact h.response e he
      · -- the id is the first one, or follows the last one
        show (r.id.number :: s.executed.map _).IsChain _
        refine h.consecutive.cons ?_
        intro k hk
        rw [List.head?_map] at hk
        obtain ⟨e, he, rfl⟩ := Option.map_eq_some_iff.mp hk
        rw [h.expected, he] at hor
        rcases hor with hnone | hsome
        · cases hnone
        · exact (Option.some.inj hsome).symm
      · rintro e (_ | ⟨_, he⟩)
        · exact hmax
        · exact h.notLast e he
      · rintro e (_ | ⟨_, he⟩)
        · exact Nat.lt_succ_self _
        · exact Nat.lt_succ_of_lt (h.bound e he)
      · refine List.nodup_cons.mpr ⟨?_, h.numbers⟩
        intro hmem
        obtain ⟨e, he, heq⟩ := List.mem_map.mp hmem
        exact absurd heq (Nat.ne_of_lt (h.bound e he))
      · intro t ht
        obtain ⟨hlt, hdue⟩ := h.timers t (mem_cancelled ht)
        refine ⟨Nat.lt_succ_of_lt hlt, ?_⟩
        rintro e (_ | ⟨_, he⟩) heq
        · exact absurd heq (Nat.ne_of_gt hlt)
        · exact hdue e he heq
      · intro n hn
        obtain ⟨hlt, hdue⟩ := h.elapsed n hn
        refine ⟨Nat.lt_succ_of_lt hlt, ?_⟩
        rintro e (_ | ⟨_, he⟩) heq
        · exact absurd heq (Nat.ne_of_gt hlt)
        · exact hdue e he heq
      · rintro e (_ | ⟨_, he⟩) hexpired
        · cases hexpired
        · exact h.lifetime e he hexpired
    obtain heq | ⟨d, hd, heq⟩ :=
      startLifetime_cases (r := r) (o := o) (n := s.next)
        ((s.record r (.future s.next)).register r expected)
    · rw [heq]
      exact hreg
    · rw [heq]
      refine ⟨hreg.expected, hreg.pending, hreg.response, hreg.consecutive, hreg.notLast,
        hreg.bound, hreg.numbers, ?_, hreg.elapsed, hreg.lifetime⟩
      rintro t (_ | ⟨_, ht⟩)
      · refine ⟨Nat.lt_succ_self _, ?_⟩
        rintro e (_ | ⟨_, he⟩) hnumber
        · show r.lifetime.map _ = _
          rw [hd]
          rfl
        · exact absurd hnumber (Nat.ne_of_lt (h.bound e he))
      · exact hreg.timers t ht
  · rw [(deliver_refused fun expected hacc' => hacc ⟨expected, hacc'⟩).1]
    exact h

theorem inv_tick {d : Nat} (h : Inv s) : Inv (perform s (.tick d)) := by
  have hle : s.now ≤ s.now + d := Int.le_add_of_nonneg_right (Int.natCast_nonneg d)
  refine ⟨h.expected, h.pending, h.response, h.consecutive, h.notLast, h.bound, h.numbers, h.timers,
    ?_, ?_⟩
  · intro n hn
    obtain ⟨hlt, hdue⟩ := h.elapsed n hn
    refine ⟨hlt, ?_⟩
    intro e he heq
    obtain ⟨due, hsome, hpast⟩ := hdue e he heq
    exact ⟨due, hsome, Int.le_trans hpast hle⟩
  · intro e he hexpired
    obtain ⟨due, hsome, hpast⟩ := h.lifetime e he hexpired
    exact ⟨due, hsome, Int.le_trans hpast hle⟩

theorem inv_elapse {t : Timer} (h : Inv s) (ht : t ∈ s.timers) (hdue : t.due ≤ s.now) :
    Inv (s.elapse t) := by
  refine ⟨h.expected, h.pending, h.response, h.consecutive, h.notLast, h.bound, h.numbers,
    fun t' ht' => h.timers t' (List.mem_of_mem_erase ht'), ?_, h.lifetime⟩
  intro n hn
  rcases List.mem_append.mp hn with hold | hnew
  · exact h.elapsed n hold
  · rw [List.mem_singleton] at hnew
    rw [hnew]
    obtain ⟨hlt, hsome⟩ := h.timers t ht
    exact ⟨hlt, fun e he heq => ⟨t.due, hsome e he heq, hdue⟩⟩

/-- The execution after a lifetime has expired. -/
def Execution.expire (number : Nat) (e : Execution) : Execution :=
  if e.number = number then { e with expired := true } else e

theorem expire_cases (number : Nat) (e : Execution) :
    (e.number = number ∧ e.expire number = { e with expired := true }) ∨
      (e.number ≠ number ∧ e.expire number = e) := by
  rw [Execution.expire]
  split
  · rename_i heq
    exact Or.inl ⟨heq, rfl⟩
  · rename_i hne
    exact Or.inr ⟨hne, rfl⟩

/-- The operation is forgotten if it is the one whose lifetime expires. -/
theorem remembered_expire (number : Nat) (e : Execution) :
    (e.expire number).remembered = e.remembered.filter fun known => known.number ≠ number := by
  obtain ⟨hn, hexp⟩ | ⟨hn, hexp⟩ := expire_cases number e
  · rw [hexp, Execution.remembered, if_pos rfl, Execution.remembered]
    split
    · rfl
    · exact (Option.filter_some_neg (by simp [hn])).symm
  · rw [hexp, Execution.remembered]
    split
    · rfl
    · exact (Option.filter_some_pos (by simp [hn])).symm

theorem mem_expire {number : Nat} {e' : Execution} (h : e' ∈ (s.expire number).executed) :
    ∃ e ∈ s.executed, e' = { e with expired := e'.expired } ∧
      (e'.expired = true → e.expired = true ∨ e.number = number) := by
  obtain ⟨e, he, heq⟩ := List.mem_map.mp h
  refine ⟨e, he, ?_⟩
  obtain ⟨hn, hexp⟩ | ⟨hn, hexp⟩ := expire_cases number e
  · rw [Execution.expire] at hexp
    rw [← heq, hexp]
    exact ⟨rfl, fun _ => Or.inr hn⟩
  · rw [Execution.expire] at hexp
    rw [← heq, hexp]
    exact ⟨rfl, Or.inl⟩

theorem map_expire {α : Type} {f : Execution → α} (number : Nat) (l : List Execution)
    (hf : ∀ e : Execution, f { e with expired := true } = f e) :
    (l.map fun e => if e.number = number then { e with expired := true } else e).map f
      = l.map f := by
  rw [List.map_map]
  refine List.map_congr_left fun e _ => ?_
  show f (if e.number = number then { e with expired := true } else e) = f e
  split
  · exact hf e
  · rfl

theorem inv_expire {number : Nat} (h : Inv s) (hn : number ∈ s.elapsed) :
    Inv (s.expire number) := by
  obtain ⟨hlt, hdue⟩ := h.elapsed number hn
  refine ⟨?_, ?_, ?_, ?_, ?_, ?_, ?_, ?_, ?_, ?_⟩
  · show s.expected = _
    rw [h.expected]
    show _ = (s.executed.map _).head?.map _
    rw [List.head?_map, Option.map_map]
    refine congrArg (fun f => s.executed.head?.map f) (funext fun e => ?_)
    show _ = (if e.number = number then { e with expired := true } else e).id.number + 1
    split <;> rfl
  · show s.pendingOperation.filter _ = _
    rw [h.pending]
    show _ = (s.executed.map _).head?.bind _
    rw [List.head?_map]
    cases s.executed.head? with
    | none => rfl
    | some e => exact (remembered_expire number e).symm
  · intro e' he'
    obtain ⟨e, he, heq, -⟩ := mem_expire he'
    rw [heq]
    exact h.response e he
  · have heq := map_expire number s.executed (f := fun e => e.id.number) fun _ => rfl
    exact heq ▸ h.consecutive
  · intro e' he'
    obtain ⟨e, he, heq, -⟩ := mem_expire he'
    rw [heq]
    exact h.notLast e he
  · intro e' he'
    obtain ⟨e, he, heq, -⟩ := mem_expire he'
    rw [heq]
    exact h.bound e he
  · have heq := map_expire number s.executed (f := fun e => e.number) fun _ => rfl
    exact heq ▸ h.numbers
  · intro t ht
    refine ⟨(h.timers t ht).1, ?_⟩
    intro e' he' hnumber
    obtain ⟨e, he, heq, -⟩ := mem_expire he'
    rw [heq] at hnumber ⊢
    exact (h.timers t ht).2 e he hnumber
  · intro n hn'
    obtain ⟨hlt', hdue'⟩ := h.elapsed n (List.mem_of_mem_erase hn')
    refine ⟨hlt', ?_⟩
    intro e' he' hnumber
    obtain ⟨e, he, heq, -⟩ := mem_expire he'
    rw [heq] at hnumber ⊢
    exact hdue' e he hnumber
  · intro e' he' hexpired
    obtain ⟨e, he, heq, hor⟩ := mem_expire he'
    rw [heq]
    rcases hor hexpired with hold | hnew
    · exact h.lifetime e he hold
    · exact hdue e he hnew

theorem inv_step {op : Op} (h : Inv s) (hstep : Guarded Good Step s op s') : Inv s' := by
  obtain ⟨hgood, hallowed, rfl⟩ := hstep
  cases op with
  | deliver r o => exact inv_deliver h hgood
  | tick d => exact inv_tick h
  | elapse t => exact inv_elapse h hallowed.1 hallowed.2
  | expire number => exact inv_expire h hallowed

theorem lawful_of_inv (h : Inv s) : Lawful s := by
  refine ⟨?_, h.consecutive, ?_, ?_, h.lifetime, ?_⟩
  · -- the ids get smaller from one execution to the one before it
    have hlt : (s.executed.map fun e => e.id.number).IsChain (· > ·) :=
      h.consecutive.imp fun a b hab => by omega
    exact (List.isChain_iff_pairwise.mp hlt).imp fun hab => (Int.ne_of_lt hab).symm
  · intro e he hlive r o hdup
    have hresponse := h.response e (List.mem_of_mem_head? he)
    rw [hresponse]
    exact ⟨rfl, h.deliver_duplicate he hlive hdup⟩
  · intro r o hsame hother
    have hnot : ∀ expected, eat s.expected r.id ≠ .accepted expected := by
      intro expected hacc
      have hlen := congrArg List.length hsame
      rw [accepted_executed hacc, List.length_cons] at hlen
      omega
    obtain ⟨hstate, hthrown | hknown⟩ := deliver_refused (o := o) hnot
    · refine ⟨fun n => ?_, hstate⟩
      rw [hthrown]
      exact Response.noConfusion
    · refine ⟨fun n => ?_, hstate⟩
      rw [hknown]
      exact h.answerKnown_fails hother n
  · intro e he hlive number hne
    show s.pendingOperation.filter _ = _
    rw [h.head_pending he hlive]
    exact Option.filter_some_pos (decide_eq_true hne.symm)

instance (s : Server) (op : Op) : Decidable (Allowed s op) :=
  match op with
  | .elapse t => inferInstanceAs (Decidable (t ∈ s.timers ∧ t.due ≤ s.now))
  | .expire number => inferInstanceAs (Decidable (number ∈ s.elapsed))
  | .deliver _ _ | .tick _ => inferInstanceAs (Decidable True)

instance (expected : Option Int) (id : RequestId) :
    Decidable (∃ next, eat expected id = .accepted next) :=
  match eat expected id with
  | .accepted next => isTrue ⟨next, rfl⟩
  | .refused => isFalse fun h => Exists.elim h fun _ hacc => Eaten.noConfusion hacc
  | .thrown => isFalse fun h => Exists.elim h fun _ hacc => Eaten.noConfusion hacc

instance (s : Server) (op : Op) : Decidable (Good s op) :=
  match op with
  | .deliver _ _ => inferInstanceAs (Decidable (_ → _ ∧ _))
  | .tick _ | .elapse _ | .expire _ => inferInstanceAs (Decidable True)

def attempt : Server → Op → Option Server := nextIf Allowed fun s op => some (perform s op)

theorem attempt_step (s : Server) (op : Op) (s' : Server) (h : attempt s op = some s') :
    Step s op s' := by
  show Guarded Allowed (fun s op s' => s' = perform s op) s op s'
  exact nextIf_step (fun _ _ _ hs => (Option.some.inj hs).symm) h

def started : Server := ⟨0, none, none, [], [], 0, []⟩

theorem initial_started : Initial started := ⟨rfl, rfl, rfl, rfl, rfl⟩

def five : RequestId := ⟨5, by decide⟩

def six : RequestId := ⟨6, by decide⟩

/-- The body of the first request returns, its lifetime expires, and the next one
    comes. -/
def inOrder : List Op :=
  [.deliver ⟨five, some 10, "uri"⟩ ⟨false, false⟩, .deliver ⟨five, none, "uri"⟩ ⟨false, false⟩,
    .tick 10, .elapse ⟨0, 10⟩, .deliver ⟨six, none, "uri"⟩ ⟨false, false⟩, .expire 0]

/-- A heartbeat for an operation that is not known. -/
def unknownHeartbeat : List Op := [.deliver ⟨five, none, "uri"⟩ ⟨true, false⟩]

end Idempotence
