import SchedulerEngine.RunInvariantProofs
import Mathlib.Data.List.Basic

/-! # The requests of a tunnel

    `Connector` is the state machine between the tunnel handler and the TCP peer.
    A request brings a promise, which the machine holds as its data until the reply
    of the peer comes.  Most events complete the promise that they drop; a second
    request and the termination of the bridge do not. -/

set_option linter.unusedSectionVars false

namespace Connector

open RunInvariant

/-! ## The state machine -/

inductive State where
  | expectingRequest
  | expectingMessageFromTcp
  | closing
deriving DecidableEq

def State.text : State → String
  | .expectingRequest => "ExpectingRequest"
  | .expectingMessageFromTcp => "ExpectingMessageFromTcp"
  | .closing => "Closing"

/-- A promise is known by its number. -/
inductive Data where
  | noData
  | respond (responsePromise : Nat)
deriving DecidableEq

structure Request where
  message : String
  responsePromise : Nat
  timeout : Option Nat
deriving DecidableEq

inductive Event where
  | request (r : Request)
  | heartbeat (timeout : Nat)
  | close
  /-- What `MessageTcpBridge` sends. -/
  | messageReceived (message : String)
  | peerClosed
  | failed (throwable : String)
  /-- `Tcp.ConnectionClosed`. -/
  | connectionClosed (closed : String)
  /-- The bridge has terminated. -/
  | terminated
  /-- Any other message. -/
  | other
deriving DecidableEq

inductive ToBridge where
  | sendMessage (message : String)
  | close
  | abort
deriving DecidableEq

inductive Outcome where
  | success (message : String)
  | failure (text : String)
deriving DecidableEq

/-- The actor after its tunnel has been associated. -/
structure Actor where
  /-- `toString`. -/
  name : String
  stateName : State
  data : Data
  isStopped : Bool
  messageTcpBridgeTerminated : Bool
  messageTcpBridgeCloseSent : Bool
  /-- The timeout of `inactivityWatchdog`, when it runs. -/
  watchdog : Option Nat
  toBridge : List ToBridge
  /-- The promises that have been completed. -/
  completed : List (Nat × Outcome)
  /-- The events that have been delivered, the last one first.  The code does not know them. -/
  delivered : List Event

namespace Actor

def isCompleted (p : Nat) (s : Actor) : Bool := (s.completed.map Prod.fst).contains p

def stop (s : Actor) : Actor := { s with isStopped := true, watchdog := none }

/-- `goto using`; every transition to `Closing` stops the watchdog. -/
def goto (state : State) (data : Data) (s : Actor) : Actor :=
  { s with
    stateName := state
    data := data
    watchdog := if state = .closing then none else s.watchdog }

def tell (m : ToBridge) (s : Actor) : Actor := { s with toBridge := m :: s.toBridge }

def restartWatchdog (timeout : Option Nat) (s : Actor) : Actor := { s with watchdog := timeout }

/-- `closeBridge`. -/
def closeBridge (s : Actor) : Actor :=
  if !s.messageTcpBridgeTerminated && !s.messageTcpBridgeCloseSent then
    { s with messageTcpBridgeCloseSent := true }.tell .close
  else s

/-- `success` and `failure` of a promise throw when it is completed, and the actor is stopped. -/
def complete (p : Nat) (o : Outcome) (s : Actor) (next : Actor → Actor) : Actor :=
  if s.isCompleted p then s.stop else next { s with completed := (p, o) :: s.completed }

def tryFailure (p : Nat) (text : String) (s : Actor) : Actor :=
  if s.isCompleted p then s else { s with completed := (p, .failure text) :: s.completed }

/-- `when( ExpectingMessageFromTcp )`, with `handleHeartbeat`. -/
def whenExpectingMessageFromTcp (s : Actor) (e : Event) : Option Actor :=
  match e, s.data with
  -- the tunnel id is set only once
  | .messageReceived _, .noData => some s.stop
  | .messageReceived message, .respond p =>
      some (s.complete p (.success message) fun s => s.goto .expectingRequest .noData)
  | .peerClosed, .respond p =>
      some (s.complete p
        (.failure (s.name ++ ": Peer has closed the connection while expecting a response")) stop)
  | .failed throwable, .respond p =>
      some (s.complete p (.failure throwable) fun s => s.goto .expectingRequest .noData)
  | .close, .respond p =>
      some (s.complete p
        (.failure (s.name ++ ": Connection to peer has been closed by command"))
        fun s => s.closeBridge.goto .closing .noData)
  | .heartbeat timeout, _ => some (s.restartWatchdog (some timeout))
  | _, _ => none

/-- `when( ExpectingRequest )`, with `handleHeartbeat`. -/
def whenExpectingRequest (s : Actor) (e : Event) : Option Actor :=
  match e, s.data with
  | .request r, .noData =>
      some (((s.tell (.sendMessage r.message)).restartWatchdog r.timeout).goto
        .expectingMessageFromTcp (.respond r.responsePromise))
  | .peerClosed, .noData => some s.stop
  | .heartbeat timeout, _ => some (s.restartWatchdog (some timeout))
  | _, _ => none

/-- `when( Closing )`. -/
def whenClosing (s : Actor) : Event → Option Actor
  | .connectionClosed _ => some s.stop
  | _ => none

/-- `whenUnhandled`. -/
def whenUnhandled (s : Actor) : Event → Actor
  | .failed _ =>
      (if s.messageTcpBridgeTerminated then s else s.tell .abort).goto .closing .noData
  | .close => s.closeBridge.goto .closing .noData
  | .connectionClosed closed =>
      match s.data with
      | .respond p =>
          s.complete p (.failure
            (s.name ++ ": Connection has unexpectedly been closed: " ++ closed)) stop
      | .noData => s.stop
  | .terminated => { s with messageTcpBridgeTerminated := true }.stop
  | .request r =>
      (s.tryFailure r.responsePromise ("Unexpected request in state " ++ s.stateName.text)).closeBridge.goto
        .closing .noData
  | _ =>
      match s.data with
      | .noData => s.closeBridge.goto .closing .noData
      -- nothing handles it
      | .respond _ => s

def stateFunction (s : Actor) (e : Event) : Option Actor :=
  match s.stateName with
  | .expectingMessageFromTcp => s.whenExpectingMessageFromTcp e
  | .expectingRequest => s.whenExpectingRequest e
  | .closing => s.whenClosing e

def receive (s : Actor) (e : Event) : Actor := (s.stateFunction e).getD (s.whenUnhandled e)

end Actor

/-! ## Runs -/

def perform (s : Actor) (e : Event) : Actor :=
  { s.receive e with delivered := e :: s.delivered }

def Event.promise? : Event → Option Nat
  | .request r => some r.responsePromise
  | _ => none

/-- The promises that have been handed over. -/
def handed (s : Actor) : List Nat := s.delivered.filterMap Event.promise?

/-- The actor exists, and a request brings a promise of its own. -/
def Allowed (s : Actor) (e : Event) : Prop :=
  s.isStopped = false ∧ ∀ p ∈ e.promise?, p ∉ handed s

def Step (s : Actor) (e : Event) (s' : Actor) : Prop := Allowed s e ∧ s' = perform s e

/-- The tunnel has just been associated. -/
structure Initial (s : Actor) : Prop where
  stateName : s.stateName = .expectingRequest
  data : s.data = .noData
  isStopped : s.isStopped = false
  completed : s.completed = []
  delivered : s.delivered = []

/-! ## What is claimed, and when it holds -/

def Event.isQuiet : Event → Bool
  | .heartbeat _ => true
  | .other => true
  | _ => false

/-- The request of the promise is the last one, and nothing has come from the peer since. -/
def IsLast (delivered : List Event) (p : Nat) : Prop :=
  ∃ between earlier r, delivered = between ++ Event.request r :: earlier ∧
    r.responsePromise = p ∧ ∀ e ∈ between, e.isQuiet = true

/-- The message is the first thing that has come from the peer after the request. -/
def IsReply (delivered : List Event) (p : Nat) (message : String) : Prop :=
  ∃ later earlier, delivered = later ++ Event.messageReceived message :: earlier ∧ IsLast earlier p

/-- The actor still holds the promise. -/
def IsHeld (s : Actor) (p : Nat) : Prop := s.isStopped = false ∧ s.data = .respond p

/-- Every promise is held or completed, and a success is the reply to its request. -/
structure Kept (s : Actor) : Prop where
  completed_or_held : ∀ p ∈ handed s, s.isCompleted p = true ∨ IsHeld s p
  reply : ∀ p message, (p, .success message) ∈ s.completed → IsReply s.delivered p message

def Event.isAbrupt : Event → Bool
  | .request _ => true
  | .terminated => true
  | _ => false

/-- No request and no termination of the bridge comes while a request is outstanding. -/
def Good (s : Actor) (e : Event) : Prop := s.data = .noData ∨ e.isAbrupt = false

/-! ## What an event does -/

/-- No promise is held. -/
structure IsIdle (s : Actor) : Prop where
  data : s.data = .noData
  stateName : s.stateName ≠ .expectingMessageFromTcp

/-- What an event does to the promises. -/
inductive Effect (s : Actor) : Event → Actor → Prop where
  | idle {e : Event} {s' : Actor} (hidle : s.data = .noData) (hnone : e.promise? = none)
      (hcompleted : s'.completed = s.completed) (hlive : s'.isStopped = false → IsIdle s') :
      Effect s e s'
  | accepted {r : Request} {s' : Actor} (hidle : s.data = .noData)
      (hcompleted : s'.completed = s.completed)
      (hstopped : s'.isStopped = s.isStopped) (hdata : s'.data = .respond r.responsePromise)
      (hstate : s'.stateName = .expectingMessageFromTcp) : Effect s (.request r) s'
  | refused {r : Request} {s' : Actor} {text : String} (hcompleted :
        s'.completed = (s.tryFailure r.responsePromise text).completed)
      (hlive : IsIdle s') : Effect s (.request r) s'
  | quiet {e : Event} {s' : Actor} (hquiet : e.isQuiet = true)
      (hcompleted : s'.completed = s.completed)
      (hstopped : s'.isStopped = s.isStopped) (hdata : s'.data = s.data)
      (hstate : s'.stateName = s.stateName) : Effect s e s'
  | answered {e : Event} {s' : Actor} {p : Nat} {o : Outcome} (hdata : s.data = .respond p)
      (hnone : e.promise? = none) (hgood : e.isAbrupt = false)
      (hcompleted : s'.completed = (p, o) :: s.completed)
      (hreply : ∀ message, o = .success message → e = .messageReceived message)
      (hlive : s'.isStopped = false → IsIdle s') : Effect s e s'
  | dropped {s' : Actor} (hcompleted : s'.completed = s.completed)
      (hstopped : s'.isStopped = true) : Effect s .terminated s'

variable {s s' : Actor} {e : Event} {p : Nat} {r : Request} {o : Outcome}

theorem closeBridge_completed : s.closeBridge.completed = s.completed := by
  rw [Actor.closeBridge]
  split <;> rfl

theorem closing_isIdle : IsIdle (s.goto .closing .noData) := ⟨rfl, State.noConfusion⟩

theorem complete_eq {next : Actor → Actor} (h : s.isCompleted p = false) :
    s.complete p o next = next { s with completed := (p, o) :: s.completed } := by
  rw [Actor.complete, if_neg]
  rw [h]
  exact Bool.false_ne_true

theorem not_stopped {P : Prop} (h : s.isStopped = true) : s.isStopped = false → P := by
  intro hlive
  rw [h] at hlive
  cases hlive

theorem effect_whenUnhandled (hdata : s.data = .noData) (he : ∀ r, e ≠ .request r) :
    Effect s e (s.whenUnhandled e) := by
  have hclose : Effect s e (s.closeBridge.goto .closing .noData) := by
    refine .idle hdata ?_ closeBridge_completed fun _ => closing_isIdle
    cases e with
    | request r => exact absurd rfl (he r)
    | _ => rfl
  cases e with
  | request r => exact absurd rfl (he r)
  | close => exact hclose
  | failed throwable =>
      refine .idle hdata rfl ?_ fun _ => closing_isIdle
      show (if s.messageTcpBridgeTerminated then s else s.tell .abort).completed = _
      split <;> rfl
  | connectionClosed closed =>
      simp only [Actor.whenUnhandled, hdata]
      exact .idle hdata rfl rfl (not_stopped rfl)
  | terminated => exact .idle hdata rfl rfl (not_stopped rfl)
  | _ =>
      simp only [Actor.whenUnhandled, hdata]
      exact hclose

/-- A request that is not expected. -/
theorem effect_unexpected : Effect s (.request r) (s.whenUnhandled (.request r)) :=
  .refused closeBridge_completed closing_isIdle

theorem effect_of_idle (h : IsIdle s) : Effect s e (s.receive e) := by
  rw [Actor.receive, Actor.stateFunction]
  cases hstate : s.stateName with
  | expectingMessageFromTcp => exact absurd hstate h.stateName
  | expectingRequest =>
      cases e with
      | request r =>
          simp only [Actor.whenExpectingRequest, h.data, Option.getD_some]
          exact .accepted h.data rfl rfl rfl rfl
      | peerClosed =>
          simp only [Actor.whenExpectingRequest, h.data, Option.getD_some]
          exact .idle h.data rfl rfl (not_stopped rfl)
      | heartbeat timeout => exact .quiet rfl rfl rfl rfl rfl
      | _ => exact effect_whenUnhandled h.data fun r => Event.noConfusion
  | closing =>
      cases e with
      | request r => exact effect_unexpected
      | connectionClosed closed => exact .idle h.data rfl rfl (not_stopped rfl)
      | _ => exact effect_whenUnhandled h.data fun r => Event.noConfusion

theorem effect_of_respond (hdata : s.data = .respond p)
    (hstate : s.stateName = .expectingMessageFromTcp) (hnew : s.isCompleted p = false) :
    Effect s e (s.receive e) := by
  simp only [Actor.receive, Actor.stateFunction, hstate]
  cases e with
  | request r => exact effect_unexpected
  | terminated => exact .dropped rfl rfl
  | heartbeat timeout => exact .quiet rfl rfl rfl rfl rfl
  | other =>
      simp only [Actor.whenExpectingMessageFromTcp, Option.getD_none, Actor.whenUnhandled, hdata]
      exact .quiet rfl rfl rfl rfl rfl
  | messageReceived message =>
      simp only [Actor.whenExpectingMessageFromTcp, hdata, Option.getD_some, complete_eq hnew]
      refine .answered hdata rfl rfl rfl ?_ fun _ => ⟨rfl, State.noConfusion⟩
      intro message' heq
      cases heq
      rfl
  | peerClosed =>
      simp only [Actor.whenExpectingMessageFromTcp, hdata, Option.getD_some, complete_eq hnew]
      exact .answered hdata rfl rfl rfl (fun _ => Outcome.noConfusion) (not_stopped rfl)
  | failed throwable =>
      simp only [Actor.whenExpectingMessageFromTcp, hdata, Option.getD_some, complete_eq hnew]
      exact .answered hdata rfl rfl rfl (fun _ => Outcome.noConfusion)
        fun _ => ⟨rfl, State.noConfusion⟩
  | close =>
      simp only [Actor.whenExpectingMessageFromTcp, hdata, Option.getD_some, complete_eq hnew]
      exact .answered hdata rfl rfl closeBridge_completed (fun _ => Outcome.noConfusion)
        fun _ => closing_isIdle
  | connectionClosed closed =>
      simp only [Actor.whenExpectingMessageFromTcp, Option.getD_none, Actor.whenUnhandled, hdata,
        complete_eq hnew]
      exact .answered hdata rfl rfl rfl (fun _ => Outcome.noConfusion) (not_stopped rfl)

/-! ## The invariant -/

/-- A promise is held, and its request is the last one. -/
structure IsWaiting (s : Actor) (p : Nat) : Prop where
  data : s.data = .respond p
  stateName : s.stateName = .expectingMessageFromTcp
  new : s.isCompleted p = false
  handed : p ∈ handed s
  last : IsLast s.delivered p

structure Inv (s : Actor) : Prop where
  kept : Kept s
  live : s.isStopped = false → IsIdle s ∨ ∃ p, IsWaiting s p
  only_handed : ∀ p, s.isCompleted p = true → p ∈ handed s

theorem inv_initial (h : Initial s) : Inv s := by
  have hhanded : handed s = [] := by rw [handed, h.delivered]; rfl
  have hnone : ∀ p, ¬s.isCompleted p = true := by
    intro p hp
    rw [Actor.isCompleted, h.completed] at hp
    cases hp
  refine ⟨⟨?_, ?_⟩, ?_, fun p hp => absurd hp (hnone p)⟩
  · intro p hp
    rw [hhanded] at hp
    exact absurd hp List.not_mem_nil
  · intro p message hp
    rw [h.completed] at hp
    exact absurd hp List.not_mem_nil
  · intro _
    refine Or.inl ⟨h.data, ?_⟩
    rw [h.stateName]
    exact State.noConfusion

theorem isCompleted_iff : s.isCompleted p = true ↔ ∃ o, (p, o) ∈ s.completed := by
  simp [Actor.isCompleted]

theorem IsReply.cons {delivered : List Event} {message : String}
    (h : IsReply delivered p message) : IsReply (e :: delivered) p message := by
  obtain ⟨later, earlier, heq, hlast⟩ := h
  exact ⟨e :: later, earlier, congrArg (e :: ·) heq, hlast⟩

theorem IsLast.cons {delivered : List Event} (h : IsLast delivered p) (hquiet : e.isQuiet = true) :
    IsLast (e :: delivered) p := by
  obtain ⟨between, earlier, r, heq, hr, hall⟩ := h
  refine ⟨e :: between, earlier, r, congrArg (e :: ·) heq, hr, ?_⟩
  rintro e' (_ | ⟨_, he'⟩)
  · exact hquiet
  · exact hall e' he'

theorem handed_perform : handed (perform s e) = e.promise?.toList ++ handed s := by
  rw [handed, handed]
  show List.filterMap _ (e :: s.delivered) = _
  rw [List.filterMap_cons]
  cases e.promise? with
  | none => rfl
  | some p => rfl

theorem handed_of_none (h : e.promise? = none) : handed (perform s e) = handed s := by
  rw [handed_perform, h]
  rfl

theorem mem_handed_perform (hp : p ∈ handed s) : p ∈ handed (perform s e) := by
  rw [handed_perform]
  exact List.mem_append_right _ hp

theorem isCompleted_perform : (perform s e).isCompleted p = (s.receive e).isCompleted p := rfl

theorem isCompleted_congr (h : s'.completed = s.completed) :
    s'.isCompleted p = s.isCompleted p := by
  rw [Actor.isCompleted, Actor.isCompleted, h]

theorem promise_of_quiet (h : e.isQuiet = true) : e.promise? = none := by
  cases e with
  | request r => cases h
  | _ => rfl

theorem tryFailure_isCompleted {q : Nat} {text : String}
    (h : s'.completed = (s.tryFailure q text).completed) :
    s'.isCompleted p = true ↔ s.isCompleted p = true ∨ p = q := by
  rw [isCompleted_congr h, Actor.tryFailure]
  split
  · rename_i hq
    constructor
    · exact Or.inl
    · rintro (hp | rfl)
      · exact hp
      · exact hq
  · rw [isCompleted_iff, isCompleted_iff]
    constructor
    · rintro ⟨o, _ | ⟨_, ho⟩⟩
      · exact Or.inr rfl
      · exact Or.inl ⟨o, ho⟩
    · rintro (⟨o, ho⟩ | rfl)
      · exact ⟨o, List.mem_cons_of_mem _ ho⟩
      · exact ⟨_, List.mem_cons_self⟩

theorem mem_of_tryFailure {q : Nat} {text message : String}
    (h : (p, Outcome.success message) ∈ (s.tryFailure q text).completed) :
    (p, Outcome.success message) ∈ s.completed := by
  rw [Actor.tryFailure] at h
  split at h
  · exact h
  · rcases List.mem_cons.mp h with heq | hold
    · cases heq
    · exact hold

/-- A step that leaves the completed promises alone. -/
theorem Inv.reply_of_eq (h : Inv s) (hcompleted : s'.completed = s.completed) (p : Nat)
    (message : String) (hp : (p, Outcome.success message) ∈ s'.completed) :
    IsReply (e :: s.delivered) p message := by
  rw [hcompleted] at hp
  exact (h.kept.reply p message hp).cons

theorem Inv.only_handed_of_eq (h : Inv s) (hcompleted : (s.receive e).completed = s.completed)
    (p : Nat) (hp : (perform s e).isCompleted p = true) : p ∈ handed (perform s e) := by
  rw [isCompleted_perform, isCompleted_congr hcompleted] at hp
  exact mem_handed_perform (h.only_handed p hp)

/-- Without a held promise all of them are completed. -/
theorem Inv.completed_of_noData (h : Inv s) (hdata : s.data = .noData) (hp : p ∈ handed s) :
    s.isCompleted p = true := by
  rcases h.kept.completed_or_held p hp with hc | ⟨-, hheld⟩
  · exact hc
  · rw [hdata] at hheld
    cases hheld

theorem Inv.effect (h : Inv s) (hlive : s.isStopped = false) : Effect s e (s.receive e) := by
  rcases h.live hlive with hidle | ⟨p, hwait⟩
  · exact effect_of_idle hidle
  · exact effect_of_respond hwait.data hwait.stateName hwait.new

theorem inv_idle (h : Inv s) (hidle : s.data = .noData) (hnone : e.promise? = none)
    (hcompleted : (s.receive e).completed = s.completed)
    (hlive : (s.receive e).isStopped = false → IsIdle (s.receive e)) : Inv (perform s e) := by
  refine ⟨⟨?_, h.reply_of_eq hcompleted⟩, ?_, h.only_handed_of_eq hcompleted⟩
  · intro p hp
    rw [handed_of_none hnone] at hp
    left
    rw [isCompleted_perform, isCompleted_congr hcompleted]
    exact h.completed_of_noData hidle hp
  · intro hs
    exact Or.inl ⟨(hlive hs).data, (hlive hs).stateName⟩

theorem inv_accepted (h : Inv s) (hallowed : Allowed s (.request r)) (hidle : s.data = .noData)
    (hcompleted : (s.receive (.request r)).completed = s.completed)
    (hstopped : (s.receive (.request r)).isStopped = s.isStopped)
    (hdata : (s.receive (.request r)).data = .respond r.responsePromise)
    (hstate : (s.receive (.request r)).stateName = .expectingMessageFromTcp) :
    Inv (perform s (.request r)) := by
  have hmem : ∀ p, p ∈ handed (perform s (.request r)) ↔
      p = r.responsePromise ∨ p ∈ handed s := by
    intro p
    rw [handed_perform]
    exact List.mem_cons
  refine ⟨⟨?_, h.reply_of_eq hcompleted⟩, ?_, h.only_handed_of_eq hcompleted⟩
  · intro p hp
    rcases (hmem p).mp hp with rfl | hold
    · exact Or.inr ⟨hstopped.trans hallowed.1, hdata⟩
    · left
      rw [isCompleted_perform, isCompleted_congr hcompleted]
      exact h.completed_of_noData hidle hold
  · intro _
    refine Or.inr ⟨r.responsePromise, hdata, hstate, ?_, (hmem _).mpr (Or.inl rfl), [], s.delivered,
      r, rfl, rfl, fun e he => absurd he List.not_mem_nil⟩
    -- the promise is new
    rw [isCompleted_perform, isCompleted_congr hcompleted, ← Bool.not_eq_true]
    exact fun hc => hallowed.2 _ rfl (h.only_handed _ hc)

theorem inv_refused {text : String} (h : Inv s) (hidle : s.data = .noData)
    (hcompleted : (s.receive (.request r)).completed =
      (s.tryFailure r.responsePromise text).completed)
    (hlive : IsIdle (s.receive (.request r))) : Inv (perform s (.request r)) := by
  refine ⟨⟨?_, ?_⟩, fun _ => Or.inl ⟨hlive.data, hlive.stateName⟩, ?_⟩
  · intro p hp
    left
    rw [isCompleted_perform, tryFailure_isCompleted hcompleted]
    rw [handed_perform] at hp
    rcases List.mem_cons.mp hp with heq | hold
    · exact Or.inr heq
    · exact Or.inl (h.completed_of_noData hidle hold)
  · intro p message hp
    have hmem : (p, Outcome.success message) ∈ (s.receive (.request r)).completed := hp
    rw [hcompleted] at hmem
    exact (h.kept.reply p message (mem_of_tryFailure hmem)).cons
  · intro p hp
    rw [isCompleted_perform, tryFailure_isCompleted hcompleted] at hp
    rcases hp with hold | rfl
    · exact mem_handed_perform (h.only_handed p hold)
    · rw [handed_perform]
      exact List.mem_cons_self

theorem inv_quiet (h : Inv s) (hallowed : Allowed s e) (hquiet : e.isQuiet = true)
    (hcompleted : (s.receive e).completed = s.completed)
    (hstopped : (s.receive e).isStopped = s.isStopped)
    (hdata : (s.receive e).data = s.data) (hstate : (s.receive e).stateName = s.stateName) :
    Inv (perform s e) := by
  have hhanded := handed_of_none (s := s) (promise_of_quiet hquiet)
  refine ⟨⟨?_, h.reply_of_eq hcompleted⟩, ?_, h.only_handed_of_eq hcompleted⟩
  · intro p hp
    rw [hhanded] at hp
    rcases h.kept.completed_or_held p hp with hc | hheld
    · left
      rw [isCompleted_perform, isCompleted_congr hcompleted]
      exact hc
    · exact Or.inr ⟨hstopped.trans hheld.1, hdata.trans hheld.2⟩
  · intro _
    rcases h.live hallowed.1 with hidle | ⟨p, hwait⟩
    · exact Or.inl ⟨hdata.trans hidle.data, fun heq => hidle.stateName (hstate.symm.trans heq)⟩
    · refine Or.inr ⟨p, hdata.trans hwait.data, hstate.trans hwait.stateName, ?_, ?_,
        hwait.last.cons hquiet⟩
      · rw [isCompleted_perform, isCompleted_congr hcompleted]
        exact hwait.new
      · exact mem_handed_perform hwait.handed

theorem inv_answered (h : Inv s) (hallowed : Allowed s e) (hdata : s.data = .respond p)
    (hnone : e.promise? = none) (hcompleted : (s.receive e).completed = (p, o) :: s.completed)
    (hreply : ∀ message, o = .success message → e = .messageReceived message)
    (hlive : (s.receive e).isStopped = false → IsIdle (s.receive e)) : Inv (perform s e) := by
  have hwait : IsWaiting s p := by
    rcases h.live hallowed.1 with hidle | ⟨q, hwait⟩
    · rw [hidle.data] at hdata
      cases hdata
    · have hq := hwait.data
      rw [hdata] at hq
      cases hq
      exact hwait
  have hcomp : ∀ q, (perform s e).isCompleted q = true ↔ q = p ∨ s.isCompleted q = true := by
    intro q
    rw [isCompleted_perform, Actor.isCompleted, hcompleted, Actor.isCompleted]
    simp
  refine ⟨⟨?_, ?_⟩, ?_, ?_⟩
  · intro q hq
    left
    rw [handed_of_none hnone] at hq
    rw [hcomp]
    rcases h.kept.completed_or_held q hq with hc | hheld
    · exact Or.inr hc
    · rw [hheld.2] at hdata
      exact Or.inl (Data.respond.inj hdata)
  · intro q message hq
    have hmem : (q, Outcome.success message) ∈ (s.receive e).completed := hq
    rw [hcompleted] at hmem
    rcases List.mem_cons.mp hmem with heq | hold
    · cases heq
      rw [hreply message rfl]
      exact ⟨[], s.delivered, rfl, hwait.last⟩
    · exact (h.kept.reply q message hold).cons
  · intro hs
    exact Or.inl ⟨(hlive hs).data, (hlive hs).stateName⟩
  · intro q hq
    rcases (hcomp q).mp hq with rfl | hold
    · exact mem_handed_perform hwait.handed
    · exact mem_handed_perform (h.only_handed q hold)

theorem Good.noData (h : Good s e) (habrupt : e.isAbrupt = true) : s.data = .noData := by
  rcases h with hdata | hcalm
  · exact hdata
  · rw [habrupt] at hcalm
    cases hcalm

theorem inv_step (h : Inv s) (hgood : Good s e) (hstep : Step s e s') : Inv s' := by
  obtain ⟨hallowed, rfl⟩ := hstep
  cases h.effect hallowed.1 (e := e) with
  | idle hidle hnone hcompleted hlive => exact inv_idle h hidle hnone hcompleted hlive
  | accepted hidle hcompleted hstopped hdata hstate =>
      exact inv_accepted h hallowed hidle hcompleted hstopped hdata hstate
  | refused hcompleted hlive => exact inv_refused h (hgood.noData rfl) hcompleted hlive
  | quiet hquiet hcompleted hstopped hdata hstate =>
      exact inv_quiet h hallowed hquiet hcompleted hstopped hdata hstate
  | answered hdata hnone _ hcompleted hreply hlive =>
      exact inv_answered h hallowed hdata hnone hcompleted hreply hlive
  | dropped hcompleted hstopped =>
      exact inv_idle h (hgood.noData rfl) rfl hcompleted (not_stopped hstopped)

theorem inv_of_reach (h : Reach Initial (Guarded Good Step) s) : Inv s :=
  h.invariant (fun _ => inv_initial) fun _ _ _ hinv hstep => inv_step hinv hstep.1 hstep.2

/-! ## A promise that is lost -/

/-- A second request and a termination lose the promise that is held. -/
theorem Inv.not_kept (h : Inv s) (hallowed : Allowed s e) (hbad : ¬Good s e) :
    ¬Kept (perform s e) := by
  intro hkept
  rcases h.live hallowed.1 with hidle | ⟨p, hwait⟩
  · exact hbad (Or.inl hidle.data)
  · have hor := hkept.completed_or_held p (mem_handed_perform hwait.handed)
    cases h.effect hallowed.1 (e := e) with
    | idle hidle => exact hbad (Or.inl hidle)
    | accepted hidle => exact hbad (Or.inl hidle)
    | refused hcompleted hlive =>
        rcases hor with hc | hheld
        · rw [isCompleted_perform, tryFailure_isCompleted hcompleted] at hc
          rcases hc with hold | rfl
          · rw [hwait.new] at hold
            cases hold
          · exact hallowed.2 _ rfl hwait.handed
        · have hdata : (s.receive _).data = .respond p := hheld.2
          rw [hlive.data] at hdata
          cases hdata
    | quiet hquiet =>
        refine hbad (Or.inr ?_)
        cases e with
        | request r => cases hquiet
        | terminated => cases hquiet
        | _ => rfl
    | answered _ _ hcalm => exact hbad (Or.inr hcalm)
    | dropped hcompleted hstopped =>
        rcases hor with hc | hheld
        · rw [isCompleted_perform, isCompleted_congr hcompleted, hwait.new] at hc
          cases hc
        · have hlive : (s.receive .terminated).isStopped = false := hheld.1
          rw [hstopped] at hlive
          cases hlive

/-- As long as no request and no termination comes while a request is outstanding, every
    promise is kept; and any such event loses one. -/
theorem kept_of_reach (h : Reach Initial (Guarded Good Step) s) :
    Kept s ∧ ∀ e, Allowed s e → (Kept (perform s e) ↔ Good s e) := by
  have hinv := inv_of_reach h
  refine ⟨hinv.kept, ?_⟩
  intro e hallowed
  constructor
  · intro hkept
    by_contra hbad
    exact hinv.not_kept hallowed hbad hkept
  · intro hgood
    exact (inv_step hinv hgood ⟨hallowed, rfl⟩).kept

/-! ## Closed runs -/

instance (s : Actor) (e : Event) : Decidable (Allowed s e) :=
  inferInstanceAs (Decidable (s.isStopped = false ∧ ∀ p ∈ e.promise?, p ∉ handed s))

instance (s : Actor) (e : Event) : Decidable (Good s e) :=
  inferInstanceAs (Decidable (s.data = .noData ∨ e.isAbrupt = false))

def attempt : Actor → Event → Option Actor := nextIf Allowed fun s e => some (perform s e)

theorem attempt_step (s : Actor) (e : Event) (s' : Actor) (h : attempt s e = some s') :
    Step s e s' := by
  show Guarded Allowed (fun s e s' => s' = perform s e) s e s'
  exact nextIf_step (fun _ _ _ h => (Option.some.inj h).symm) h

/-- The actor when its tunnel has been associated. -/
def associated : Actor :=
  ⟨"Connector", .expectingRequest, .noData, false, false, false, some 60, [], [], []⟩

theorem associated_initial : Initial associated := ⟨rfl, rfl, rfl, rfl, rfl⟩

/-- A request, a heartbeat and the reply, and then another request. -/
theorem kept_of_reach_replied :
    ∃ s, runAll (nextIf Good attempt) associated
        [.request ⟨"a", 1, some 30⟩, .heartbeat 10, .messageReceived "A", .request ⟨"b", 2, none⟩] =
          some s ∧
      s.completed = [(1, .success "A")] ∧ s.data = .respond 2 ∧ Kept s ∧
      ∀ e, Allowed s e → (Kept (perform s e) ↔ Good s e) := by
  have hrun : runAll (nextIf Good attempt) associated
      [.request ⟨"a", 1, some 30⟩, .heartbeat 10, .messageReceived "A", .request ⟨"b", 2, none⟩] =
        some _ := rfl
  exact ⟨_, hrun, rfl, rfl, kept_of_reach
    ((Reach.start associated_initial).runAll (fun _ _ _ => nextIf_step attempt_step) hrun)⟩

/-- The promise of the first request is lost when a second request comes. -/
theorem secondRequest_loses :
    ¬∀ s, Reach Initial Step s → Kept s := by
  intro h
  have hrun : runAll attempt associated [.request ⟨"a", 1, none⟩, .request ⟨"b", 2, none⟩] =
      some _ := rfl
  have hreach := (Reach.start associated_initial).runAll attempt_step hrun
  have hor := (h _ hreach).completed_or_held 1 (by decide)
  rcases hor with hc | ⟨-, hheld⟩
  · revert hc
    decide
  · cases hheld

end Connector
