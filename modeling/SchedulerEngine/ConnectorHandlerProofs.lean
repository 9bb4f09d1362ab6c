import SchedulerEngine.RunInvariantProofs
import Mathlib.Logic.Function.Basic

/-! # Tunnels and their connectors

    `ConnectorHandler` keeps the tunnels in a register.  A connector that has got
    the first message from its peer presents a token, and the handler connects it
    with the tunnel.  A wrong secret or a second connection is logged and the
    connector is stopped, but the handler then goes on as if nothing had happened. -/

set_option linter.unusedSectionVars false

namespace ConnectorHandler

open RunInvariant

/-! ## The register -/

@[ext] structure TunnelToken where
  id : String
  secret : String
deriving DecidableEq

/-- `Connector.Request`.  The promise is known by its number. -/
structure Request where
  message : String
  responsePromise : Nat
  timeout : Option Nat
deriving DecidableEq

/-- `Handle.State`.  A connector is known by its number. -/
inductive HandleState where
  | uninitialized
  | requestBeforeConnected (request : Request)
  | connectedConnector (connector : Nat)
deriving DecidableEq

def HandleState.isConnected : HandleState → Bool
  | .connectedConnector _ => true
  | _ => false

structure Handle where
  tunnelToken : TunnelToken
  /-- The address with which the promise is completed. -/
  connectedPromise : Option String
  state : HandleState
deriving DecidableEq

/-- What the handler sends to a connector. -/
inductive ToConnector where
  | request (r : Request)
  | heartbeat (timeout : Nat)
  | close
deriving DecidableEq

/-- `Try`, as the sender gets it. -/
inductive Answer where
  | handle (tunnelToken : TunnelToken)
  | unit
  | failure (text : String)
deriving DecidableEq

structure Handler where
  register : String → Option Handle
  /-- The actor is in `ready`.  After an exception it is a new actor that awaits `Start`. -/
  isReady : Bool
  sent : List (Nat × ToConnector)
  stopped : List Nat
  answers : List Answer
  /-- The promises of the requests that have failed here. -/
  failed : List (Nat × String)
  /-- The tokens that connectors have presented.  The code does not know them. -/
  presented : List (Nat × TunnelToken)

namespace Handler

def put (id : String) (handle : Handle) (s : Handler) : Handler :=
  { s with register := Function.update s.register id (some handle) }

def removeHandle (id : String) (s : Handler) : Handler :=
  { s with register := Function.update s.register id none }

def stop (connector : Nat) (s : Handler) : Handler :=
  { s with stopped := connector :: s.stopped }

def send (connector : Nat) (m : ToConnector) (s : Handler) : Handler :=
  { s with sent := (connector, m) :: s.sent }

def answer (a : Answer) (s : Handler) : Handler := { s with answers := a :: s.answers }

/-- `request.responsePromise.failure`.  Each request brings its own promise. -/
def fail (request : Request) (text : String) (s : Handler) : Handler :=
  { s with failed := (request.responsePromise, text) :: s.failed }

/-- An exception escapes `receive`, and the actor is restarted. -/
def restart (s : Handler) : Handler := { s with register := fun _ => none, isReady := false }

/-- `checkedHandle`. -/
def checkedHandle (token : TunnelToken) (s : Handler) : Except String Handle :=
  match s.register token.id with
  | none => .error ("Unknown " ++ token.id)
  | some handle =>
      if token.secret ≠ handle.tunnelToken.secret then .error "Wrong tunnel secret" else .ok handle

@[simp] theorem put_self (id : String) (handle : Handle) (s : Handler) :
    (s.put id handle).register id = some handle := by
  simp [put]

theorem put_of_ne {id id' : String} (h : id' ≠ id) (handle : Handle) (s : Handler) :
    (s.put id handle).register id' = s.register id' := by
  simp [put, h]

@[simp] theorem removeHandle_self (id : String) (s : Handler) :
    (s.removeHandle id).register id = none := by
  simp [removeHandle]

theorem removeHandle_of_ne {id id' : String} (h : id' ≠ id) (s : Handler) :
    (s.removeHandle id).register id' = s.register id' := by
  simp [removeHandle, h]

/-! ## The messages -/

/-- `NewTunnel`, with the secret that the handler draws. -/
def newTunnel (id secret : String) (s : Handler) : Handler :=
  match s.register id with
  | some _ => s.answer (.failure ("Key " ++ id ++ " is already known in Map"))
  | none => (s.put id ⟨⟨id, secret⟩, none, .uninitialized⟩).answer (.handle ⟨id, secret⟩)

/-- What is done with a connector before the tunnel is connected with it. -/
def greet (token : TunnelToken) (handle : Handle) (connector : Nat) (s : Handler) : Handler :=
  if token.secret ≠ handle.tunnelToken.secret then s.stop connector
  else
    match handle.state with
    | .connectedConnector _ => s.stop connector
    | .uninitialized => s
    | .requestBeforeConnected request => s.send connector (.request request)

/-- `connectedPromise.success` throws when the promise is completed. -/
def connect (handle : Handle) (id : String) (connector : Nat) (peerAddress : String)
    (s : Handler) : Handler :=
  if handle.connectedPromise.isSome then s.restart
  else s.put id { handle with
    connectedPromise := some peerAddress, state := .connectedConnector connector }

/-- `Connector.AssociatedWithTunnelId`. -/
def associated (token : TunnelToken) (connector : Nat) (peerAddress : String)
    (s : Handler) : Handler :=
  (s.register token.id).elim (s.stop connector) fun handle =>
    (s.greet token handle connector).connect handle token.id connector peerAddress

/-- `DirectedRequest`. -/
def directedRequest (token : TunnelToken) (request : Request) (s : Handler) : Handler :=
  match s.checkedHandle token with
  | .error text => s.fail request text
  | .ok handle =>
      match handle.state with
      | .connectedConnector connector => s.send connector (.request request)
      | .uninitialized => s.put token.id { handle with state := .requestBeforeConnected request }
      | .requestBeforeConnected _ =>
          s.fail request "Second request before connection has been established"

/-- `OnHeartbeat`. -/
def onHeartbeat (token : TunnelToken) (timeout : Nat) (s : Handler) : Handler :=
  match s.checkedHandle token with
  | .error text => s.answer (.failure text)
  | .ok handle =>
      match handle.state with
      | .connectedConnector connector => (s.send connector (.heartbeat timeout)).answer .unit
      | _ => s.answer .unit

/-- `CloseTunnel`. -/
def closeTunnel (token : TunnelToken) (s : Handler) : Handler :=
  match s.checkedHandle token with
  | .error _ => s
  | .ok handle =>
      match handle.state with
      | .connectedConnector connector => (s.send connector .close).removeHandle token.id
      | _ => s.removeHandle token.id

end Handler

inductive Message where
  | newTunnel (id secret : String)
  | associated (token : TunnelToken) (connector : Nat) (peerAddress : String)
  | directedRequest (token : TunnelToken) (request : Request)
  | onHeartbeat (token : TunnelToken) (timeout : Nat)
  | closeTunnel (token : TunnelToken)
  /-- `Terminated`, with the tunnel that `getTunnelIdByActor` finds. -/
  | terminated (connector : Nat) (found : Option String)

/-- The connector has presented its token. -/
def note (s : Handler) : Message → Handler
  | .associated token connector _ => { s with presented := (connector, token) :: s.presented }
  | _ => s

/-- What `ready` does with a message. -/
def receive (s : Handler) : Message → Handler
  | .newTunnel id secret => s.newTunnel id secret
  | .associated token connector peerAddress => s.associated token connector peerAddress
  | .directedRequest token request => s.directedRequest token request
  | .onHeartbeat token timeout => s.onHeartbeat token timeout
  | .closeTunnel token => s.closeTunnel token
  | .terminated _ found => found.elim s fun id => s.removeHandle id

def perform (s : Handler) (m : Message) : Handler :=
  if s.isReady then receive (note s m) m else note s m

/-- The tunnel `id` is connected with the connector. -/
def IsConnectedWith (s : Handler) (connector : Nat) (id : String) : Prop :=
  ∃ handle ∈ s.register id, handle.state = .connectedConnector connector

/-- The iterator of the register finds any of the tunnels, and one if there is one. -/
def Allowed (s : Handler) : Message → Prop
  | .terminated connector (some id) => IsConnectedWith s connector id
  | .terminated connector none => ∀ id, ¬IsConnectedWith s connector id
  | _ => True

def Step (s : Handler) (m : Message) (s' : Handler) : Prop := Allowed s m ∧ s' = perform s m

structure Initial (s : Handler) : Prop where
  register : s.register = fun _ => none
  isReady : s.isReady = true

/-! ## What is claimed, and when it holds -/

/-- A wrong secret, or a second connection. -/
def Intrusion (s : Handler) : Message → Prop
  | .associated token _ _ => ∃ handle ∈ s.register token.id,
      token.secret ≠ handle.tunnelToken.secret ∨ handle.state.isConnected = true
  | _ => False

/-- An intrusion changes nothing in the register, and throws nothing. -/
def Repelled (s : Handler) (m : Message) : Prop :=
  Intrusion s m → (perform s m).register = s.register ∧ (perform s m).isReady = s.isReady

/-- A tunnel is connected only with a connector that has presented its secret. -/
def Rightful (s : Handler) : Prop :=
  ∀ connector id handle, handle ∈ s.register id → handle.state = .connectedConnector connector →
    (connector, handle.tunnelToken) ∈ s.presented

/-- No intrusion. -/
def Good (s : Handler) (m : Message) : Prop := ¬Intrusion s m

/-! ## The invariant -/

variable {s s' : Handler} {m : Message} {handle : Handle} {token : TunnelToken}
  {id : String} {connector : Nat} {request : Request}

/-- What holds of a handle under its id. -/
structure Sound (presented : List (Nat × TunnelToken)) (id : String) (handle : Handle) : Prop where
  id_eq : handle.tunnelToken.id = id
  promise : handle.connectedPromise.isSome = handle.state.isConnected
  rightful : ∀ connector, handle.state = .connectedConnector connector →
    (connector, handle.tunnelToken) ∈ presented

structure Inv (s : Handler) : Prop where
  isReady : s.isReady = true
  sound : ∀ id, ∀ handle ∈ s.register id, Sound s.presented id handle

theorem inv_initial (h : Initial s) : Inv s := by
  refine ⟨h.isReady, ?_⟩
  intro id handle hh
  rw [h.register] at hh
  exact absurd hh (Option.not_mem_none handle)

theorem Sound.mono {old new : List (Nat × TunnelToken)} (hsub : ∀ p ∈ old, p ∈ new)
    (h : Sound old id handle) : Sound new id handle :=
  ⟨h.id_eq, h.promise, fun c hc => hsub _ (h.rightful c hc)⟩

/-- A step that touches neither the register nor the tokens. -/
theorem Inv.of_eq (h : Inv s) (hready : s'.isReady = s.isReady) (hreg : s'.register = s.register)
    (hpres : s'.presented = s.presented) : Inv s' := by
  refine ⟨hready.trans h.isReady, ?_⟩
  intro id handle hh
  rw [hreg] at hh
  rw [hpres]
  exact h.sound id handle hh

theorem Inv.put (h : Inv s) (hsound : Sound s.presented id handle) : Inv (s.put id handle) := by
  refine ⟨h.isReady, ?_⟩
  intro id' handle' hh
  by_cases heq : id' = id
  · subst heq
    rw [Handler.put_self] at hh
    rw [← Option.some.inj hh]
    exact hsound
  · rw [Handler.put_of_ne heq] at hh
    exact h.sound id' handle' hh

theorem Inv.removeHandle (h : Inv s) : Inv (s.removeHandle id) := by
  refine ⟨h.isReady, ?_⟩
  intro id' handle' hh
  by_cases heq : id' = id
  · subst heq
    rw [Handler.removeHandle_self] at hh
    exact absurd hh (Option.not_mem_none handle')
  · rw [Handler.removeHandle_of_ne heq] at hh
    exact h.sound id' handle' hh

theorem inv_note (h : Inv s) : Inv (note s m) := by
  cases m with
  | associated token connector peerAddress =>
      refine ⟨h.isReady, ?_⟩
      intro id handle hh
      exact (h.sound id handle hh).mono fun _ => List.mem_cons_of_mem _
  | _ => exact h

theorem checkedHandle_ok (h : s.checkedHandle token = .ok handle) :
    handle ∈ s.register token.id := by
  rw [Handler.checkedHandle] at h
  split at h
  · cases h
  · rename_i found hfound
    split at h
    · cases h
    · rw [← Except.ok.inj h]
      exact hfound

/-! ## Every message -/

theorem Inv.newTunnel {secret : String} (h : Inv s) : Inv (s.newTunnel id secret) := by
  rw [Handler.newTunnel]
  split
  · exact h.of_eq rfl rfl rfl
  · refine Inv.of_eq (Inv.put (h : Inv s) (?_ : Sound s.presented id _)) rfl rfl rfl
    refine ⟨rfl, rfl, ?_⟩
    intro connector hstate
    cases hstate

/-- The first connector with the right secret. -/
theorem greet_rightful (s : Handler) (connector : Nat)
    (hsecret : token.secret = handle.tunnelToken.secret)
    (hstate : handle.state.isConnected = false) :
    (s.greet token handle connector).register = s.register ∧
      (s.greet token handle connector).isReady = s.isReady ∧
      (s.greet token handle connector).presented = s.presented := by
  rw [Handler.greet, if_neg (not_not_intro hsecret)]
  cases hst : handle.state with
  | uninitialized => exact ⟨rfl, rfl, rfl⟩
  | requestBeforeConnected request => exact ⟨rfl, rfl, rfl⟩
  | connectedConnector c =>
      rw [hst] at hstate
      cases hstate

theorem Inv.associated {peerAddress : String} (h : Inv s)
    (hgood : ¬Intrusion s (.associated token connector peerAddress))
    (hpres : (connector, token) ∈ s.presented) :
    Inv (s.associated token connector peerAddress) := by
  rw [Handler.associated]
  cases hreg : s.register token.id with
  | none => exact h.of_eq rfl rfl rfl
  | some handle =>
      have hsound := h.sound token.id handle hreg
      have hsecret : token.secret = handle.tunnelToken.secret := by
        by_contra hne
        exact hgood ⟨handle, hreg, Or.inl hne⟩
      have hstate : handle.state.isConnected = false := by
        rw [← Bool.not_eq_true]
        exact fun hconnected => hgood ⟨handle, hreg, Or.inr hconnected⟩
      obtain ⟨hgreg, hgready, hgpres⟩ :=
        greet_rightful s connector hsecret hstate
      have hpromise : ¬handle.connectedPromise.isSome = true := by
        rw [hsound.promise, hstate]
        exact Bool.false_ne_true
      rw [Option.elim_some, Handler.connect, if_neg hpromise]
      refine (h.of_eq hgready hgreg hgpres).put ⟨hsound.id_eq, rfl, ?_⟩
      intro c hc
      cases hc
      have htoken : token = handle.tunnelToken := TunnelToken.ext hsound.id_eq.symm hsecret
      rw [hgpres, ← htoken]
      exact hpres

theorem Inv.directedRequest (h : Inv s) : Inv (s.directedRequest token request) := by
  rw [Handler.directedRequest]
  split
  · exact h.of_eq rfl rfl rfl
  · rename_i handle hhandle
    split
    · exact h.of_eq rfl rfl rfl
    · rename_i hstate
      have hsound := h.sound token.id handle (checkedHandle_ok hhandle)
      refine h.put ⟨hsound.id_eq, ?_, ?_⟩
      · show handle.connectedPromise.isSome = false
        rw [hsound.promise, hstate]
        rfl
      · intro c hc
        cases hc
    · exact h.of_eq rfl rfl rfl

theorem Inv.onHeartbeat {timeout : Nat} (h : Inv s) : Inv (s.onHeartbeat token timeout) := by
  rw [Handler.onHeartbeat]
  split
  · exact h.of_eq rfl rfl rfl
  · split
    · exact h.of_eq rfl rfl rfl
    · exact h.of_eq rfl rfl rfl

theorem Inv.closeTunnel (h : Inv s) : Inv (s.closeTunnel token) := by
  rw [Handler.closeTunnel]
  split
  · exact h
  · split
    · have hsent : ∀ connector, Inv (s.send connector .close) := fun _ => h.of_eq rfl rfl rfl
      exact (hsent _).removeHandle
    · exact h.removeHandle

theorem intrusion_note : Intrusion (note s m) m ↔ Intrusion s m := by
  cases m <;> rfl

theorem inv_step (h : Inv s) (hgood : Good s m) (hstep : Step s m s') : Inv s' := by
  rw [hstep.2, perform, if_pos h.isReady]
  have hnote : Inv (note s m) := inv_note h
  cases m with
  | newTunnel id secret => exact hnote.newTunnel
  | associated token connector peerAddress =>
      exact hnote.associated (fun hi => hgood (intrusion_note.mp hi)) List.mem_cons_self
  | directedRequest token request => exact hnote.directedRequest
  | onHeartbeat token timeout => exact hnote.onHeartbeat
  | closeTunnel token => exact hnote.closeTunnel
  | terminated connector found =>
      cases found with
      | none => exact hnote
      | some id => exact hnote.removeHandle

theorem inv_of_reach (h : Reach Initial (Guarded Good Step) s) : Inv s :=
  h.invariant (fun _ => inv_initial) fun _ _ _ hinv hstep => inv_step hinv hstep.1 hstep.2

/-! ## An intrusion -/

/-- A connection changes the register, or throws. -/
theorem connect_changes {peerAddress : String}
    (hreg : handle ∈ s.register id) (hready : s.isReady = true) :
    ¬((s.connect handle id connector peerAddress).register = s.register ∧
      (s.connect handle id connector peerAddress).isReady = s.isReady) := by
  rintro ⟨hsame, hstill⟩
  rw [Handler.connect] at hsame hstill
  split at hsame
  · rename_i hsome
    rw [if_pos hsome, hready] at hstill
    cases hstill
  · rename_i hnone
    -- the promise of the new handle is completed, and that of the old one is not
    have hnew := congrFun hsame id
    rw [Handler.put_self, hreg] at hnew
    rw [← congrArg Handle.connectedPromise (Option.some.inj hnew)] at hnone
    exact hnone rfl

theorem greet_frame (s : Handler) (token : TunnelToken) (handle : Handle) (connector : Nat) :
    (s.greet token handle connector).register = s.register ∧
      (s.greet token handle connector).isReady = s.isReady := by
  rw [Handler.greet]
  split
  · exact ⟨rfl, rfl⟩
  · split <;> exact ⟨rfl, rfl⟩

theorem Inv.repelled_iff (h : Inv s) (m : Message) : Repelled s m ↔ ¬Intrusion s m := by
  constructor
  · intro hrep hintr
    obtain ⟨hsame, hstill⟩ := hrep hintr
    rw [perform, if_pos h.isReady] at hsame hstill
    cases m with
    | associated token connector peerAddress =>
        obtain ⟨handle, hhandle, -⟩ := hintr
        obtain ⟨hgreg, hgready⟩ :=
          greet_frame (note s (.associated token connector peerAddress)) token handle connector
        have hassoc : receive (note s (.associated token connector peerAddress))
              (.associated token connector peerAddress) =
            ((note s (.associated token connector peerAddress)).greet token handle connector).connect
              handle token.id connector peerAddress := by
          rw [receive, Handler.associated]
          show (s.register token.id).elim _ _ = _
          rw [Option.mem_def.mp hhandle, Option.elim_some]
        rw [hassoc] at hsame hstill
        refine connect_changes ?_ (hgready.trans h.isReady)
          ⟨hsame.trans hgreg.symm, hstill.trans hgready.symm⟩
        rw [hgreg]
        exact hhandle
    | _ => exact hintr
  · intro hno hintr
    exact absurd hintr hno

/-- As long as nobody intrudes, every tunnel is connected with its rightful connector,
    and no exception escapes; and no intrusion is repelled. -/
theorem repelled_of_reach (h : Reach Initial (Guarded Good Step) s) :
    Rightful s ∧ s.isReady = true ∧ ∀ m, Repelled s m ↔ ¬Intrusion s m := by
  have hinv := inv_of_reach h
  exact ⟨fun connector id handle hh => (hinv.sound id handle hh).rightful connector,
    hinv.isReady, hinv.repelled_iff⟩

/-! ## Closed runs -/

/-- The handler after `Start`. -/
def started : Handler := ⟨fun _ => none, true, [], [], [], [], []⟩

theorem started_initial : Initial started := ⟨rfl, rfl⟩

/-- The messages of the task that the tunnel is made for. -/
def rightfulMessages : List Message :=
  [.newTunnel "1" "secret", .directedRequest ⟨"1", "secret"⟩ ⟨"call", 7, none⟩,
    .associated ⟨"1", "secret"⟩ 10 "127.0.0.1:4444"]

theorem connected_reached :
    Reach Initial (Guarded Good Step) (rightfulMessages.foldl perform started) := by
  have h0 : Reach Initial (Guarded Good Step) started := Reach.start started_initial
  have h1 := h0.next (o := Message.newTunnel "1" "secret") ⟨id, trivial, rfl⟩
  have h2 := h1.next (o := Message.directedRequest ⟨"1", "secret"⟩ ⟨"call", 7, none⟩)
    ⟨id, trivial, rfl⟩
  refine h2.next (o := Message.associated ⟨"1", "secret"⟩ 10 "127.0.0.1:4444") ⟨?_, trivial, rfl⟩
  rintro ⟨handle, hh, hor⟩
  cases hh
  rcases hor with hne | hconnected
  · exact hne rfl
  · cases hconnected

/-- The request that waits is sent to the connector that presents the secret. -/
theorem repelled_of_reach_connected :
    (rightfulMessages.foldl perform started).sent = [(10, .request ⟨"call", 7, none⟩)] ∧
      Rightful (rightfulMessages.foldl perform started) ∧
      (rightfulMessages.foldl perform started).isReady = true ∧
      ∀ m, Repelled (rightfulMessages.foldl perform started) m ↔
        ¬Intrusion (rightfulMessages.foldl perform started) m :=
  ⟨rfl, repelled_of_reach connected_reached⟩

/-- A connector that does not know the secret gets the tunnel. -/
theorem intruder_connected :
    ¬∀ s, Reach Initial Step s → Rightful s ∧ ∀ m, Allowed s m → Repelled s m := by
  intro h
  have h0 : Reach Initial Step started := Reach.start started_initial
  have h1 := h0.next (o := Message.newTunnel "1" "secret") ⟨trivial, rfl⟩
  have h2 := h1.next (o := Message.associated ⟨"1", "guess"⟩ 66 "127.0.0.1:6666") ⟨trivial, rfl⟩
  have hmem := (h _ h2).1 66 "1" _ rfl rfl
  revert hmem
  decide

end ConnectorHandler
