import SchedulerEngine.CallSerializerProofs
import SchedulerEngine.RunInvariantProofs

/-! # COM remoting: which objects the peer knows

    A reference without `isNew` means an object by an id alone, so that the peer must
    have got the id before.  Serializing enters an object in the register while the
    message is being built; if the message is then dropped, the peer never gets the
    id.  `Spared` is the condition that no attempt does so, and in every run that meets
    it each id is introduced before it is used. -/

namespace Minicom

open Execution Wire RunInvariant

variable {O : Type} [DecidableEq O]

/-! ## `ResultSerializer` -/

inductive Result (O : Type) where
  | EmptyResult
  | CreateInstanceResult (iUnknown : Option O)
  | ReleaseResult
  | QueryInterfaceResult (iDispatch : O)
  | GetIDsOfNamesResult (dispatchIds : List DISPID)
  | InvokeResult (result : Value O)

def writeResult (runtime : Runtime O) (result : Result O) : Writer O Unit := do
  writeByte MessageClass.Answer
  match result with
  | .CreateInstanceResult invocable => do
      writeInt32 0
      writeInt32 0
      writeIUnknown runtime invocable
  | .InvokeResult value => do
      writeInt32 0
      writeVariant runtime (writeIUnknown runtime) value
  | .EmptyResult => pure ()
  | .ReleaseResult | .QueryInterfaceResult _ | .GetIDsOfNamesResult _ => throw .matchError

/-! ## Runs -/

/-- What the peer gets, in order. -/
inductive Event where
  /-- an id in a message, with `isNew` -/
  | reference (proxyId : ProxyId) (isNew : Bool)
  /-- the peer has sent an object of its own -/
  | registered (proxyId : ProxyId)
  | released (proxyId : ProxyId)
deriving DecidableEq

structure Remoting (O : Type) where
  proxyRegister : ProxyRegister O
  events : List Event

inductive Op (O : Type) where
  | serializeCall (call : Call O)
  | serializeResult (result : Result O)
  | newProxy (proxyId : ProxyId) (proxy : O)
  | release (proxyId : ProxyId)

namespace Remoting

/-- An attempt to serialize: only a message that is finished is sent. -/
def attempt (write : Writer O Unit) (s : Remoting O) : Remoting O :=
  match serialize write s.proxyRegister with
  | (.ok message, r) =>
      ⟨r, s.events ++ message.references.map fun e => .reference e.1 e.2⟩
  | (.error _, r) => { s with proxyRegister := r }

def perform (runtime : Runtime O) (s : Remoting O) : Op O → Remoting O
  | .serializeCall call => s.attempt (writeCall runtime call)
  | .serializeResult result => s.attempt (writeResult runtime result)
  | .newProxy proxyId proxy =>
      match ProxyRegister.registerProxy proxyId proxy s.proxyRegister with
      | (.ok _, r) => ⟨r, s.events ++ [.registered proxyId]⟩
      | (.error _, r) => { s with proxyRegister := r }
  | .release proxyId =>
      ⟨s.proxyRegister.release proxyId, s.events ++ [.released proxyId]⟩

def Step (runtime : Runtime O) (s : Remoting O) (op : Op O) (s' : Remoting O) : Prop :=
  s' = s.perform runtime op

def Initial (s : Remoting O) : Prop := s = ⟨.empty, []⟩

end Remoting

/-- The id has been introduced and not been released since. -/
def Known (events : List Event) (proxyId : ProxyId) : Prop :=
  ∃ earlier e later, events = earlier ++ e :: later ∧
    (e = .reference proxyId true ∨ e = .registered proxyId) ∧ .released proxyId ∉ later

/-- Each id that stands in a message without `isNew` is known by then. -/
def Introduced (events : List Event) : Prop :=
  ∀ earlier proxyId later, events = earlier ++ .reference proxyId false :: later →
    Known earlier proxyId

/-! ## The condition -/

/-- The values that `writeVariant` has a case for. -/
def Value.Supported : Value O → Prop
  | .int _ | .long _ | .double _ | .boolean _ | .string _ | .null | .unit => True
  | .idispatch iDispatch => iDispatch.isSome
  | .iUnknown _ | .variantArray _ | .other => False

/-- The object of a value, if it is a reference. -/
def Value.object : Value O → Option O
  | .idispatch iDispatch => iDispatch
  | .int _ | .long _ | .double _ | .boolean _ | .string _ | .null | .unit | .iUnknown _
  | .variantArray _ | .other => none

/-- What an attempt writes after simple fields, in the order of writing. -/
def Op.values : Op O → List (Value O)
  | .serializeCall (.object (.InvokeCall _ _ _ _ arguments namedArguments)) =>
      namedArguments.toList.reverse.map Prod.snd ++ arguments.toList.reverse
  | .serializeResult (.CreateInstanceResult iUnknown) => [.idispatch iUnknown]
  | .serializeResult (.InvokeResult value) => [value]
  | .serializeCall _ | .serializeResult _ | .newProxy _ _ | .release _ => []

namespace ProxyRegister

/-- The register after an object has been written. -/
def after (runtime : Runtime O) (r : ProxyRegister O) (v : Value O) : ProxyRegister O :=
  match v.object with
  | some o => (iUnknownToProxyId runtime (some o) r).2
  | none => r

/-- All values can be written: their types are supported, and the ids given to new
    objects are not in use. -/
def Accepts (runtime : Runtime O) : ProxyRegister O → List (Value O) → Prop
  | _, [] => True
  | r, v :: vs => v.Supported ∧ (∀ o ∈ v.object, o ∈ r.objects ∨ r.nextId runtime ∉ r.ids) ∧
      (r.after runtime v).Accepts runtime vs

/-- No new object stands before the first value that is not supported. -/
def NothingNew (r : ProxyRegister O) (values : List (Value O)) : Prop :=
  ∀ earlier v later, values = earlier ++ v :: later → (∀ u ∈ earlier, u.Supported) →
    ∀ o ∈ v.object, o ∈ r.objects

/-- If the attempt fails, then before an object is entered. -/
def Spared (runtime : Runtime O) (r : ProxyRegister O) (values : List (Value O)) : Prop :=
  r.Accepts runtime values ∨ r.nextId runtime ∈ r.ids ∨ r.NothingNew values

end ProxyRegister

/-! ## Known ids -/

theorem Known.concat {events : List Event} {proxyId : ProxyId} {e : Event}
    (h : Known events proxyId) (he : e ≠ .released proxyId) :
    Known (events ++ [e]) proxyId := by
  obtain ⟨earlier, i, later, rfl, hi, hl⟩ := h
  refine ⟨earlier, i, later ++ [e], by rw [List.append_assoc]; rfl, hi, ?_⟩
  rw [List.mem_append, List.mem_singleton]
  rintro (h1 | h1)
  · exact hl h1
  · exact he h1.symm

theorem known_last {events : List Event} {proxyId : ProxyId} {e : Event}
    (he : e = .reference proxyId true ∨ e = .registered proxyId) :
    Known (events ++ [e]) proxyId :=
  ⟨events, e, [], rfl, he, List.not_mem_nil⟩

theorem Introduced.concat {events : List Event} {e : Event} (h : Introduced events)
    (he : ∀ proxyId, e = .reference proxyId false → Known events proxyId) :
    Introduced (events ++ [e]) := by
  intro earlier proxyId later h1
  rcases List.eq_nil_or_concat later with rfl | ⟨l, a, rfl⟩
  · obtain ⟨h2, h3⟩ := List.append_inj' h1 rfl
    rw [← h2]
    exact he proxyId (List.singleton_inj.mp h3)
  · have h2 : events ++ [e] = (earlier ++ .reference proxyId false :: l) ++ [a] := by
      rw [h1, List.concat_eq_append, List.append_assoc]
      rfl
    exact h earlier proxyId l (List.append_inj' h2 rfl).1

/-! ## What writing a value does -/

namespace ProxyRegister

theorem mem_entries_of_idOf {r : ProxyRegister O} {o : O} {proxyId : ProxyId}
    (h : r.idOf o = some proxyId) : (proxyId, o) ∈ r.entries := by
  obtain ⟨e, he, rfl⟩ := Option.map_eq_some_iff.mp h
  have h1 := List.find?_some he
  have h2 : e.2 = o := of_decide_eq_true h1
  rw [← h2]
  exact List.mem_of_find?_eq_some he

theorem idOf_none {r : ProxyRegister O} {o : O} (h : r.idOf o = none) : o ∉ r.objects := by
  intro ho
  obtain ⟨e, he, h1⟩ := List.mem_map.mp ho
  have h2 := List.find?_eq_none.mp (Option.map_eq_none_iff.mp h) e he
  exact h2 (decide_eq_true h1)

/-- The three cases of `iUnknownToProxyId`: the object is registered, it is entered
    under a new id, or the new id is in use. -/
theorem iUnknownToProxyId_cases (runtime : Runtime O) (r : ProxyRegister O) (o : O) :
    (∃ proxyId, (proxyId, o) ∈ r.entries ∧
      iUnknownToProxyId runtime (some o) r = (.ok (proxyId, false), r)) ∨
    (o ∉ r.objects ∧ r.nextId runtime ∉ r.ids ∧
      ∃ r', iUnknownToProxyId runtime (some o) r = (.ok (r.nextId runtime, true), r') ∧
        r'.entries = (r.nextId runtime, o) :: r.entries) ∨
    (o ∉ r.objects ∧ r.nextId runtime ∈ r.ids ∧
      ∃ r', iUnknownToProxyId runtime (some o) r
          = (.error (.duplicateKey (r.nextId runtime)), r') ∧ r'.entries = r.entries) := by
  cases h : r.idOf o with
  | some proxyId =>
      refine .inl ⟨proxyId, mem_entries_of_idOf h, ?_⟩
      rw [iUnknownToProxyId, bind_run, get_run]
      simp only [h]
      rfl
  | none =>
      have ho := idOf_none h
      have run : iUnknownToProxyId runtime (some o) r
          = (do
              add (r.nextId runtime) o
              pure (r.nextId runtime, true)) { r with generated := r.generated + 1 } := by
        rw [iUnknownToProxyId, bind_run, get_run]
        simp only [h]
        rfl
      rw [run, bind_run, add, bind_run, get_run]
      by_cases hi : r.nextId runtime ∈ r.ids
      · refine .inr (.inr ⟨ho, hi, { r with generated := r.generated + 1 }, ?_, rfl⟩)
        have hi' : r.nextId runtime ∈ ProxyRegister.ids { r with generated := r.generated + 1 } := hi
        simp only [dif_pos hi']
        rfl
      · have hi' : r.nextId runtime ∉ ProxyRegister.ids { r with generated := r.generated + 1 } := hi
        have ho' : o ∉ ProxyRegister.objects { r with generated := r.generated + 1 } := ho
        simp only [dif_neg hi', dif_neg ho']
        exact .inr (.inl ⟨ho, hi, _, rfl, rfl⟩)

end ProxyRegister

/-- What writing a value does to the register and to the references. -/
inductive Writing (runtime : Runtime O) (v : Value O) (s : Serializer O) :
    Except Failure Unit × Serializer O → Prop where
  | plain (b : List UInt8) : v.Supported → v.object = none →
      Writing runtime v s (.ok (), { s with builder := b })
  | refused (e : Failure) (b : List UInt8) : ¬ v.Supported → v.object = none →
      Writing runtime v s (.error e, { s with builder := b })
  | old (b : List UInt8) (o : O) (proxyId : ProxyId) : v.object = some o →
      (proxyId, o) ∈ s.proxyRegister.entries → s.proxyRegister.after runtime v = s.proxyRegister →
      Writing runtime v s
        (.ok (), ⟨b, s.proxyRegister, s.references ++ [(proxyId, false)]⟩)
  | new (b : List UInt8) (o : O) : v.object = some o → o ∉ s.proxyRegister.objects →
      s.proxyRegister.nextId runtime ∉ s.proxyRegister.ids →
      (s.proxyRegister.after runtime v).entries
        = (s.proxyRegister.nextId runtime, o) :: s.proxyRegister.entries →
      Writing runtime v s (.ok (), ⟨b, s.proxyRegister.after runtime v,
        s.references ++ [(s.proxyRegister.nextId runtime, true)]⟩)
  | inUse (b : List UInt8) (e : Failure) (o : O) (r : ProxyRegister O) : v.object = some o →
      o ∉ s.proxyRegister.objects → s.proxyRegister.nextId runtime ∈ s.proxyRegister.ids →
      r.entries = s.proxyRegister.entries →
      Writing runtime v s (.error e, ⟨b, r, s.references⟩)

variable {runtime : Runtime O} {v : Value O} {s s' : Serializer O}
  {out : Except Failure Unit × Serializer O}

/-- The bytes written before do not matter. -/
theorem Writing.of_builder {b : List UInt8}
    (h : Writing runtime v { s with builder := b } out) : Writing runtime v s out := by
  cases h with
  | plain b' h1 h2 => exact .plain b' h1 h2
  | refused e b' h1 h2 => exact .refused e b' h1 h2
  | old b' o proxyId h1 h2 h3 => exact .old b' o proxyId h1 h2 h3
  | new b' o h1 h2 h3 h4 => exact .new b' o h1 h2 h3 h4
  | inUse b' e o r h1 h2 h3 h4 => exact .inUse b' e o r h1 h2 h3 h4

theorem writing_iUnknown (o : O) (s : Serializer O) :
    Writing runtime (.idispatch (some o)) s (writeIUnknown runtime (some o) s) := by
  rw [writeIUnknown, bind_run, onRegister, Exec.onPart]
  have h := ProxyRegister.iUnknownToProxyId_cases runtime s.proxyRegister o
  have ha : s.proxyRegister.after runtime (.idispatch (some o))
      = (ProxyRegister.iUnknownToProxyId runtime (some o) s.proxyRegister).2 := rfl
  rcases h with ⟨proxyId, h1, h2⟩ | ⟨h1, h2, r', h3, h4⟩ | ⟨h1, h2, r', h3, h4⟩
  · rw [h2] at ha
    rw [h2]
    exact .old _ o proxyId rfl h1 ha
  · rw [h3] at ha
    have h5 : r' = s.proxyRegister.after runtime (.idispatch (some o)) := ha.symm
    rw [h3]
    rw [h5] at h4 ⊢
    exact .new _ o rfl h1 h2 h4
  · rw [h3]
    exact .inUse _ _ o r' rfl h1 h2 h4

theorem writing_writes {w : List UInt8} (hs : v.Supported) (hv : v.object = none)
    {m : Writer O Unit} (h : (builder O).Writes m w) (s : Serializer O) :
    Writing runtime v s (m s) := by
  rw [h s]
  exact .plain _ hs hv

theorem writing_variant (v : Value O) (s : Serializer O) :
    Writing runtime v s (writeVariant runtime (writeIUnknown runtime) v s) := by
  cases v with
  | int o => exact writing_writes (v := .int o) trivial rfl ((writes_bytes _).bind (writes_bytes _)) s
  | long o => exact writing_writes (v := .long o) trivial rfl ((writes_bytes _).bind (writes_bytes _)) s
  | double o => exact writing_writes (v := .double o) trivial rfl (writes_double o) s
  | boolean o => exact writing_writes (v := .boolean o) trivial rfl ((writes_bytes _).bind (writes_bytes _)) s
  | string o => exact writing_writes (v := .string o) trivial rfl (writes_string_variant o) s
  | null => exact writing_writes (v := .null) trivial rfl writes_null s
  | unit => exact writing_writes (v := .unit) trivial rfl (writes_bytes _) s
  | idispatch iDispatch =>
      cases iDispatch with
      | none => exact .refused _ _ (fun h => by cases h) rfl
      | some o => exact (writing_iUnknown o _).of_builder
  | iUnknown o => exact .refused _ _ id rfl
  | variantArray o => exact .refused _ _ id rfl
  | other => exact .refused _ _ id rfl

/-- Writing several values one after the other. -/
inductive WritingAll (runtime : Runtime O) :
    List (Value O) → Serializer O → Except Failure Unit × Serializer O → Prop where
  | done (s : Serializer O) (b : List UInt8) :
      WritingAll runtime [] s (.ok (), { s with builder := b })
  | failed (v : Value O) (vs : List (Value O)) (s s' : Serializer O) (e : Failure) :
      Writing runtime v s (.error e, s') → WritingAll runtime (v :: vs) s (.error e, s')
  | more (v : Value O) (vs : List (Value O)) (s s' : Serializer O)
      (out : Except Failure Unit × Serializer O) :
      Writing runtime v s (.ok (), s') → WritingAll runtime vs s' out →
      WritingAll runtime (v :: vs) s out

theorem WritingAll.of_builder {vs : List (Value O)} {b : List UInt8}
    (h : WritingAll runtime vs { s with builder := b } out) : WritingAll runtime vs s out := by
  cases h with
  | done s b' => exact .done _ b'
  | failed v vs s s' e h1 => exact .failed v vs _ s' e h1.of_builder
  | more v vs s s' out h1 h2 => exact .more v vs _ s' _ h1.of_builder h2

theorem writing_forEach (vs : List (Value O)) (s : Serializer O) :
    WritingAll runtime vs s
      (Exec.forEach (writeVariant runtime (writeIUnknown runtime)) vs s) := by
  induction vs generalizing s with
  | nil => exact .done s s.builder
  | cons v vs ih =>
      have h1 : Writing runtime v s _ := writing_variant v s
      rw [forEach_cons, bind_run]
      rcases h2 : writeVariant runtime (writeIUnknown runtime) v s with ⟨r, s'⟩
      rw [h2] at h1
      cases r with
      | ok u => exact .more v vs s s' _ h1 (ih s')
      | error e => exact .failed v vs s s' e h1

/-! ## What an attempt keeps -/

/-- The ids of the register are known, given what was sent before and what is in this
    message so far, and no id is used before it is introduced. -/
def Consistent (events : List Event) (s : Serializer O) : Prop :=
  let all := events ++ s.references.map fun e => .reference e.1 e.2
  (∀ proxyId ∈ s.proxyRegister.ids, Known all proxyId) ∧ Introduced all

/-- The events with one reference more. -/
theorem references_concat (events : List Event) (references : List (ProxyId × Bool))
    (proxyId : ProxyId) (isNew : Bool) :
    (events ++ (references ++ [(proxyId, isNew)]).map fun e => Event.reference e.1 e.2)
      = (events ++ references.map fun e => Event.reference e.1 e.2)
        ++ [.reference proxyId isNew] := by
  rw [List.map_append, ← List.append_assoc]
  rfl

theorem Writing.consistent {events : List Event} (h : Writing runtime v s (.ok (), s'))
    (hs : Consistent events s) : Consistent events s' := by
  obtain ⟨hk, hi⟩ := hs
  cases h with
  | plain b h1 h2 => exact ⟨hk, hi⟩
  | old b o proxyId h1 h2 h3 =>
      have h4 : proxyId ∈ s.proxyRegister.ids := List.mem_map.mpr ⟨_, h2, rfl⟩
      rw [Consistent, references_concat]
      refine ⟨fun i hi => (hk i hi).concat (by intro h; cases h), hi.concat ?_⟩
      intro i he
      cases he
      exact hk proxyId h4
  | new b o h1 h2 h3 h4 =>
      rw [Consistent, references_concat]
      refine ⟨?_, hi.concat fun i he => by cases he⟩
      intro i hi
      rw [ProxyRegister.ids, h4, List.map_cons] at hi
      rcases List.mem_cons.mp hi with rfl | hi
      · exact known_last (.inl rfl)
      · exact (hk i hi).concat (by intro h; cases h)

theorem WritingAll.consistent {events : List Event} {vs : List (Value O)}
    (h : WritingAll runtime vs s out) (hs : Consistent events s) (ho : out.1 = .ok ()) :
    Consistent events out.2 := by
  induction h with
  | done s b => exact hs
  | failed v vs s s' e h1 => cases ho
  | more v vs s s' out h1 h2 ih => exact ih (h1.consistent hs) ho

omit [DecidableEq O] in
theorem supported_of_object {o : O} (h : v.object = some o) : v.Supported := by
  cases v with
  | idispatch iDispatch =>
      have h1 : iDispatch = some o := h
      rw [h1]
      exact rfl
  | int o => cases h
  | long o => cases h
  | double o => cases h
  | boolean o => cases h
  | string o => cases h
  | null => cases h
  | unit => cases h
  | iUnknown o => cases h
  | variantArray o => cases h
  | other => cases h

theorem Writing.supported (h : Writing runtime v s (.ok (), s')) : v.Supported := by
  cases h with
  | plain b h1 h2 => exact h1
  | old b o proxyId h1 h2 h3 => exact supported_of_object h1
  | new b o h1 h2 h3 h4 => exact supported_of_object h1

theorem Writing.register (h : Writing runtime v s (.ok (), s')) :
    s'.proxyRegister = s.proxyRegister.after runtime v := by
  cases h with
  | plain b h1 h2 =>
      rw [ProxyRegister.after, h2]
  | old b o proxyId h1 h2 h3 => exact h3.symm
  | new b o h1 h2 h3 h4 => rfl

/-- What the register accepts is written to the end. -/
theorem WritingAll.accepted {vs : List (Value O)} (h : WritingAll runtime vs s out)
    (ha : s.proxyRegister.Accepts runtime vs) : out.1 = .ok () := by
  induction h with
  | done s b => rfl
  | failed v vs s s' e h1 =>
      obtain ⟨h2, h3, -⟩ := ha
      cases h1 with
      | refused _ b h4 h5 => exact absurd h2 h4
      | inUse b _ o r h4 h5 h6 h7 =>
          rcases h3 o (by rw [h4]; exact rfl) with h8 | h8
          · exact absurd h8 h5
          · exact absurd h6 h8
  | more v vs s s' out h1 h2 ih => exact ih (h1.register ▸ ha.2.2)

/-- If the first new object cannot be entered, then none is. -/
theorem WritingAll.inUse {vs : List (Value O)} (h : WritingAll runtime vs s out)
    (ha : s.proxyRegister.nextId runtime ∈ s.proxyRegister.ids) :
    out.2.proxyRegister.entries = s.proxyRegister.entries := by
  induction h with
  | done s b => rfl
  | failed v vs s s' e h1 =>
      cases h1 with
      | refused _ b h4 h5 => rfl
      | inUse b _ o r h4 h5 h6 h7 => exact h7
  | more v vs s s' out h1 h2 ih =>
      cases h1 with
      | plain b h3 h4 => exact ih ha
      | old b o proxyId h3 h4 h5 => exact ih ha
      | new b o h3 h4 h5 h6 => exact absurd ha h5

/-- If nothing new comes before a failure, nothing is entered. -/
theorem WritingAll.nothingNew {vs : List (Value O)} (h : WritingAll runtime vs s out)
    (ha : s.proxyRegister.NothingNew vs) :
    out.2.proxyRegister.entries = s.proxyRegister.entries := by
  induction h with
  | done s b => rfl
  | failed v vs s s' e h1 =>
      cases h1 with
      | refused _ b h4 h5 => rfl
      | inUse b _ o r h4 h5 h6 h7 => exact h7
  | more v vs s s' out h1 h2 ih =>
      have rest : s.proxyRegister.NothingNew vs := by
        intro earlier u later hu hsup
        refine ha (v :: earlier) u later (by rw [hu]; rfl) ?_
        intro x hx
        rcases List.mem_cons.mp hx with rfl | hx
        · exact h1.supported
        · exact hsup x hx
      cases h1 with
      | plain b h3 h4 => exact ih rest
      | old b o proxyId h3 h4 h5 => exact ih rest
      | new b o h3 h4 h5 h6 =>
          have h7 := ha [] v vs rfl (fun u hu => absurd hu List.not_mem_nil) o (by rw [h3]; exact rfl)
          exact absurd h7 h4

/-! ## Attempts -/

/-- An attempt writes its values, or it is refused without them. -/
inductive Attempt (runtime : Runtime O) (values : List (Value O)) (s : Serializer O) :
    Except Failure Unit × Serializer O → Prop where
  | values (out : Except Failure Unit × Serializer O) : WritingAll runtime values s out →
      Attempt runtime values s out
  | refused (e : Failure) (b : List UInt8) :
      Attempt runtime values s (.error e, { s with builder := b })

theorem attempt_of_writes {w : List UInt8} {m : Writer O Unit} (h : (builder O).Writes m w)
    (s : Serializer O) : Attempt runtime [] s (m s) := by
  rw [h s]
  exact .values _ (.done s _)

theorem Attempt.of_builder {values : List (Value O)} {b : List UInt8}
    (h : Attempt runtime values { s with builder := b } out) : Attempt runtime values s out := by
  cases h with
  | values _ h1 => exact .values _ h1.of_builder
  | refused e b' => exact .refused e b'

/-- Simple fields before the values. -/
theorem attempt_after {values : List (Value O)} {w : List UInt8} {m n : Writer O Unit}
    (hm : (builder O).Writes m w) (hn : ∀ s, Attempt runtime values s (n s)) (s : Serializer O) :
    Attempt runtime values s ((do m; n : Writer O Unit) s) := by
  rw [bind_run, hm s]
  exact (hn _).of_builder

theorem attempt_forEach (values : List (Value O)) (s : Serializer O) :
    Attempt runtime values s
      (Exec.forEach (writeVariant runtime (writeIUnknown runtime)) values s) :=
  .values _ (writing_forEach values s)

theorem attempt_variant (v : Value O) (s : Serializer O) :
    Attempt runtime [v] s (writeVariant runtime (writeIUnknown runtime) v s) := by
  have h : Writing runtime v s _ := writing_variant v s
  rcases hr : writeVariant runtime (writeIUnknown runtime) v s with ⟨r, s'⟩
  rw [hr] at h
  cases r with
  | ok u => exact .values _ (.more v [] s s' _ h (.done s' s'.builder))
  | error e => exact .values _ (.failed v [] s s' e h)

theorem attempt_iUnknown (iUnknown : Option O) (s : Serializer O) :
    Attempt runtime [.idispatch iUnknown] s (writeIUnknown runtime iUnknown s) := by
  cases iUnknown with
  | none => exact .refused _ s.builder
  | some o =>
      have h : Writing runtime _ s _ := writing_iUnknown o s
      rcases hr : writeIUnknown runtime (some o) s with ⟨r, s'⟩
      rw [hr] at h
      cases r with
      | ok u => exact .values _ (.more _ [] s s' _ h (.done s' s'.builder))
      | error e => exact .values _ (.failed _ [] s s' e h)

theorem attempt_objectCall (call : ObjectCall O) (s : Serializer O) :
    Attempt runtime (Op.serializeCall (.object call)).values s
      (writeObjectCall runtime call s) := by
  cases call with
  | ReleaseCall proxyId => exact .refused _ s.builder
  | CallCall proxyId methodName arguments => exact .refused _ s.builder
  | QueryInterfaceCall proxyId iid =>
      exact attempt_of_writes ((writes_bytes _).bind ((writes_bytes _).bind (writes_uuid _))) s
  | GetIDsOfNamesCall proxyId iid localeId names =>
      have names : (builder O).Writes (Exec.forEach writeString names.toList)
          (names.toList.flatMap stringBytes) := Sink.Writes.forEach fun n _ => writes_string n
      exact attempt_of_writes ((writes_bytes _).bind ((writes_uuid _).bind
        ((writes_bytes _).bind ((writes_bytes _).bind names)))) s
  | InvokeCall proxyId dispatchId iid dispatchTypes arguments namedArguments =>
      have ids : (builder O).Writes
          (Exec.forEach (fun a : DISPID × Value O => writeInt32 a.1.value)
            namedArguments.toList.reverse)
          (namedArguments.toList.reverse.flatMap fun a => int32Bytes a.1.value) :=
        Sink.Writes.forEach fun a _ => writes_bytes _
      exact attempt_after (writes_bytes _) (attempt_after (writes_bytes _)
        (attempt_after (writes_uuid _) (attempt_after (writes_bytes _)
        (attempt_after (writes_bytes _) (attempt_after (writes_bytes _)
        (attempt_after (writes_bytes _) (attempt_after ids (attempt_forEach _)))))))) s

theorem attempt_call (call : Call O) (s : Serializer O) :
    Attempt runtime (Op.serializeCall call).values s (writeCall runtime call s) := by
  cases call with
  | session call => exact attempt_of_writes ((writes_bytes _).bind (writes_sessionCall call)) s
  | KeepaliveCall => exact attempt_of_writes (writes_bytes _) s
  | object call =>
      exact attempt_after (writes_bytes _) (attempt_after (writes_bytes _)
        (attempt_objectCall call)) s

theorem attempt_result (result : Result O) (s : Serializer O) :
    Attempt runtime (Op.serializeResult result).values s (writeResult runtime result s) := by
  cases result with
  | CreateInstanceResult iUnknown =>
      exact attempt_after (writes_bytes _) (attempt_after (writes_bytes _)
        (attempt_after (writes_bytes _) (attempt_iUnknown iUnknown))) s
  | InvokeResult v =>
      exact attempt_after (writes_bytes _) (attempt_after (writes_bytes _) (attempt_variant v)) s
  | EmptyResult =>
      exact attempt_after (writes_bytes _) (fun s => .values _ (.done s s.builder)) s
  | ReleaseResult => exact attempt_after (writes_bytes _) (fun s => .refused _ s.builder) s
  | QueryInterfaceResult o =>
      exact attempt_after (writes_bytes _) (fun s => .refused _ s.builder) s
  | GetIDsOfNamesResult ids =>
      exact attempt_after (writes_bytes _) (fun s => .refused _ s.builder) s

/-! ## The invariant over runs -/

/-- The peer knows all ids of the register, and each id was introduced before it was
    used. -/
structure Inv (s : Remoting O) : Prop where
  known : ∀ proxyId ∈ s.proxyRegister.ids, Known s.events proxyId
  introduced : Introduced s.events

omit [DecidableEq O] in
theorem inv_initial {s : Remoting O} (h : Remoting.Initial s) : Inv s := by
  rw [h]
  refine ⟨fun i hi => absurd hi List.not_mem_nil, ?_⟩
  intro earlier proxyId later he
  exact absurd he.symm (List.append_ne_nil_of_right_ne_nil _ (List.cons_ne_nil _ _))

theorem Inv.attempt {s : Remoting O} (h : Inv s) {write : Writer O Unit}
    {values : List (Value O)} (hw : ∀ t, Attempt runtime values t (write t))
    (hc : s.proxyRegister.Spared runtime values) : Inv (s.attempt write) := by
  have h0 : Consistent s.events ⟨[], s.proxyRegister, []⟩ := by
    rw [Consistent, List.map_nil, List.append_nil]
    exact ⟨h.known, h.introduced⟩
  have h1 := hw ⟨[], s.proxyRegister, []⟩
  rw [Remoting.attempt, serialize]
  rcases hr : write ⟨[], s.proxyRegister, []⟩ with ⟨r, t⟩
  rw [hr] at h1
  have unchanged : t.proxyRegister.entries = s.proxyRegister.entries →
      Inv { s with proxyRegister := t.proxyRegister } := by
    intro he
    refine ⟨?_, h.introduced⟩
    show ∀ i ∈ t.proxyRegister.entries.map Prod.fst, _
    rw [he]
    exact h.known
  cases r with
  | ok u =>
      cases h1 with
      | values _ h2 =>
          have h3 := h2.consistent h0 rfl
          exact ⟨h3.1, h3.2⟩
  | error e =>
      cases h1 with
      | refused _ b => exact unchanged rfl
      | values _ h2 =>
          rcases hc with hc | hc | hc
          · cases h2.accepted hc
          · exact unchanged (h2.inUse hc)
          · exact unchanged (h2.nothingNew hc)

theorem Inv.newProxy {s : Remoting O} (h : Inv s) (proxyId : ProxyId) (proxy : O) :
    Inv (s.perform runtime (.newProxy proxyId proxy)) := by
  rw [Remoting.perform, ProxyRegister.registerProxy, ProxyRegister.add, bind_run, get_run]
  by_cases hi : proxyId ∈ s.proxyRegister.ids
  · simp only [dif_pos hi]
    exact h
  · by_cases ho : proxy ∈ s.proxyRegister.objects
    · simp only [dif_neg hi, dif_pos ho]
      exact h
    · simp only [dif_neg hi, dif_neg ho]
      refine ⟨?_, h.introduced.concat fun i he => by cases he⟩
      intro i hm
      rcases List.mem_cons.mp (show i ∈ proxyId :: s.proxyRegister.ids from hm) with rfl | hm
      · exact known_last (.inr rfl)
      · exact (h.known i hm).concat (by intro he; cases he)

theorem Inv.release {s : Remoting O} (h : Inv s) (proxyId : ProxyId) :
    Inv (s.perform runtime (.release proxyId)) := by
  refine ⟨?_, h.introduced.concat fun i he => by cases he⟩
  intro i hm
  obtain ⟨e, he, rfl⟩ := List.mem_map.mp hm
  obtain ⟨h1, h2⟩ := List.mem_filter.mp he
  refine (h.known e.1 (List.mem_map.mpr ⟨e, h1, rfl⟩)).concat ?_
  intro h3
  exact of_decide_eq_true h2 (Event.released.inj h3).symm

/-- No attempt enters an object in the register and fails then. -/
def SparesRegister (runtime : Runtime O) (s : Remoting O) (op : Op O) : Prop :=
  s.proxyRegister.Spared runtime op.values

theorem inv_step {s t : Remoting O} {op : Op O} (h : Inv s)
    (hstep : Guarded (SparesRegister runtime) (Remoting.Step runtime) s op t) : Inv t := by
  obtain ⟨hc, rfl⟩ := hstep
  cases op with
  | serializeCall call => exact h.attempt (attempt_call call) hc
  | serializeResult result => exact h.attempt (attempt_result result) hc
  | newProxy proxyId proxy => exact h.newProxy proxyId proxy
  | release proxyId => exact h.release proxyId

/-- In every run whose attempts do not fail after entering an object, the peer has got
    each id that is used before it is used. -/
theorem introduced_of_reach (runtime : Runtime O) (s : Remoting O)
    (h : Reach Remoting.Initial (Guarded (SparesRegister runtime) (Remoting.Step runtime)) s) :
    Introduced s.events :=
  (h.invariant (I := Inv) (fun _ => inv_initial) fun _ _ _ hi hs => inv_step hi hs).introduced

/-! ## Closed runs -/

def noMessage : Remoting DummyObject := ⟨.empty, []⟩

/-- An invocation of an object of the peer with some arguments. -/
def invocation (arguments : Seq (Value DummyObject)) : Op DummyObject :=
  .serializeCall (.object (.InvokeCall ⟨1⟩ ⟨0⟩ ⟨⟨0, 0⟩⟩ {.DISPATCH_METHOD} arguments
    ⟨[], by decide⟩))

/-- The invocation fails after the object has been entered, and the next one sends the
    object. -/
def leavingOps : List (Op DummyObject) :=
  [invocation ⟨[.other, .idispatch (some .empty)], by decide⟩,
    invocation ⟨[.idispatch (some .empty)], by decide⟩]

/-- An object is sent twice; in between an invocation fails before it gets to another
    object. -/
theorem introduced_sparing :
    ∃ s : Remoting DummyObject, s.events =
        [.reference ⟨0x340000001⟩ true, .reference ⟨0x340000001⟩ false] ∧
      Introduced s.events := by
  have h0 : Reach Remoting.Initial (Guarded (SparesRegister sampleRuntime)
      (Remoting.Step sampleRuntime)) noMessage := Reach.start rfl
  have h1 := h0.next (o := invocation ⟨[.idispatch (some .empty), .int 1], by decide⟩)
    ⟨.inl ⟨trivial, (fun o ho => by cases ho), rfl, fun o _ => .inr List.not_mem_nil, trivial⟩, rfl⟩
  have h2 := h1.next
    (o := invocation ⟨[.idispatch (some (.proxy ⟨9⟩ ⟨[], by decide⟩)), .other], by decide⟩)
    ⟨.inr (.inr ?_), rfl⟩
  · have h3 := h2.next (o := invocation ⟨[.idispatch (some .empty)], by decide⟩)
      ⟨.inl ⟨rfl, (fun o ho => ?_), trivial⟩, rfl⟩
    · exact ⟨_, by decide, introduced_of_reach sampleRuntime _ h3⟩
    · cases ho
      exact .inl (by decide)
  · intro earlier v later he hs o ho
    cases earlier with
    | nil =>
        have h3 : Value.other = v := (List.cons.inj he).1
        rw [← h3] at ho
        cases ho
    | cons u earlier =>
        have h3 : Value.other = u := (List.cons.inj he).1
        have h4 := hs u (List.mem_cons_self ..)
        rw [← h3] at h4
        exact h4.elim

theorem not_introduced_leaving :
    ∃ s, Reach Remoting.Initial (Remoting.Step sampleRuntime) s ∧ ¬ Introduced s.events := by
  have h0 : Reach Remoting.Initial (Remoting.Step sampleRuntime) noMessage := Reach.start rfl
  have step : ∀ s op, Remoting.Step sampleRuntime s op (s.perform sampleRuntime op) :=
    fun _ _ => rfl
  refine ⟨_, Reach.foldl step h0 leavingOps, ?_⟩
  have h : (leavingOps.foldl (Remoting.perform sampleRuntime) noMessage).events
      = [.reference ⟨0x340000001⟩ false] := by decide
  rw [h]
  intro hi
  obtain ⟨earlier, e, later, he, -⟩ := hi [] _ [] rfl
  exact absurd he.symm (List.append_ne_nil_of_right_ne_nil _ (List.cons_ne_nil _ _))

end Minicom
