import Mathlib.Algebra.Ring.Int.Defs
import Mathlib.Algebra.Ring.Nat
import Mathlib.Data.List.Basic
import SchedulerEngine.RunInvariantProofs

/-! # Messages with a length header

    A message is sent as its length, four bytes and big endian, and its content.
    The collector puts messages together again from chunks; what it has is a
    function of the bytes that have come since the last message. -/

namespace LengthHeader

abbrev Byte := UInt8

/-- A `ByteString`, whose length is an `Int`. -/
abbrev Message := { bytes : List Byte // bytes.length < 2 ^ 31 }

/-- `LengthHeaderMessageCollector`; `lengthBuffer` up to its position. -/
structure Collector where
  lengthBuffer : List Byte
  length : Int
  contentBuffer : Option (List Byte)
deriving DecidableEq, Repr

inductive Failure where
  | negativeLength (length : Int)
  | moreData (extra : Int)
deriving DecidableEq, Repr

def Collector.initial : Collector := ⟨[], -1, none⟩

def Collector.hasRemaining (c : Collector) : Bool := c.lengthBuffer.length < 4

/-- A number of big-endian bytes. -/
def number (bytes : List Byte) : Nat := bytes.foldl (fun n byte => n * 256 + byte.toNat) 0

/-- `lengthBuffer.getInt(0)`: four bytes with a sign. -/
def getInt (bytes : List Byte) : Int := (number bytes : Int).bmod (2 ^ 32)

/-- The first part of `apply`, until the content is checked. -/
def Collector.take (c : Collector) (chunk : List Byte) : Except Failure Collector :=
  if c.hasRemaining then
    let remaining := 4 - c.lengthBuffer.length
    let lengthBuffer := c.lengthBuffer ++ chunk.take remaining
    if lengthBuffer.length < 4 then .ok { c with lengthBuffer := lengthBuffer }
    else if getInt lengthBuffer < 0 then .error (.negativeLength (getInt lengthBuffer))
    else .ok ⟨lengthBuffer, getInt lengthBuffer, some (chunk.drop remaining)⟩
  else .ok { c with contentBuffer := c.contentBuffer.map fun content => content ++ chunk }

/-- The second part of `apply`: the content, if it is complete. -/
def Collector.result (c : Collector) : Except Failure (Option (List Byte) × Collector) :=
  match c.contentBuffer with
  | none => .ok (none, c)
  | some content =>
      if (content.length : Int) < c.length then .ok (none, c)
      else if c.length < content.length then .error (.moreData (content.length - c.length))
      else .ok (some content, .initial)

/-- `apply`. -/
def Collector.apply (c : Collector) (chunk : List Byte) :
    Except Failure (Option (List Byte) × Collector) := do
  (← c.take chunk).result

/-- `intToBytesString`. -/
def intToBytesString (i : Int) : List Byte :=
  let n := (i % 2 ^ 32).toNat
  [UInt8.ofNat (n / 2 ^ 24), UInt8.ofNat (n / 2 ^ 16), UInt8.ofNat (n / 2 ^ 8), UInt8.ofNat n]

/-- What is sent for a message. -/
def frame (m : Message) : List Byte := intToBytesString m.1.length ++ m.1

/-! ## The bytes since the last message -/

/-- The collector that has got some bytes and given no message. -/
def Collector.after (received : List Byte) : Collector :=
  if received.length < 4 then ⟨received, -1, none⟩
  else ⟨received.take 4, getInt (received.take 4), some (received.drop 4)⟩

/-- What the bytes since the last message amount to. -/
def judge (received : List Byte) : Except Failure (Option (List Byte) × Collector) :=
  if received.length < 4 then .ok (none, .after received)
  else if getInt (received.take 4) < 0 then .error (.negativeLength (getInt (received.take 4)))
  else (Collector.after received).result

theorem apply_ok {c c' : Collector} {chunk : List Byte} (h : c.take chunk = .ok c') :
    c.apply chunk = c'.result := by
  rw [Collector.apply, h]
  rfl

theorem apply_error {c : Collector} {chunk : List Byte} {e : Failure}
    (h : c.take chunk = .error e) : c.apply chunk = .error e := by
  rw [Collector.apply, h]
  rfl

/-- How the bytes have come does not matter. -/
theorem apply_after {received : List Byte} (chunk : List Byte)
    (h : 4 ≤ received.length → 0 ≤ getInt (received.take 4)) :
    (Collector.after received).apply chunk = judge (received ++ chunk) := by
  by_cases hlen : received.length < 4
  · have hafter : Collector.after received = ⟨received, -1, none⟩ := if_pos hlen
    have hrem : Collector.hasRemaining ⟨received, -1, none⟩ = true := decide_eq_true hlen
    have htake : (received ++ chunk).take 4 = received ++ chunk.take (4 - received.length) := by
      rw [List.take_append, List.take_of_length_le (by omega)]
    have hdrop : (received ++ chunk).drop 4 = chunk.drop (4 - received.length) := by
      rw [List.drop_append, List.drop_of_length_le (by omega), List.nil_append]
    by_cases hall : (received ++ chunk).length < 4
    · -- the header is still incomplete
      have hchunk : chunk.take (4 - received.length) = chunk := by
        rw [List.length_append] at hall
        exact List.take_of_length_le (by omega)
      have hok : Collector.take ⟨received, -1, none⟩ chunk = .ok ⟨received ++ chunk, -1, none⟩ := by
        rw [Collector.take, if_pos hrem]
        dsimp only
        rw [hchunk, if_pos hall]
      rw [hafter, apply_ok hok, judge, if_pos hall, Collector.after, if_pos hall]
      rfl
    · have hfour : ¬(received ++ chunk.take (4 - received.length)).length < 4 := by
        rw [← htake, List.length_take, Nat.min_eq_left (Nat.le_of_not_lt hall)]
        exact Nat.lt_irrefl 4
      by_cases hneg : getInt ((received ++ chunk).take 4) < 0
      · have herror : Collector.take ⟨received, -1, none⟩ chunk
            = .error (.negativeLength (getInt ((received ++ chunk).take 4))) := by
          rw [Collector.take, if_pos hrem]
          dsimp only
          rw [if_neg hfour, ← htake, if_pos hneg]
        rw [hafter, apply_error herror, judge, if_neg hall, if_pos hneg]
      · have hok : Collector.take ⟨received, -1, none⟩ chunk
            = .ok (Collector.after (received ++ chunk)) := by
          rw [Collector.take, if_pos hrem]
          dsimp only
          rw [if_neg hfour, ← htake, if_neg hneg, ← hdrop, Collector.after, if_neg hall]
        rw [hafter, apply_ok hok, judge, if_neg hall, if_neg hneg]
  · have hafter : Collector.after received
        = ⟨received.take 4, getInt (received.take 4), some (received.drop 4)⟩ := if_neg hlen
    have hrem : ¬Collector.hasRemaining
        ⟨received.take 4, getInt (received.take 4), some (received.drop 4)⟩ = true := by
      rw [Collector.hasRemaining, decide_eq_true_eq, List.length_take]
      omega
    have htake : (received ++ chunk).take 4 = received.take 4 :=
      List.take_append_of_le_length (by omega)
    have hdrop : (received ++ chunk).drop 4 = received.drop 4 ++ chunk :=
      List.drop_append_of_le_length (by omega)
    have hall : ¬(received ++ chunk).length < 4 := by
      rw [List.length_append]
      omega
    have hneg : ¬getInt ((received ++ chunk).take 4) < 0 := by
      rw [htake]
      exact Int.not_lt.mpr (h (Nat.le_of_not_lt hlen))
    have hok : Collector.take ⟨received.take 4, getInt (received.take 4), some (received.drop 4)⟩
        chunk = .ok (Collector.after (received ++ chunk)) := by
      rw [Collector.take, if_neg hrem, Collector.after, if_neg hall, htake, hdrop]
      simp only [Option.map_some]
    rw [hafter, apply_ok hok, judge, if_neg hall, if_neg hneg]

/-! ## The header of a message -/

theorem length_intToBytesString (i : Int) : (intToBytesString i).length = 4 := rfl

theorem number_intToBytesString {n : Nat} (hn : n < 2 ^ 32) :
    number (intToBytesString n) = n := by
  have hmod : ((n : Int) % 2 ^ 32).toNat = n := by
    have hlt : (n : Int) < 2 ^ 32 := by exact_mod_cast hn
    rw [Int.emod_eq_of_lt (Int.natCast_nonneg n) hlt, Int.toNat_natCast]
  rw [intToBytesString, hmod]
  simp only [number, List.foldl_cons, List.foldl_nil, UInt8.toNat_ofNat']
  omega

theorem getInt_number {bytes : List Byte} (h : number bytes < 2 ^ 31) :
    getInt bytes = number bytes :=
  Int.bmod_eq_of_le (by omega) (by omega)

theorem getInt_intToBytesString {n : Nat} (hn : n < 2 ^ 31) :
    getInt (intToBytesString n) = n := by
  have hnumber : number (intToBytesString n) = n :=
    number_intToBytesString (Nat.lt_trans hn (by decide))
  exact (getInt_number (hnumber.symm ▸ hn)).trans (congrArg Int.ofNat hnumber)

theorem take_frame (m : Message) : (frame m).take 4 = intToBytesString m.1.length :=
  List.take_left' (length_intToBytesString _)

theorem drop_frame (m : Message) : (frame m).drop 4 = m.1 :=
  List.drop_left' (length_intToBytesString _)

theorem length_frame (m : Message) : (frame m).length = 4 + m.1.length := by
  rw [frame, List.length_append, length_intToBytesString]

/-! ## The end of a message -/

theorem length_of_take {m : Message} {received : List Byte} (hlen : 4 ≤ received.length)
    (h : received <+: frame m ∨ frame m <+: received) :
    getInt (received.take 4) = m.1.length := by
  have htake : received.take 4 = (frame m).take 4 := by
    have hframe : 4 ≤ (frame m).length := by
      rw [length_frame]
      exact Nat.le_add_right 4 _
    rcases h with h | h
    · exact (List.prefix_iff_eq_take.mp ((List.take_prefix 4 received).trans h)).trans
        (by rw [List.length_take, Nat.min_eq_left hlen])
    · exact ((List.prefix_iff_eq_take.mp ((List.take_prefix 4 (frame m)).trans h)).trans
        (by rw [List.length_take, Nat.min_eq_left hframe])).symm
  rw [htake, take_frame, getInt_intToBytesString m.2]

/-- Before the end of the message there is nothing to give. -/
theorem judge_part {m : Message} {received : List Byte} (h : received <+: frame m)
    (hne : received.length < (frame m).length) :
    judge received = .ok (none, .after received) := by
  by_cases hlen : received.length < 4
  · rw [judge, if_pos hlen]
  · have hget := length_of_take (Nat.le_of_not_lt hlen) (.inl h)
    have hcontent : ((received.drop 4).length : Int) < m.1.length := by
      rw [length_frame] at hne
      rw [List.length_drop]
      omega
    rw [judge, if_neg hlen, hget, if_neg (Int.not_lt.mpr (Int.natCast_nonneg _)),
      Collector.after, if_neg hlen, hget, Collector.result]
    dsimp only
    rw [if_pos hcontent]

/-- At the end the message is given, and the collector is as new. -/
theorem judge_frame (m : Message) : judge (frame m) = .ok (some m.1, .initial) := by
  have hlen : ¬(frame m).length < 4 := by
    rw [length_frame]
    omega
  have hget : getInt ((frame m).take 4) = m.1.length :=
    length_of_take (Nat.le_of_not_lt hlen) (.inl (List.prefix_refl _))
  rw [judge, if_neg hlen, hget, if_neg (Int.not_lt.mpr (Int.natCast_nonneg _)),
    Collector.after, if_neg hlen, hget, drop_frame, Collector.result]
  dsimp only
  rw [if_neg (Int.lt_irrefl _), if_neg (Int.lt_irrefl _)]

/-- A chunk that goes on after the end is rejected. -/
theorem judge_beyond (m : Message) {extra : List Byte} (h : extra ≠ []) :
    judge (frame m ++ extra) = .error (.moreData extra.length) := by
  have hlen : ¬(frame m ++ extra).length < 4 := by
    rw [List.length_append, length_frame]
    omega
  have hget : getInt ((frame m ++ extra).take 4) = m.1.length :=
    length_of_take (Nat.le_of_not_lt hlen) (.inr (List.prefix_append _ _))
  have hpos : 0 < extra.length := List.length_pos_iff.mpr h
  have hdrop : (frame m ++ extra).drop 4 = m.1 ++ extra := by
    rw [List.drop_append_of_le_length, drop_frame]
    rw [length_frame]
    exact Nat.le_add_right 4 _
  rw [judge, if_neg hlen, hget, if_neg (Int.not_lt.mpr (Int.natCast_nonneg _)),
    Collector.after, if_neg hlen, hget, hdrop, Collector.result]
  dsimp only
  have hlength : ((m.1 ++ extra).length : Int) = m.1.length + extra.length := by
    rw [List.length_append, Int.natCast_add]
  have hextra : (m.1.length + extra.length : Int) - m.1.length = extra.length := by omega
  rw [hlength, if_neg (by omega), if_pos (by omega), hextra]

/-! ## The sender -/

/-- What is still to be sent: of the first message some bytes are gone. -/
structure Stream where
  messages : List Message
  sent : Nat
deriving DecidableEq, Repr

/-- The next chunk of a stream, and the message it completes.  No chunk goes past
    the end of a message. -/
inductive Sends : Stream → List Byte × Option (List Byte) → Stream → Prop where
  | part {m : Message} {ms : List Message} {sent : Nat} {chunk rest : List Byte} :
      (frame m).drop sent = chunk ++ rest → rest ≠ [] →
        Sends ⟨m :: ms, sent⟩ (chunk, none) ⟨m :: ms, sent + chunk.length⟩
  | last {m : Message} {ms : List Message} {sent : Nat} {chunk : List Byte} :
      (frame m).drop sent = chunk → Sends ⟨m :: ms, sent⟩ (chunk, some m.1) ⟨ms, 0⟩
  | nothing : Sends ⟨[], 0⟩ ([], none) ⟨[], 0⟩

/-- The collector at this place of the stream. -/
def Stream.collector (s : Stream) : Collector :=
  match s.messages with
  | [] => .initial
  | m :: _ => .after ((frame m).take s.sent)

/-- There is something left of the first message. -/
def Stream.Open (s : Stream) : Prop :=
  match s.messages with
  | [] => s.sent = 0
  | m :: _ => s.sent < (frame m).length

/-- The chunks one after another, with what the collector gives at each. -/
def Collector.feed (c : Collector) :
    List (List Byte) → Except Failure (List (Option (List Byte)) × Collector)
  | [] => .ok ([], c)
  | chunk :: chunks => do
      let (out, c) ← c.apply chunk
      let (outs, c) ← c.feed chunks
      return (out :: outs, c)

/-! ## Runs of the sender -/

/-- What is still to be sent. -/
def Stream.bytes (s : Stream) : List Byte := ((s.messages.map frame).flatten).drop s.sent

/-- Whatever comes next and does not reach past the end of the message may be sent. -/
theorem sends_of_prefix {m : Message} {ms : List Message} {sent : Nat} {chunk : List Byte}
    (h : chunk <+: (frame m).drop sent) : ∃ out s, Sends ⟨m :: ms, sent⟩ (chunk, out) s := by
  obtain ⟨rest, hrest⟩ := h
  by_cases hnil : rest = []
  · subst hnil
    rw [List.append_nil] at hrest
    exact ⟨_, _, .last hrest.symm⟩
  · exact ⟨_, _, .part hrest.symm hnil⟩

theorem sends_open {s s' : Stream} {op : List Byte × Option (List Byte)}
    (h : Sends s op s') : s'.Open := by
  cases h with
  | @part m ms sent chunk rest hsplit hne =>
      have hlen := congrArg List.length hsplit
      rw [List.length_drop, List.length_append] at hlen
      have hpos : 0 < rest.length := List.length_pos_iff.mpr hne
      show sent + chunk.length < (frame m).length
      omega
  | @last m ms sent chunk _ =>
      cases ms with
      | nil => rfl
      | cons m' ms =>
          show 0 < (frame m').length
          rw [length_frame]
          omega
  | nothing => rfl

theorem collector_start (ms : List Message) : Stream.collector ⟨ms, 0⟩ = .initial := by
  cases ms <;> rfl

/-- The header of what has been sent of a message. -/
theorem header_of_take {m : Message} {sent : Nat} (h : 4 ≤ ((frame m).take sent).length) :
    0 ≤ getInt (((frame m).take sent).take 4) := by
  rw [length_of_take h (.inl (List.take_prefix _ _))]
  exact Int.natCast_nonneg _

/-- One chunk. -/
theorem apply_sends {s s' : Stream} {op : List Byte × Option (List Byte)} (hopen : s.Open)
    (h : Sends s op s') : s.collector.apply op.1 = .ok (op.2, s'.collector) := by
  cases h with
  | @part m ms sent chunk rest hsplit hne =>
      have htake : (frame m).take sent ++ chunk = (frame m).take (sent + chunk.length) := by
        rw [List.take_add, hsplit, List.take_left]
      have hlt : ((frame m).take (sent + chunk.length)).length < (frame m).length := by
        have hlen := congrArg List.length hsplit
        have hpos : 0 < rest.length := List.length_pos_iff.mpr hne
        rw [List.length_drop, List.length_append] at hlen
        rw [List.length_take]
        omega
      show (Collector.after ((frame m).take sent)).apply chunk = _
      rw [apply_after chunk header_of_take, htake, judge_part (List.take_prefix _ _) hlt]
      rfl
  | @last m ms sent chunk hsplit =>
      show (Collector.after ((frame m).take sent)).apply chunk = _
      rw [apply_after chunk header_of_take, ← hsplit, List.take_append_drop, judge_frame,
        collector_start]
  | nothing => rfl

/-- All chunks. -/
theorem feed_run {s s' : Stream} {ops : List (List Byte × Option (List Byte))}
    (hopen : s.Open) (h : RunInvariant.Run Sends s ops s') :
    s.collector.feed (ops.map Prod.fst) = .ok (ops.map Prod.snd, s'.collector) := by
  induction h with
  | refl => rfl
  | head hstep _ ih =>
      rw [List.map_cons, Collector.feed, apply_sends hopen hstep]
      show (do
        let (outs, c) ← Collector.feed _ _
        return (_ :: outs, c)) = _
      rw [ih (sends_open hstep)]
      rfl

/-- What has come out and what is still to be sent. -/
theorem messages_run {s s' : Stream} {ops : List (List Byte × Option (List Byte))}
    (h : RunInvariant.Run Sends s ops s') :
    s.messages.map (·.1) = ops.filterMap Prod.snd ++ s'.messages.map (·.1) := by
  induction h with
  | refl => rfl
  | head hstep _ ih =>
      cases hstep with
      | part => exact ih
      | last => exact congrArg (List.cons _) ih
      | nothing => exact ih

theorem bytes_sends {s s' : Stream} {op : List Byte × Option (List Byte)} (hopen : s.Open)
    (h : Sends s op s') : s.bytes = op.1 ++ s'.bytes := by
  cases h with
  | @part m ms sent chunk rest hsplit hne =>
      have hle : sent ≤ (frame m).length := Nat.le_of_lt hopen
      have hlen := congrArg List.length hsplit
      rw [List.length_drop, List.length_append] at hlen
      show (frame m ++ _).drop sent = chunk ++ (frame m ++ _).drop (sent + chunk.length)
      rw [List.drop_append_of_le_length hle, List.drop_append_of_le_length (by omega), hsplit,
        ← List.drop_drop, hsplit, List.drop_left, List.append_assoc]
  | @last m ms sent chunk hsplit =>
      have hle : sent ≤ (frame m).length := Nat.le_of_lt hopen
      show (frame m ++ _).drop sent = chunk ++ _
      rw [List.drop_append_of_le_length hle, hsplit]
      rfl
  | nothing => rfl

/-- The chunks of a run are a cut of the bytes. -/
theorem bytes_run {s s' : Stream} {ops : List (List Byte × Option (List Byte))}
    (hopen : s.Open) (h : RunInvariant.Run Sends s ops s') :
    s.bytes = (ops.map Prod.fst).flatten ++ s'.bytes := by
  induction h with
  | refl => rfl
  | head hstep _ ih =>
      rw [bytes_sends hopen hstep, ih (sends_open hstep), List.map_cons, List.flatten_cons,
        List.append_assoc]

theorem open_start (ms : List Message) : Stream.Open ⟨ms, 0⟩ := by
  cases ms with
  | nil => rfl
  | cons m ms =>
      show 0 < (frame m).length
      rw [length_frame]
      omega

theorem open_run {s s' : Stream} {ops : List (List Byte × Option (List Byte))}
    (hopen : s.Open) (h : RunInvariant.Run Sends s ops s') : s'.Open :=
  h.invariant (fun _ _ _ _ hstep => sends_open hstep) hopen

/-- Any messages and any cut of their bytes: the collector gives each message at the
    chunk that completes it, is then as new, and rejects a chunk that goes past the
    end of a message. -/
theorem framing_independent_of_cuts (ms : List Message)
    (ops : List (List Byte × Option (List Byte))) (s : Stream)
    (hrun : RunInvariant.Run Sends ⟨ms, 0⟩ ops s) :
    Collector.initial.feed (ops.map Prod.fst) = .ok (ops.map Prod.snd, s.collector) ∧
      (ms.map frame).flatten = (ops.map Prod.fst).flatten ++ s.bytes ∧
      ms.map (·.1) = ops.filterMap Prod.snd ++ s.messages.map (·.1) ∧
      (∀ chunk m s', Sends s (chunk, some m) s' →
        s.collector.apply chunk = .ok (some m, .initial)) ∧
      ∀ m ms', s.messages = m :: ms' → ∀ extra, extra ≠ [] →
        s.collector.apply ((frame m).drop s.sent ++ extra) = .error (.moreData extra.length) := by
  have hopen := open_run (open_start ms) hrun
  refine ⟨?_, bytes_run (open_start ms) hrun, messages_run hrun, ?_, ?_⟩
  · rw [← collector_start ms]
    exact feed_run (open_start ms) hrun
  · intro chunk m s' hsends
    have happly := apply_sends hopen hsends
    cases hsends with
    | last =>
        rw [collector_start] at happly
        exact happly
  · rintro m ms' hms extra hextra
    obtain ⟨messages, sent⟩ := s
    cases hms
    show (Collector.after ((frame m).take sent)).apply _ = _
    rw [apply_after _ header_of_take, ← List.append_assoc, List.take_append_drop,
      judge_beyond m hextra]

/-- A message of two bytes in three chunks, and an empty one. -/
theorem framing_independent_of_cuts_twoMessages :
    ∃ outs c, Collector.initial.feed [[0, 0], [], [0, 2, 11], [22], [0, 0, 0, 0]] = .ok (outs, c) ∧
      outs = [none, none, none, some [11, 22], some []] := by
  have hrun : RunInvariant.Run Sends ⟨[⟨[11, 22], by decide⟩, ⟨[], by decide⟩], 0⟩
      [([0, 0], none), ([], none), ([0, 2, 11], none), ([22], some [11, 22]),
        ([0, 0, 0, 0], some [])] ⟨[], 0⟩ := by
    refine .head (@Sends.part _ _ _ _ [0, 2, 11, 22] rfl (by decide)) ?_
    refine .head (@Sends.part _ _ _ _ [0, 2, 11, 22] rfl (by decide)) ?_
    refine .head (@Sends.part _ _ _ _ [22] rfl (by decide)) ?_
    refine .head (.last rfl) ?_
    exact .head (.last rfl) (.refl _)
  exact ⟨_, _, (framing_independent_of_cuts _ _ _ hrun).1, rfl⟩

end LengthHeader
