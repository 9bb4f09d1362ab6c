import Mathlib.Data.Nat.Digits.Defs
import SchedulerEngine.HttpHeadersProofs

/-! # The framing of an HTTP response

    `Response::read` delivers the header, the chunks of the reader and the end
    through five counters and flags, in which the header is chunk 0. -/

namespace HttpResponse

open Http

def hexDigit (n : Nat) : UInt8 := if n < 10 then UInt8.ofNat (48 + n) else UInt8.ofNat (55 + n)

/-- `as_hex_string`: the format `%X`. -/
def asHexString (n : Nat) : Text :=
  if n = 0 then [48] else ((Nat.digits 16 n).map hexDigit).reverse

def asDecimal (n : Nat) : Text := (Nat.toDigits 10 n).map fun c => UInt8.ofNat c.toNat

/-! ## The header -/

def httpStatusMessage : Nat → Text
  | 200 => ascii "OK"
  | 301 => ascii "Moved Permanently"
  | 401 => ascii "Permission Denied"
  | 403 => ascii "Forbidden"
  | 404 => ascii "Bad Request"
  | 405 => ascii "Method Not Allowed"
  | 500 => ascii "Internal Server Error"
  | 501 => ascii "Not Implemented"
  | 504 => ascii "Gateway Timeout"
  | 505 => ascii "HTTP Version Not Supported"
  | _ => []

/-- A response with this status has a body. -/
def allowsBody (statusCode : Nat) : Bool :=
  !(100 ≤ statusCode && statusCode ≤ 199 || statusCode = 204 || statusCode = 304)

/-! ## The response and its reader -/

/-- A `Chunk_reader` with its state. -/
structure ChunkReader (ρ : Type) where
  contentType : Text
  nextChunkIsReady : ρ → Bool × ρ
  getNextChunkSize : ρ → Nat × ρ
  readFromChunk : ρ → Nat → Text × ρ

/-- `Response`; a `statusCode` of 0 is not set. -/
structure Response (ρ : Type) where
  protocol : Text
  headers : Headers
  chunked : Bool
  statusCode : Nat
  chunkReader : Option ρ
  finished : Bool
  headersStream : Text
  chunkIndex : Nat
  chunkSize : Nat
  chunkOffset : Nat
  chunkEof : Bool
  eof : Bool

/-- The date and the version in a header. -/
structure Server where
  date : Text
  version : Text

variable {ρ : Type}

def Response.finish (R : ChunkReader ρ) (server : Server) (r : Response ρ) : Response ρ :=
  if r.finished then r
  else
    let statusCode := if r.statusCode = 0 then 200 else r.statusCode
    let chunkReader := if allowsBody statusCode then r.chunkReader else none
    let headers :=
      if r.headers.contains (ascii "Date") then r.headers
      else r.headers.set (ascii "Date") server.date
    let headers :=
      if chunkReader.isSome then headers.setDefault (ascii "Content-Type") R.contentType
      else headers
    let headersStream :=
      r.protocol ++ ascii " " ++ asDecimal statusCode ++ ascii " " ++ httpStatusMessage statusCode
        ++ crlf ++ headers.print
        ++ (if r.chunked then ascii "Transfer-Encoding: chunked" ++ crlf else [])
        ++ ascii "Server: JobScheduler engine " ++ server.version ++ crlf ++ crlf
    { r with
      statusCode := statusCode
      chunkReader := chunkReader
      headers := headers
      headersStream := headersStream
      chunkSize := headersStream.length
      finished := true }

/-- `start_new_chunk`. -/
def Response.startNewChunk (R : ChunkReader ρ) (r : Response ρ) (reader : ρ) :
    Text × Response ρ :=
  match R.nextChunkIsReady reader with
  | (false, reader) => ([], { r with chunkReader := some reader })
  | (true, reader) =>
      let (size, reader) := R.getNextChunkSize reader
      let r := { r with
        chunkReader := some reader
        chunkIndex := r.chunkIndex + 1
        chunkOffset := 0
        chunkSize := size }
      let result := if r.chunked then asHexString size ++ crlf else []
      if 0 < size then (result, { r with chunkEof := false })
      else (result ++ (if r.chunked then crlf else []), { r with eof := true })

/-- `read`, the header. -/
def Response.readHeader (r : Response ρ) : Text × Response ρ :=
  if r.chunkIndex = 0 ∧ r.chunkOffset < r.chunkSize then
    (r.headersStream, { r with chunkOffset := r.chunkOffset + r.headersStream.length })
  else ([], r)

/-- `read`, where a chunk or the header is over. -/
def Response.readNext (R : ChunkReader ρ) (r : Response ρ) : Text × Response ρ :=
  if r.chunkOffset = r.chunkSize then
    match r.chunkReader with
    | some reader => r.startNewChunk R reader
    | none => (if r.chunked then ascii "0" ++ crlf ++ crlf else [], { r with eof := true })
  else ([], r)

/-- `read`, the data. -/
def Response.readData (R : ChunkReader ρ) (recommendedSize : Nat) (r : Response ρ) :
    Text × Response ρ :=
  if r.chunkOffset < r.chunkSize then
    match r.chunkReader with
    | some reader =>
        let (data, reader) :=
          R.readFromChunk reader (min recommendedSize (r.chunkSize - r.chunkOffset))
        (data, { r with chunkReader := some reader, chunkOffset := r.chunkOffset + data.length })
    | none => ([], r)
  else ([], r)

/-- `read`, the end of a chunk. -/
def Response.readEnd (r : Response ρ) : Text × Response ρ :=
  if r.chunkOffset = r.chunkSize ∧ r.chunkEof = false then
    (if r.chunked then crlf else [], { r with chunkEof := true })
  else ([], r)

def Response.read (R : ChunkReader ρ) (server : Server) (recommendedSize : Nat)
    (r : Response ρ) : Text × Response ρ :=
  let r := r.finish R server
  if r.eof then ([], r)
  else
    let (header, r) := r.readHeader
    let (next, r) := r.readNext R
    let (data, r) := r.readData R recommendedSize
    let (ending, r) := r.readEnd
    (header ++ next ++ data ++ ending, r)

/-- So many calls of `read`, with the recommended sizes one after another. -/
def Response.reads (R : ChunkReader ρ) (server : Server) :
    Nat → (Nat → Nat) → Response ρ → Text × Response ρ
  | 0, _, r => ([], r)
  | n + 1, sizes, r =>
      let (first, r) := r.read R server (sizes 0)
      let (rest, r) := r.reads R server n fun i => sizes (i + 1)
      (first ++ rest, r)

/-! ## What has to be read -/

/-- The reader is at the beginning of a chunk, or has some data of one left, and will
    deliver these chunks: it is ready some time, and gives some of the data with
    every call. -/
inductive Delivers (R : ChunkReader ρ) : ρ → Text → List Text → Prop where
  | wait {reader : ρ} {chunks : List Text} :
      (R.nextChunkIsReady reader).1 = false →
      Delivers R (R.nextChunkIsReady reader).2 [] chunks → Delivers R reader [] chunks
  | chunk {reader : ρ} {data : Text} {chunks : List Text} :
      (R.nextChunkIsReady reader).1 = true → data ≠ [] →
      (R.getNextChunkSize (R.nextChunkIsReady reader).2).1 = data.length →
      Delivers R (R.getNextChunkSize (R.nextChunkIsReady reader).2).2 data chunks →
      Delivers R reader [] (data :: chunks)
  | last {reader : ρ} :
      (R.nextChunkIsReady reader).1 = true →
      (R.getNextChunkSize (R.nextChunkIsReady reader).2).1 = 0 → Delivers R reader [] []
  | data {reader : ρ} {rest : Text} {chunks : List Text} :
      rest ≠ [] →
      (∀ n, 0 < n → (R.readFromChunk reader n).1 ≠ [] ∧ (R.readFromChunk reader n).1 <+: rest) →
      (∀ n, 0 < n → Delivers R (R.readFromChunk reader n).2
        (rest.drop (R.readFromChunk reader n).1.length) chunks) →
      Delivers R reader rest chunks

/-- A response that has not been read. -/
structure Response.Fresh (r : Response ρ) : Prop where
  finished : r.finished = false
  chunkIndex : r.chunkIndex = 0
  chunkOffset : r.chunkOffset = 0
  chunkEof : r.chunkEof = false
  eof : r.eof = false

/-- What follows the header. -/
def body (chunked : Bool) (chunks : List Text) : Text :=
  if chunked then
    (chunks.flatMap fun chunk => asHexString chunk.length ++ crlf ++ chunk ++ crlf)
      ++ ascii "0" ++ crlf ++ crlf
  else chunks.flatten

/-- The calls of `read` until `eof` give this. -/
def Ends (R : ChunkReader ρ) (server : Server) (sizes : Nat → Nat) (r : Response ρ)
    (output : Text) : Prop :=
  ∃ n, (r.reads R server n sizes).2.eof = true ∧
    (∀ m < n, (r.reads R server m sizes).2.eof = false) ∧ (r.reads R server n sizes).1 = output

/-! ## Calls of `read` -/

section Reads

variable {R : ChunkReader ρ} {server : Server} {sizes : Nat → Nat} {r : Response ρ}
  {output output' : Text}

theorem ends_eof (h : r.eof = true) : Ends R server sizes r [] :=
  ⟨0, h, fun _ hm => absurd hm (Nat.not_lt_zero _), rfl⟩

/-- One call more. -/
theorem ends_read (sizes : Nat → Nat) (h : r.eof = false)
    (hrest : Ends R server (fun i => sizes (i + 1)) (r.read R server (sizes 0)).2 output) :
    Ends R server sizes r ((r.read R server (sizes 0)).1 ++ output) := by
  obtain ⟨n, heof, hbefore, houtput⟩ := hrest
  refine ⟨n + 1, heof, ?_, congrArg _ houtput⟩
  intro m hm
  cases m with
  | zero => exact h
  | succ m => exact hbefore m (Nat.lt_of_succ_lt_succ hm)

/-- A call does the same in both responses, and gives more in the first. -/
theorem ends_prefix {r' : Response ρ} {more : Text} (h : r.eof = false) (h' : r'.eof = false)
    (hread : ∀ size, 0 < size →
      r'.read R server size = (more ++ (r.read R server size).1, (r.read R server size).2))
    (hpos : 0 < sizes 0) (hends : Ends R server sizes r output) :
    Ends R server sizes r' (more ++ output) := by
  obtain ⟨n, heof, hbefore, houtput⟩ := hends
  cases n with
  | zero =>
      rw [Response.reads, h] at heof
      cases heof
  | succ n =>
      refine ⟨n + 1, ?_, ?_, ?_⟩
      · simp only [Response.reads, hread _ hpos] at heof ⊢
        exact heof
      · intro m hm
        cases m with
        | zero => exact h'
        | succ m =>
            have hm := hbefore (m + 1) hm
            simp only [Response.reads, hread _ hpos] at hm ⊢
            exact hm
      · rw [← houtput]
        simp only [Response.reads, hread _ hpos, List.append_assoc]

/-- What is read until `eof` is determined. -/
theorem ends_unique (h : Ends R server sizes r output) (h' : Ends R server sizes r output') :
    output = output' := by
  obtain ⟨n, heof, hbefore, rfl⟩ := h
  obtain ⟨n', heof', hbefore', rfl⟩ := h'
  rcases Nat.lt_trichotomy n n' with hlt | rfl | hgt
  · rw [hbefore' n hlt] at heof
    cases heof
  · rfl
  · rw [hbefore n' hgt] at heof'
    cases heof'

end Reads

/-! ## The places of a response -/

variable {R : ChunkReader ρ} {server : Server} {r : Response ρ} {reader : ρ} {size : Nat}

/-- Behind the header or a chunk. -/
structure AtBoundary (r : Response ρ) (reader : ρ) : Prop where
  finished : r.finished = true
  eof : r.eof = false
  chunkOffset : r.chunkOffset = r.chunkSize
  chunkReader : r.chunkReader = some reader

/-- In a chunk of which some data is left. -/
structure InChunk (r : Response ρ) (reader : ρ) (rest : Text) : Prop where
  finished : r.finished = true
  eof : r.eof = false
  chunkIndex : r.chunkIndex ≠ 0
  chunkOffset : r.chunkOffset + rest.length = r.chunkSize
  chunkEof : r.chunkEof = false
  chunkReader : r.chunkReader = some reader

theorem read_eq (hfinished : r.finished = true) (heof : r.eof = false) (hheader : r.readHeader = ([], r)) :
    r.read R server size =
      ((r.readNext R).1 ++ ((r.readNext R).2.readData R size).1 ++
          ((r.readNext R).2.readData R size).2.readEnd.1,
        ((r.readNext R).2.readData R size).2.readEnd.2) := by
  have hfinish : r.finish R server = r := if_pos hfinished
  simp only [Response.read, hfinish, heof, hheader, Bool.false_eq_true, if_false, List.nil_append]

theorem AtBoundary.readHeader (h : AtBoundary r reader) : r.readHeader = ([], r) := by
  refine if_neg fun hlt => ?_
  rw [h.chunkOffset] at hlt
  exact Nat.lt_irrefl _ hlt.2

theorem AtBoundary.readNext (h : AtBoundary r reader) :
    r.readNext R = r.startNewChunk R reader := by
  rw [Response.readNext, if_pos h.chunkOffset, h.chunkReader]

/-- The reader is not ready: nothing is read, but the end of what was before. -/
theorem read_wait (server : Server) (size : Nat) (h : AtBoundary r reader) (hready : (R.nextChunkIsReady reader).1 = false) :
    r.read R server size =
      (if r.chunkEof = false ∧ r.chunked then crlf else [],
        { r with chunkReader := some (R.nextChunkIsReady reader).2, chunkEof := true }) := by
  have hstart : r.startNewChunk R reader
      = ([], { r with chunkReader := some (R.nextChunkIsReady reader).2 }) := by
    rw [Response.startNewChunk]
    split
    · rename_i reader' heq
      rw [heq]
    · rename_i reader' heq
      rw [heq] at hready
      cases hready
  rw [read_eq h.finished h.eof h.readHeader, h.readNext, hstart]
  have hdata : Response.readData R size { r with chunkReader := some (R.nextChunkIsReady reader).2 }
      = ([], { r with chunkReader := some (R.nextChunkIsReady reader).2 }) :=
    if_neg (by rw [h.chunkOffset]; exact Nat.lt_irrefl _)
  rw [hdata, Response.readEnd]
  cases hend : r.chunkEof with
  | true =>
      cases r
      cases hend
      simp
  | false => simp [h.chunkOffset]

theorem InChunk.readHeader {rest : Text} (h : InChunk r reader rest) : r.readHeader = ([], r) :=
  if_neg fun hlt => h.chunkIndex hlt.1

/-- The response at the beginning of a chunk. -/
def Response.inNextChunk (r : Response ρ) (reader : ρ) (size : Nat) : Response ρ :=
  { r with
    chunkReader := some reader
    chunkIndex := r.chunkIndex + 1
    chunkOffset := 0
    chunkSize := size
    chunkEof := false }

theorem AtBoundary.inNextChunk (h : AtBoundary r reader) (next : ρ) (data : Text) :
    InChunk (r.inNextChunk next data.length) next data :=
  ⟨h.finished, h.eof, Nat.succ_ne_zero _, Nat.zero_add _, rfl, rfl⟩

/-- A chunk begins: its size, and what would be read in it. -/
theorem read_chunk (h : AtBoundary r reader) (hready : (R.nextChunkIsReady reader).1 = true)
    {data : Text} (hdata : data ≠ [])
    (hsize : (R.getNextChunkSize (R.nextChunkIsReady reader).2).1 = data.length) (next : ρ)
    (hnext : (R.getNextChunkSize (R.nextChunkIsReady reader).2).2 = next) :
    r.read R server size =
      ((if r.chunked then asHexString data.length ++ crlf else [])
          ++ ((r.inNextChunk next data.length).read R server size).1,
        ((r.inNextChunk next data.length).read R server size).2) := by
  have hpos : 0 < data.length := List.length_pos_iff.mpr hdata
  have hin := h.inNextChunk next data
  have hstart : r.startNewChunk R reader
      = (if r.chunked then asHexString data.length ++ crlf else [],
          r.inNextChunk next data.length) := by
    rw [Response.startNewChunk]
    split
    · rename_i reader' heq
      rw [heq] at hready
      cases hready
    · rename_i reader' heq
      rw [heq] at hsize hnext
      dsimp only at hsize hnext ⊢
      rw [hsize, hnext, if_pos hpos]
      rfl
  have hsame : (r.inNextChunk next data.length).readNext R
      = ([], r.inNextChunk next data.length) :=
    if_neg (Nat.ne_of_lt hpos)
  rw [read_eq h.finished h.eof h.readHeader, h.readNext, hstart,
    read_eq hin.finished hin.eof hin.readHeader, hsame]
  simp only [List.nil_append, List.append_assoc]

/-- The end of the response. -/
theorem read_last (server : Server) (size : Nat) (h : AtBoundary r reader) (hready : (R.nextChunkIsReady reader).1 = true)
    (hsize : (R.getNextChunkSize (R.nextChunkIsReady reader).2).1 = 0) :
    (r.read R server size).1 = body r.chunked [] ++ (if r.chunkEof = false ∧ r.chunked then crlf else []) ∧
      (r.read R server size).2.eof = true := by
  have hstart : r.startNewChunk R reader = (body r.chunked [],
      { r with
        chunkReader := some (R.getNextChunkSize (R.nextChunkIsReady reader).2).2
        chunkIndex := r.chunkIndex + 1
        chunkOffset := 0
        chunkSize := 0
        eof := true }) := by
    rw [Response.startNewChunk]
    split
    · rename_i reader' heq
      rw [heq] at hready
      cases hready
    · rename_i reader' heq
      rw [heq] at hsize ⊢
      dsimp only at hsize ⊢
      rw [hsize, if_neg (Nat.lt_irrefl 0)]
      cases hchunked : r.chunked <;> rfl
  rw [read_eq h.finished h.eof h.readHeader, h.readNext, hstart, Response.readData,
    if_neg (Nat.lt_irrefl 0), Response.readEnd]
  cases hend : r.chunkEof <;> cases hchunked : r.chunked <;> simp

/-- A piece of a chunk, with the end of the chunk behind the last one. -/
theorem read_data (server : Server) (size : Nat) {rest : Text} (h : InChunk r reader rest) (hrest : rest ≠ []) :
    ∃ n, (0 < size → 0 < n) ∧ r.read R server size =
      ((R.readFromChunk reader n).1
          ++ (if rest.length = (R.readFromChunk reader n).1.length ∧ r.chunked then crlf else []),
        { r with
          chunkReader := some (R.readFromChunk reader n).2
          chunkOffset := r.chunkOffset + (R.readFromChunk reader n).1.length
          chunkEof := decide (rest.length = (R.readFromChunk reader n).1.length) }) := by
  have hpos : 0 < rest.length := List.length_pos_iff.mpr hrest
  have hoffset := h.chunkOffset
  have hsame : r.readNext R = ([], r) := if_neg (by omega)
  have hlt : r.chunkOffset < r.chunkSize := by omega
  refine ⟨min size (r.chunkSize - r.chunkOffset), fun hsize => ?_, ?_⟩
  · exact Nat.lt_min.mpr ⟨hsize, Nat.sub_pos_of_lt hlt⟩
  · have hread : r.readData R size =
        ((R.readFromChunk reader (min size (r.chunkSize - r.chunkOffset))).1,
          { r with
            chunkReader :=
              some (R.readFromChunk reader (min size (r.chunkSize - r.chunkOffset))).2
            chunkOffset := r.chunkOffset
              + (R.readFromChunk reader (min size (r.chunkSize - r.chunkOffset))).1.length }) := by
      rw [Response.readData, if_pos hlt, h.chunkReader]
    rw [read_eq h.finished h.eof h.readHeader, hsame, hread]
    generalize R.readFromChunk reader (min size (r.chunkSize - r.chunkOffset)) = piece
    by_cases hall : rest.length = piece.1.length
    · have hend : r.chunkOffset + piece.1.length = r.chunkSize := by rw [← hall, hoffset]
      rw [Response.readEnd, if_pos ⟨hend, h.chunkEof⟩]
      simp [hall]
    · have hend : r.chunkOffset + piece.1.length ≠ r.chunkSize := by omega
      rw [Response.readEnd, if_neg fun hboth => hend hboth.1]
      simp [hall, h.chunkEof]

/-! ## The whole response -/

theorem body_cons (chunked : Bool) (data : Text) (chunks : List Text) :
    body chunked (data :: chunks)
      = (if chunked then asHexString data.length ++ crlf else [])
        ++ (data ++ (if chunked then crlf else []) ++ body chunked chunks) := by
  cases chunked with
  | true =>
      simp only [body, if_true, List.flatMap_cons, List.append_assoc]
  | false => simp [body]

/-- From the place of the reader the rest of the chunk and the other chunks are read,
    and the end. -/
theorem ends_of_delivers (server : Server) {rest : Text} {chunks : List Text} (h : Delivers R reader rest chunks) :
    ∀ (r : Response ρ) (sizes : Nat → Nat), (∀ i, 0 < sizes i) →
      (rest = [] → AtBoundary r reader → r.chunkEof = true →
        Ends R server sizes r (body r.chunked chunks)) ∧
      (rest ≠ [] → InChunk r reader rest →
        Ends R server sizes r
          (rest ++ (if r.chunked then crlf else []) ++ body r.chunked chunks)) := by
  induction h with
  | @wait reader chunks hready _ ih =>
      intro r sizes hpos
      refine ⟨fun _ hr hend => ?_, fun hne => absurd rfl hne⟩
      have hread := read_wait server (sizes 0) hr hready
      rw [hend, if_neg (by simp)] at hread
      have hrest := (ih { r with
          chunkReader := some (R.nextChunkIsReady reader).2, chunkEof := true }
        (fun i => sizes (i + 1)) fun i => hpos (i + 1)).1 rfl
        ⟨hr.finished, hr.eof, hr.chunkOffset, rfl⟩ rfl
      have hall := ends_read sizes hr.eof (by rw [hread]; exact hrest)
      rwa [hread] at hall
  | @chunk reader data chunks hready hdata hsize _ ih =>
      intro r sizes hpos
      refine ⟨fun _ hr hend => ?_, fun hne => absurd rfl hne⟩
      have hin := hr.inNextChunk (R.getNextChunkSize (R.nextChunkIsReady reader).2).2 data
      have hrest := (ih _ sizes hpos).2 hdata hin
      rw [body_cons]
      exact ends_prefix hin.eof hr.eof (fun size _ => read_chunk hr hready hdata hsize _ rfl)
        (hpos 0) hrest
  | @last reader hready hsize =>
      intro r sizes _
      refine ⟨fun _ hr hend => ?_, fun hne => absurd rfl hne⟩
      obtain ⟨houtput, heof⟩ := read_last server (sizes 0) hr hready hsize
      rw [hend, if_neg (by simp), List.append_nil] at houtput
      have hall := ends_read sizes hr.eof (ends_eof heof)
      rwa [houtput, List.append_nil] at hall
  | @data reader rest chunks hrest hpiece _ ih =>
      intro r sizes hpos
      refine ⟨fun hnil => absurd hnil hrest, fun _ hr => ?_⟩
      obtain ⟨n, hn, hread⟩ := read_data server (sizes 0) hr hrest
      obtain ⟨hne, left, hleft⟩ := hpiece n (hn (hpos 0))
      replace ih := ih n (hn (hpos 0)) { r with
          chunkReader := some (R.readFromChunk reader n).2
          chunkOffset := r.chunkOffset + (R.readFromChunk reader n).1.length
          chunkEof := decide (rest.length = (R.readFromChunk reader n).1.length) }
        (fun i => sizes (i + 1)) fun i => hpos (i + 1)
      generalize R.readFromChunk reader n = piece at hread hleft ih
      subst hleft
      rw [List.drop_left, List.length_append] at ih
      rw [List.length_append] at hread
      have hoffset := hr.chunkOffset
      rw [List.length_append] at hoffset
      by_cases hall : left = []
      · -- the chunk is over
        subst hall
        have hnext := ih.1 rfl ⟨hr.finished, hr.eof, hoffset, rfl⟩ (decide_eq_true rfl)
        have hends := ends_read sizes hr.eof (by rw [hread]; exact hnext)
        rw [hread] at hends
        simpa only [List.length_nil, Nat.add_zero, true_and, List.append_nil] using hends
      · have hleft : 0 < left.length := List.length_pos_iff.mpr hall
        have hgoes : ¬piece.1.length + left.length = piece.1.length := by omega
        have hnext := ih.2 hall ⟨hr.finished, hr.eof, hr.chunkIndex, by dsimp only; omega,
          decide_eq_false hgoes, rfl⟩
        have hends := ends_read sizes hr.eof (by rw [hread]; exact hnext)
        rw [hread] at hends
        simpa only [hgoes, false_and, if_false, List.append_nil, List.append_assoc] using hends

/-- Right behind the header no chunk has ended, and the end of one is written too
    many: before the first chunk if the reader is not ready, or behind the end. -/
theorem ends_behindHeader (server : Server) {chunks : List Text} (hr : AtBoundary r reader)
    (hend : r.chunkEof = false) (h : Delivers R reader [] chunks) {sizes : Nat → Nat}
    (hpos : ∀ i, 0 < sizes i) :
    Ends R server sizes r
      ((if r.chunked ∧ (R.nextChunkIsReady reader).1 = false then crlf else [])
        ++ body r.chunked chunks
        ++ (if r.chunked ∧ (R.nextChunkIsReady reader).1 = true ∧ chunks = [] then crlf else [])) := by
  cases h with
  | wait hready hrest =>
      have hread := read_wait server (sizes 0) hr hready
      have hnext := (ends_of_delivers server hrest
        { r with chunkReader := some (R.nextChunkIsReady reader).2, chunkEof := true }
        (fun i => sizes (i + 1)) fun i => hpos (i + 1)).1 rfl
        ⟨hr.finished, hr.eof, hr.chunkOffset, rfl⟩ rfl
      have hends := ends_read sizes hr.eof (by rw [hread]; exact hnext)
      rw [hread] at hends
      simpa [hready, hend] using hends
  | @chunk _ data chunks hready hdata hsize hrest =>
      have hin := hr.inNextChunk (R.getNextChunkSize (R.nextChunkIsReady reader).2).2 data
      have hnext : Ends R server sizes
          (r.inNextChunk (R.getNextChunkSize (R.nextChunkIsReady reader).2).2 data.length)
          (data ++ (if r.chunked then crlf else []) ++ body r.chunked chunks) :=
        (ends_of_delivers server hrest _ sizes hpos).2 hdata hin
      have hends := ends_prefix hin.eof hr.eof
        (fun size _ => read_chunk hr hready hdata hsize _ rfl) (hpos 0) hnext
      rw [body_cons]
      simpa [hready] using hends
  | last hready hsize =>
      obtain ⟨houtput, heof⟩ := read_last server (sizes 0) hr hready hsize
      have hends := ends_read sizes hr.eof (ends_eof heof)
      rw [houtput] at hends
      simpa [hready, hend] using hends
  | data hne => exact absurd rfl hne

/-- Without a reader there is only the end, and the end of a chunk. -/
theorem ends_noReader (hfinished : r.finished = true) (heof : r.eof = false)
    (hoffset : r.chunkOffset = r.chunkSize) (hreader : r.chunkReader = none)
    (hend : r.chunkEof = false) {sizes : Nat → Nat} :
    Ends R server sizes r (body r.chunked [] ++ (if r.chunked then crlf else [])) := by
  have hheader : r.readHeader = ([], r) := by
    refine if_neg fun hlt => ?_
    rw [hoffset] at hlt
    exact Nat.lt_irrefl _ hlt.2
  have hnext : r.readNext R = (body r.chunked [], { r with eof := true }) := by
    rw [Response.readNext, if_pos hoffset, hreader]
    cases hchunked : r.chunked <;> rfl
  have hdata : Response.readData R (sizes 0) { r with eof := true } = ([], { r with eof := true }) :=
    if_neg (by rw [hoffset]; exact Nat.lt_irrefl _)
  have hread : r.read R server (sizes 0)
      = (body r.chunked [] ++ (if r.chunked then crlf else []),
          { r with eof := true, chunkEof := true }) := by
    rw [read_eq hfinished heof hheader, hnext, hdata, Response.readEnd, if_pos ⟨hoffset, hend⟩,
      List.append_nil]
  have hends : Ends R server sizes r _ := ends_read sizes heof
    (by rw [hread]; exact ends_eof rfl)
  rwa [hread, List.append_nil] at hends

/-! ## The first call -/

/-- The response with its header read. -/
def Response.behindHeader (R : ChunkReader ρ) (server : Server) (r : Response ρ) : Response ρ :=
  { r.finish R server with
    chunkOffset := (r.finish R server).chunkSize }

/-- What `finish` leaves of a response that has a body. -/
theorem finish_spec (R : ChunkReader ρ) (server : Server) (h : r.Fresh) (hbody : r.statusCode = 0 ∨ allowsBody r.statusCode = true) :
    (r.finish R server).finished = true ∧ (r.finish R server).chunkIndex = 0 ∧
      (r.finish R server).chunkOffset = 0 ∧ (r.finish R server).chunkEof = false ∧
      (r.finish R server).eof = false ∧ (r.finish R server).chunked = r.chunked ∧
      (r.finish R server).chunkReader = r.chunkReader ∧
      (r.finish R server).chunkSize = (r.finish R server).headersStream.length ∧
      0 < (r.finish R server).headersStream.length := by
  have hallows : allowsBody (if r.statusCode = 0 then 200 else r.statusCode) = true := by
    rcases hbody with hzero | hallows
    · rw [if_pos hzero]
      rfl
    · split
      · rfl
      · exact hallows
  have hnot : ¬r.finished = true := Bool.eq_false_iff.mp h.finished
  simp only [Response.finish, if_neg hnot, if_pos hallows]
  refine ⟨trivial, h.chunkIndex, h.chunkOffset, h.chunkEof, h.eof, trivial, trivial, trivial, ?_⟩
  simp only [List.length_append, crlf, List.length_cons]
  omega

/-- The first call gives the header, and what would be read behind it. -/
theorem read_first (h : r.Fresh) (hbody : r.statusCode = 0 ∨ allowsBody r.statusCode = true) :
    r.read R server size =
      ((r.finish R server).headersStream ++ ((r.behindHeader R server).read R server size).1,
        ((r.behindHeader R server).read R server size).2) := by
  obtain ⟨hfinished, hindex, hoffset, -, heof, -, -, hsize, hpos⟩ :=
    finish_spec R server h hbody
  have hheader : (r.finish R server).readHeader
      = ((r.finish R server).headersStream, r.behindHeader R server) := by
    rw [Response.readHeader, if_pos ⟨hindex, by rw [hoffset, hsize]; exact hpos⟩]
    simp only [Response.behindHeader, hoffset, hsize, Nat.zero_add]
  have hbehind : (r.behindHeader R server).readHeader = ([], r.behindHeader R server) :=
    if_neg fun hlt => Nat.lt_irrefl _ hlt.2
  have hfinished' : (r.behindHeader R server).finished = true := hfinished
  have heof' : (r.behindHeader R server).eof = false := heof
  rw [read_eq hfinished' heof' hbehind]
  simp only [Response.read, heof, hheader, Bool.false_eq_true, if_false, List.append_assoc]

/-! ## The reader of a string -/

/-- `String_chunk_reader`: the text, and what has been read of it. -/
def stringChunkReader (contentType : Text) : ChunkReader (Text × Nat) where
  contentType := contentType
  nextChunkIsReady reader := (true, reader)
  getNextChunkSize reader := (reader.1.length, reader)
  readFromChunk reader recommendedSize :=
    let length := min recommendedSize (reader.1.length - reader.2)
    ((reader.1.drop reader.2).take length,
      if reader.2 + length = reader.1.length then ([], 0) else (reader.1, reader.2 + length))

/-- What is left of the string is delivered, and then the end. -/
theorem stringChunkReader_rest (contentType text : Text) (n : Nat) :
    ∀ offset, text.length = offset + n → 0 < n →
      Delivers (stringChunkReader contentType) (text, offset) (text.drop offset) [] := by
  induction n using Nat.strongRecOn with
  | ind n ih =>
      intro offset hlength hpos
      have hrest : (text.drop offset).length = n := by
        rw [List.length_drop]
        omega
      refine .data ?_ ?_ ?_
      · exact List.length_pos_iff.mp (by rw [hrest]; exact hpos)
      · intro m hm
        refine ⟨List.length_pos_iff.mp ?_, List.take_prefix _ _⟩
        simp only [stringChunkReader, List.length_take, hrest]
        omega
      · intro m hm
        have hmin : min m (text.length - offset) = min m n := by rw [hlength]; omega
        have hpiece : ((text.drop offset).take (min m n)).length = min m n := by
          rw [List.length_take, hrest]
          omega
        simp only [stringChunkReader, hmin, hpiece, List.drop_drop]
        by_cases hall : offset + min m n = text.length
        · -- the text is cleared
          rw [if_pos hall, hall, List.drop_length]
          exact .last rfl rfl
        · rw [if_neg hall]
          exact ih (n - min m n) (by omega) (offset + min m n) (by omega) (by omega)

theorem stringChunkReader_delivers (contentType text : Text) :
    Delivers (stringChunkReader contentType) (text, 0) [] (if text = [] then [] else [text]) := by
  split
  · rename_i hempty
    rw [hempty]
    exact .last rfl rfl
  · rename_i hne
    have hpos : 0 < text.length := List.length_pos_iff.mpr hne
    exact .chunk rfl hne rfl
      (stringChunkReader_rest contentType text text.length 0 (Nat.zero_add _).symm hpos)

/-! ## The framing -/

/-- The reader, if there is one, delivers these chunks. -/
def Response.Sends (R : ChunkReader ρ) (r : Response ρ) (chunks : List Text) : Prop :=
  match r.chunkReader with
  | none => chunks = []
  | some reader => Delivers R reader [] chunks

/-- The response begins with a chunk, and at once, or it is not chunked. -/
def Response.BeginsAtOnce (R : ChunkReader ρ) (r : Response ρ) (chunks : List Text) : Prop :=
  r.chunked = true → chunks ≠ [] ∧ ∀ reader, r.chunkReader = some reader →
    (R.nextChunkIsReady reader).1 = true

/-- What is read of a response: at most one end of a chunk is too many. -/
theorem ends_response (server : Server) (h : r.Fresh) (hbody : r.statusCode = 0 ∨ allowsBody r.statusCode = true)
    {chunks : List Text} (hsends : r.Sends R chunks) {sizes : Nat → Nat} (hpos : ∀ i, 0 < sizes i) :
    ∃ before after, Ends R server sizes r
        ((r.finish R server).headersStream ++ (before ++ body r.chunked chunks ++ after)) ∧
      (r.BeginsAtOnce R chunks → before = [] ∧ after = []) ∧
      (¬r.BeginsAtOnce R chunks → before.length + after.length = 2) := by
  obtain ⟨hfinished, -, -, hend, heof, hchunked, hreader, -, -⟩ :=
    finish_spec R server h hbody
  have hfirst {output : Text} (hends : Ends R server sizes (r.behindHeader R server) output) :
      Ends R server sizes r ((r.finish R server).headersStream ++ output) := by
    have heof' : (r.behindHeader R server).eof = false := heof
    exact ends_prefix heof' h.eof (fun size _ => read_first h hbody) (hpos 0) hends
  cases hcase : r.chunkReader with
  | none =>
      rw [Response.Sends, hcase] at hsends
      subst hsends
      have hends : Ends R server sizes (r.behindHeader R server) _ :=
        @ends_noReader _ R server (r.behindHeader R server) hfinished heof rfl
          (hreader.trans hcase) hend sizes
      refine ⟨[], if r.chunked then crlf else [], hfirst ?_, ?_, ?_⟩
      · rw [← hchunked]
        exact hends
      · intro hbegins
        refine ⟨rfl, if_neg fun hon => (hbegins hon).1 rfl⟩
      · intro hbegins
        rw [if_pos]
        · rfl
        · by_contra hoff
          exact hbegins fun hon => absurd hon hoff
  | some reader =>
      rw [Response.Sends, hcase] at hsends
      have hboundary : AtBoundary (r.behindHeader R server) reader :=
        ⟨hfinished, heof, rfl, hreader.trans hcase⟩
      have hends := ends_behindHeader server hboundary hend hsends hpos
      rw [show (r.behindHeader R server).chunked = r.chunked from hchunked] at hends
      refine ⟨_, _, hfirst hends, ?_, ?_⟩
      · intro hbegins
        constructor
        · refine if_neg fun hboth => ?_
          rw [(hbegins hboth.1).2 reader hcase] at hboth
          cases hboth.2
        · exact if_neg fun hall => (hbegins hall.1).1 hall.2.2
      · intro hbegins
        have hon : r.chunked = true := by
          by_contra hoff
          exact hbegins fun hon => absurd hon hoff
        cases hready : (R.nextChunkIsReady reader).1 with
        | false => simp [hon, crlf]
        | true =>
            have hnil : chunks = [] := by
              by_contra hne
              refine hbegins fun _ => ⟨hne, fun reader' hr => ?_⟩
              rw [hcase] at hr
              cases hr
              exact hready
            simp [hon, hnil, crlf]

/-- An HTTP/1.1 response with an empty text. -/
def emptyText : Response (Text × Nat) where
  protocol := ascii "HTTP/1.1"
  headers := []
  chunked := true
  statusCode := 200
  chunkReader := some ([], 0)
  finished := false
  headersStream := []
  chunkIndex := 0
  chunkSize := 0
  chunkOffset := 0
  chunkEof := false
  eof := false

theorem not_framed_emptyText :
    ¬∀ (ρ : Type) (R : ChunkReader ρ) (server : Server) (r : Response ρ) (chunks : List Text)
      (sizes : Nat → Nat), r.Fresh → r.statusCode = 0 ∨ allowsBody r.statusCode = true →
      r.Sends R chunks → (∀ i, 0 < sizes i) →
      Ends R server sizes r ((r.finish R server).headersStream ++ body r.chunked chunks) := by
  intro hall
  have hfresh : emptyText.Fresh := ⟨rfl, rfl, rfl, rfl, rfl⟩
  have hsends : emptyText.Sends (stringChunkReader []) [] := stringChunkReader_delivers [] []
  have hends := hall _ (stringChunkReader []) ⟨[], []⟩ emptyText [] (fun _ => 1) hfresh
    (.inr rfl) hsends fun _ => Nat.one_pos
  obtain ⟨before, after, hreal, -, hextra⟩ := ends_response ⟨[], []⟩ hfresh (.inr rfl)
    hsends fun _ => Nat.one_pos
  have hlength := hextra fun hbegins => (hbegins rfl).1 rfl
  have heq := congrArg List.length (ends_unique hends hreal)
  simp only [List.length_append] at heq
  omega

/-- A response is framed as it has to be if and only if it is not chunked, or begins
    with a chunk for which the reader is ready at once. -/
theorem framed_iff_beginsAtOnce (R : ChunkReader ρ) (server : Server) (r : Response ρ)
    (chunks : List Text) (sizes : Nat → Nat) (h : r.Fresh)
    (hbody : r.statusCode = 0 ∨ allowsBody r.statusCode = true) (hsends : r.Sends R chunks)
    (hpos : ∀ i, 0 < sizes i) :
    Ends R server sizes r ((r.finish R server).headersStream ++ body r.chunked chunks) ↔
      r.BeginsAtOnce R chunks := by
  obtain ⟨before, after, hreal, hexact, hextra⟩ := ends_response server h hbody hsends hpos
  constructor
  · intro hends
    by_contra hbegins
    have hlength := hextra hbegins
    have heq := congrArg List.length (ends_unique hends hreal)
    simp only [List.length_append] at heq
    omega
  · intro hbegins
    obtain ⟨rfl, rfl⟩ := hexact hbegins
    rwa [List.nil_append, List.append_nil] at hreal

/-- A text of one byte. -/
def oneByte : Response (Text × Nat) := { emptyText with chunkReader := some ([65], 0) }

theorem framed_iff_beginsAtOnce_oneByte :
    Ends (stringChunkReader []) ⟨[], []⟩ (fun _ => 1) oneByte
      ((oneByte.finish (stringChunkReader []) ⟨[], []⟩).headersStream ++ body true [[65]]) := by
  have hsends : oneByte.Sends (stringChunkReader []) [[65]] := stringChunkReader_delivers [] [65]
  exact (framed_iff_beginsAtOnce _ _ oneByte [[65]] _ ⟨rfl, rfl, rfl, rfl, rfl⟩ (.inr rfl) hsends
    fun _ => Nat.one_pos).mpr fun _ => ⟨nofun, fun _ _ => rfl⟩

end HttpResponse
