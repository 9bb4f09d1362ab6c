import SchedulerEngine.RunInvariantProofs
import Mathlib.Data.List.Nodup
import Mathlib.Logic.Function.Basic

/-! # The blacklist and the file order sources

    An order that ends while its file is still there is put on the blacklist of its
    job chain, so that the file does not give another order.  The order leaves the
    chain when a directory is read that does not contain the file, or when the agent
    answers that the file does not exist.

    A reading looks at the whole blacklist, not only at the orders of its own
    directory, and an answer of an agent may be about an earlier time than the one
    at which the order was put on the blacklist. -/

set_option linter.unusedSectionVars false

namespace BlacklistedFiles

open RunInvariant

variable {ι : Type} [DecidableEq ι]

/-! ## Data -/

/-- A file of an agent, or of the scheduler's own computer if the host is empty. -/
structure File where
  host : String
  path : String
deriving DecidableEq

/-- An order in the `_order_map` of the job chain. -/
structure Order where
  /-- Which object it is: an id may be used again. -/
  number : Nat
  id : String
  /-- `file_path()`. -/
  filePath : String
  /-- `file_agent_address()`. -/
  fileAgentAddress : String
  suspended : Bool
  hasTask : Bool
  isOnBlacklist : Bool
  /-- Its stay on the blacklist: a new number each time it is put there.  The code
      does not know it. -/
  stay : Nat
  /-- Its file did not exist at some time of this stay.  The code does not know it. -/
  gone : Bool
deriving DecidableEq

namespace Order

def isFileOrder (o : Order) : Bool := o.filePath ≠ ""

def isAgentFileOrder (o : Order) : Bool := o.isFileOrder && o.fileAgentAddress ≠ ""

def file (o : Order) : File := ⟨o.fileAgentAddress, o.filePath⟩

/-- Which order, and which of its stays on the blacklist. -/
def key (o : Order) : Nat × Nat := (o.number, o.stay)

end Order

/-- `readFiles`, as the agent has received it. -/
structure Request where
  host : String
  knownFiles : List String
  /-- The stays of the orders of this source whose files were gone when the request
      was made, and have not come back.  The code does not know it. -/
  due : List (Nat × Nat)

/-- The agent's answer; `none` is a failure. -/
structure Answer extends Request where
  files : Option (List String)
  /-- The stays on the blacklist when the agent looked at its directory.  The code
      does not know it. -/
  stays : List (Nat × Nat)

/-- `Directory_file_order_source`. -/
structure Source where
  isWatching : Bool
  remoteScheduler : String
  /-- `_new_files` from `_new_files_index` on. -/
  newFiles : List String
  agentRequestKnownFiles : List String
  inDirectoryReadResultCall : Bool
  /-- The call the client waits for; a closed client ignores the response. -/
  request : Option Request
  /-- Answers that wait for `on_call`. -/
  answers : List Answer

/-- The agent is asked for the file of an order. -/
structure Question where
  number : Nat
  stay : Nat
  file : File
deriving DecidableEq

/-- A `File_exists_call` that waits for `on_call`. -/
structure Reply where
  number : Nat
  stay : Nat
  fileExists : Bool
deriving DecidableEq

/-- What is configured. -/
structure Settings (ι : Type) where
  /-- The file is in the directory of the source, and its name matches the regular
      expression. -/
  fileMatches : ι → String → Bool

/-- A job chain that is not distributed, its sources and the files. -/
structure Chain (ι : Type) where
  orders : List Order
  source : ι → Source
  files : List File
  questions : List Question
  replies : List Reply
  /-- The next number for an order or a stay. -/
  next : Nat
  /-- The orders that `on_blacklisted_file_removed` has removed, as they were then. -/
  removed : List Order
  /-- The orders that were due at a complete reading, and are still there after it. -/
  missed : List Order

/-- A file order of this very source. -/
def belongs (c : Settings ι) (i : ι) (host : String) (o : Order) : Bool :=
  o.isFileOrder && o.filePath = o.id && o.fileAgentAddress = host && c.fileMatches i o.id

/-! ## The blacklist -/

namespace Chain

def update (n : Nat) (f : Order → Order) (s : Chain ι) : Chain ι :=
  { s with orders := s.orders.map fun o => if o.number = n then f o else o }

/-- `remove_from_job_chain`. -/
def remove (n : Nat) (s : Chain ι) : Chain ι :=
  { s with orders := s.orders.filter fun o => o.number ≠ n }

/-- `set_on_blacklist`. -/
def putOnBlacklist (s : Chain ι) (o : Order) : Order :=
  if o.isOnBlacklist then o
  else { o with isOnBlacklist := true, stay := s.next, gone := o.file ∉ s.files }

/-- `agentFileExists`. -/
def ask (s : Chain ι) (o : Order) : List Question :=
  if o.isAgentFileOrder then [⟨o.number, (s.putOnBlacklist o).stay, o.file⟩] else []

/-- The order does not leave the chain at its end. -/
def isKept (s : Chain ι) (o : Order) : Bool :=
  o.isFileOrder && (o.isAgentFileOrder || o.file ∈ s.files) || o.suspended || o.isOnBlacklist

/-- `handle_end_state`, of an order that is not repeated. -/
def handleEndState (n : Nat) (s : Chain ι) : Chain ι :=
  (s.orders.find? fun o => o.number = n).elim s fun o =>
    if s.isKept o then
      { s.update n s.putOnBlacklist with
        questions := s.questions ++ s.ask o
        next := s.next + 1 }
    else s.remove n

/-- `set_suspended`. -/
def setSuspended (n : Nat) (b : Bool) (s : Chain ι) : Chain ι :=
  (s.orders.find? fun o => o.number = n).elim s fun o =>
    if o.isOnBlacklist && o.suspended && !b then s.remove n
    else s.update n fun o => { o with suspended := b }

/-- `on_blacklisted_file_removed`; `assert_no_task` throws, and the error is logged. -/
def onBlacklistedFileRemoved (o : Order) (s : Chain ι) : Chain ι :=
  if o.hasTask then s else { s.remove o.number with removed := s.removed ++ [o] }

/-! ## Readings -/

def updateSource (i : ι) (f : Source → Source) (s : Chain ι) : Chain ι :=
  { s with source := Function.update s.source i (f (s.source i)) }

/-- `get_blacklisted_files`: the whole `_blacklist_map`. -/
def getBlacklistedFiles (s : Chain ι) : List String :=
  (s.orders.filter (·.isOnBlacklist)).map (·.id)

/-- The blacklisted files that this source takes as removed. -/
def removedFiles (i : ι) (s : Chain ι) : List String :=
  s.getBlacklistedFiles.filter fun path =>
    path ∉ (s.source i).agentRequestKnownFiles ∧ path ∉ (s.source i).newFiles

def removeFiles : List String → Chain ι → Chain ι
  | [], s => s
  | path :: paths, s =>
      removeFiles paths
        ((s.orders.find? fun o => o.id = path).elim s fun o => s.onBlacklistedFileRemoved o)

/-- `clean_up_blacklisted_files`. -/
def cleanUpBlacklistedFiles (i : ι) (s : Chain ι) : Chain ι :=
  s.removeFiles (s.removedFiles i)

/-- The stays on the blacklist. -/
def stays (s : Chain ι) : List (Nat × Nat) := (s.orders.filter (·.isOnBlacklist)).map (·.key)

/-- The stays of the orders of this source whose files are gone. -/
def due (c : Settings ι) (i : ι) (host : String) (s : Chain ι) : List (Nat × Nat) :=
  (s.orders.filter fun o => o.isOnBlacklist && belongs c i host o && o.file ∉ s.files).map (·.key)

/-- The orders that are due and have not been removed. -/
def recordMissed (due : List (Nat × Nat)) (s : Chain ι) : Chain ι :=
  { s with missed := s.missed ++ s.orders.filter fun o => o.isOnBlacklist && o.key ∈ due }

/-- The files of a host that a reading finds. -/
def listing (c : Settings ι) (i : ι) (host : String) (known : List String) (s : Chain ι) :
    List String :=
  ((s.files.filter fun f => f.host = host).map (·.path)).filter fun path =>
    c.fileMatches i path ∧ path ∉ known

/-- `read_directory`: the directory is read only if the buffer is empty. -/
def readDirectory (c : Settings ι) (i : ι) (fails : Bool) (s : Chain ι) : Chain ι :=
  if (s.source i).newFiles.isEmpty && !fails then
    ((s.updateSource i fun r => { r with newFiles := s.listing c i "" [] }).cleanUpBlacklistedFiles
      i).recordMissed (s.due c i "")
  else s

/-- `start_read_new_files_from_agent`. -/
def startReadNewFilesFromAgent (c : Settings ι) (i : ι) (s : Chain ι) : Chain ι :=
  if (s.source i).inDirectoryReadResultCall then s
  else
    let known := (s.orders.map (·.id)).filter (· ∉ s.getBlacklistedFiles)
    let host := (s.source i).remoteScheduler
    s.updateSource i fun r => { r with
      agentRequestKnownFiles := known
      inDirectoryReadResultCall := true
      request := some ⟨host, known, s.due c i host⟩ }

/-- The agent looks at its directory, and answers. -/
def agentAnswers (c : Settings ι) (i : ι) (fails : Bool) (s : Chain ι) : Chain ι :=
  (s.source i).request.elim s fun q =>
    s.updateSource i fun r => { r with
      request := none
      answers := r.answers ++
        [⟨q, if fails then none else some (s.listing c i q.host q.knownFiles), s.stays⟩] }

def startWatching (i : ι) (host : String) (s : Chain ι) : Chain ι :=
  s.updateSource i fun r => { r with isWatching := true, remoteScheduler := host }

def stopWatching (i : ι) (s : Chain ι) : Chain ι :=
  s.updateSource i fun r =>
    if r.isWatching then
      { r with
        isWatching := false
        newFiles := []
        request := none
        inDirectoryReadResultCall := r.inDirectoryReadResultCall && r.remoteScheduler = "" }
    else r

/-- `on_call(Directory_read_result_call)`, of the first answer. -/
def onDirectoryReadResultCall (i : ι) (replacedBy : Option String) (s : Chain ι) : Chain ι :=
  (s.source i).answers.head?.elim s fun a =>
    let s := s.updateSource i fun r => { r with answers := r.answers.tail }
    if (s.source i).isWatching then
      let s := s.updateSource i fun r =>
        { r with inDirectoryReadResultCall := false, newFiles := [] }
      replacedBy.elim
        (a.files.elim s fun files =>
          (((s.updateSource i fun r => { r with newFiles := files }).cleanUpBlacklistedFiles
            i).recordMissed a.due).updateSource i fun r => { r with agentRequestKnownFiles := [] })
        fun host => (s.stopWatching i).startWatching i host
    else s

/-! ## Files -/

/-- The orders on the blacklist that have this file. -/
def haveFile (f : File) (s : Chain ι) : List (Nat × Nat) :=
  (s.orders.filter fun o => o.isOnBlacklist && o.file = f).map (·.key)

/-- A file is created: its orders are not due any more. -/
def fileCreated (f : File) (s : Chain ι) : Chain ι :=
  { s with
    files := f :: s.files
    source := fun i => { s.source i with
      request := (s.source i).request.map fun q =>
        { q with due := q.due.filter (· ∉ s.haveFile f) }
      answers := (s.source i).answers.map fun a =>
        { a with due := a.due.filter (· ∉ s.haveFile f) } } }

def fileRemoved (f : File) (s : Chain ι) : Chain ι :=
  { s with
    files := s.files.filter (· ≠ f)
    orders := s.orders.map fun o => if o.file = f then { o with gone := true } else o }

/-- The agent looks for the file of an order; a failure is only logged. -/
def agentChecks (q : Question) (fails : Bool) (s : Chain ι) : Chain ι :=
  { s with
    questions := s.questions.erase q
    replies := if fails then s.replies else s.replies ++ [⟨q.number, q.stay, q.file ∈ s.files⟩] }

/-- `on_call(File_exists_call)`; an order that has been closed is not called. -/
def onFileExistsCall (r : Reply) (s : Chain ι) : Chain ι :=
  let s := { s with replies := s.replies.erase r }
  if r.fileExists then s
  else (s.orders.find? fun o => o.number = r.number).elim s fun o => s.onBlacklistedFileRemoved o

end Chain

/-! ## Runs -/

inductive Op (ι : Type) where
  | addOrder (id filePath fileAgentAddress : String) (suspended isOnBlacklist : Bool)
  | handleEndState (n : Nat)
  /-- `set_state`, and the order leaves the blacklist. -/
  | setState (n : Nat)
  | setSuspended (n : Nat) (b : Bool)
  /-- A task takes the order, or lets it go. -/
  | setTask (n : Nat) (b : Bool)
  /-- `remove_from_job_chain`, by a command or a script. -/
  | remove (n : Nat)
  | fileCreated (f : File)
  | fileRemoved (f : File)
  | startWatching (i : ι) (host : String)
  | stopWatching (i : ι)
  /-- `fetch_and_occupy_order` leaves the first file of the buffer behind. -/
  | takeFile (i : ι)
  | readDirectory (i : ι) (fails : Bool)
  | startReadNewFilesFromAgent (i : ι)
  | agentAnswers (i : ι) (fails : Bool)
  | directoryReadResultCall (i : ι) (replacedBy : Option String)
  | agentChecks (q : Question) (fails : Bool)
  | fileExistsCall (r : Reply)

open Chain in
def perform (c : Settings ι) (s : Chain ι) : Op ι → Chain ι
  | .addOrder id filePath fileAgentAddress suspended isOnBlacklist =>
      { s with
        orders := s.orders ++ [⟨s.next, id, filePath, fileAgentAddress, suspended, false,
          isOnBlacklist, s.next, (⟨fileAgentAddress, filePath⟩ : File) ∉ s.files⟩]
        next := s.next + 1 }
  | .handleEndState n => s.handleEndState n
  | .setState n => s.update n fun o => { o with isOnBlacklist := false }
  | .setSuspended n b => s.setSuspended n b
  | .setTask n b => s.update n fun o => { o with hasTask := b }
  | .remove n => s.remove n
  | .fileCreated f => s.fileCreated f
  | .fileRemoved f => s.fileRemoved f
  | .startWatching i host => s.startWatching i host
  | .stopWatching i => s.stopWatching i
  | .takeFile i => s.updateSource i fun r => { r with newFiles := r.newFiles.tail }
  | .readDirectory i fails => s.readDirectory c i fails
  | .startReadNewFilesFromAgent i => s.startReadNewFilesFromAgent c i
  | .agentAnswers i fails => s.agentAnswers c i fails
  | .directoryReadResultCall i replacedBy => s.onDirectoryReadResultCall i replacedBy
  | .agentChecks q fails => s.agentChecks q fails
  | .fileExistsCall r => s.onFileExistsCall r

/-- What the chain, the files and the agents do when. -/
def Allowed (s : Chain ι) : Op ι → Prop
  | .addOrder id _ _ _ _ => id ∉ s.orders.map (·.id)
  | .fileCreated f => f ∉ s.files
  | .startWatching i _ => (s.source i).isWatching = false
  | .readDirectory i _ =>
      (s.source i).isWatching = true ∧ (s.source i).remoteScheduler = ""
  | .startReadNewFilesFromAgent i =>
      (s.source i).isWatching = true ∧ (s.source i).remoteScheduler ≠ ""
  | .agentAnswers i _ => (s.source i).request.isSome = true
  | .directoryReadResultCall i _ => (s.source i).answers ≠ []
  | .agentChecks q _ => q ∈ s.questions
  | .fileExistsCall r => r ∈ s.replies
  | _ => True

def Step (c : Settings ι) (s : Chain ι) (op : Op ι) (s' : Chain ι) : Prop :=
  Allowed s op ∧ s' = perform c s op

/-- A chain without orders, whose sources do not yet watch. -/
structure Initial (s : Chain ι) : Prop where
  orders : s.orders = []
  questions : s.questions = []
  replies : s.replies = []
  request : ∀ i, (s.source i).request = none
  answers : ∀ i, (s.source i).answers = []
  removed : s.removed = []
  missed : s.missed = []

/-! ## What is claimed, and when it holds -/

/-- Only blacklisted file orders are removed, after their files; and no order stays
    whose file is gone when its directory has been read. -/
structure Correct (s : Chain ι) : Prop where
  removed : ∀ o ∈ s.removed, o.isOnBlacklist = true ∧ o.isFileOrder = true ∧ o.gone = true
  missed : s.missed = []

/-- At a reading, every order on the blacklist is listed or belongs to this very
    source, and has no task.  An answer of an agent is one to the question as it was
    asked last, and is younger than the order's stay on the blacklist.  An order whose
    file does not exist is still in the stay in which the agent has been asked. -/
def Good (c : Settings ι) (s : Chain ι) : Op ι → Prop
  | .readDirectory i fails => (s.source i).newFiles = [] → fails = false →
      (s.source i).agentRequestKnownFiles = [] ∧
      ∀ o ∈ s.orders, o.isOnBlacklist = true → o.id ∈ s.listing c i "" [] ∨
        belongs c i "" o = true ∧ o.hasTask = false
  | .directoryReadResultCall i replacedBy => (s.source i).isWatching = true → replacedBy = none →
      ∀ a ∈ (s.source i).answers.head?, ∀ files ∈ a.files,
        a.knownFiles = (s.source i).agentRequestKnownFiles ∧
        ∀ o ∈ s.orders, o.isOnBlacklist = true → o.id ∈ a.knownFiles ∨ o.id ∈ files ∨
          belongs c i a.host o = true ∧ o.key ∈ a.stays ∧ o.hasTask = false
  | .fileExistsCall r => r.fileExists = false →
      ∀ o ∈ s.orders, o.number = r.number → o.isOnBlacklist = true ∧ o.stay = r.stay
  | _ => True

/-! ## The invariant -/

variable {c : Settings ι} {s s' : Chain ι} {i : ι}

/-- An order on the blacklist. -/
def Black (s : Chain ι) (o : Order) : Prop := o ∈ s.orders ∧ o.isOnBlacklist = true

/-- The orders that are due are of the source, and their files are still gone. -/
structure DueSound (c : Settings ι) (s : Chain ι) (i : ι) (q : Request) : Prop where
  bound : ∀ k ∈ q.due, k.2 < s.next
  gone : ∀ o, Black s o → o.key ∈ q.due →
    belongs c i q.host o = true ∧ o.file ∉ s.files ∧ o.id ∉ q.knownFiles

/-- What the agent has answered about the orders of then. -/
structure AnswerSound (c : Settings ι) (s : Chain ι) (i : ι) (a : Answer) : Prop where
  due : DueSound c s i a.toRequest
  bound : ∀ k ∈ a.stays, k.2 < s.next
  unlisted : ∀ files ∈ a.files, ∀ o, Black s o → o.key ∈ a.due → o.id ∉ files
  gone : ∀ files ∈ a.files, ∀ o, Black s o → o.key ∈ a.stays → belongs c i a.host o = true →
    o.id ∉ a.knownFiles → o.id ∉ files → o.gone = true

structure QuestionSound (s : Chain ι) (q : Question) : Prop where
  bound : q.stay < s.next
  file : ∀ o, Black s o → o.number = q.number → o.stay = q.stay →
    o.isFileOrder = true ∧ o.file = q.file

structure ReplySound (s : Chain ι) (r : Reply) : Prop where
  bound : r.stay < s.next
  gone : r.fileExists = false → ∀ o, Black s o → o.number = r.number → o.stay = r.stay →
    o.isFileOrder = true ∧ o.gone = true

structure Inv (c : Settings ι) (s : Chain ι) : Prop where
  ids : (s.orders.map (·.id)).Nodup
  numbers : (s.orders.map (·.number)).Nodup
  bound : ∀ o ∈ s.orders, o.number < s.next ∧ o.stay < s.next
  gone : ∀ o, Black s o → o.file ∉ s.files → o.gone = true
  requests : ∀ i, ∀ q ∈ (s.source i).request, DueSound c s i q
  answers : ∀ i, ∀ a ∈ (s.source i).answers, AnswerSound c s i a
  questions : ∀ q ∈ s.questions, QuestionSound s q
  replies : ∀ r ∈ s.replies, ReplySound s r
  correct : Correct s

/-! ## Changes of the orders -/

/-- The files stay, and an order on the blacklist has been there before, or begins a
    new stay. -/
structure Moves (s s' : Chain ι) : Prop where
  files : s'.files = s.files
  next : s.next ≤ s'.next
  black : ∀ o', Black s' o' →
    (∃ o, Black s o ∧ ∃ t u, o' = { o with suspended := t, hasTask := u }) ∨
    s.next ≤ o'.stay ∧ (o'.file ∉ s.files → o'.gone = true)

/-- Orders only leave. -/
theorem Moves.of_subset (hfiles : s'.files = s.files) (hnext : s'.next = s.next)
    (h : ∀ o ∈ s'.orders, o ∈ s.orders) : Moves s s' := by
  refine ⟨hfiles, Nat.le_of_eq hnext.symm, ?_⟩
  intro o ho
  exact Or.inl ⟨o, ⟨h o ho.1, ho.2⟩, o.suspended, o.hasTask, rfl⟩

theorem DueSound.moves {q : Request} (h : DueSound c s i q) (hm : Moves s s') :
    DueSound c s' i q := by
  constructor
  · intro n hn
    exact Nat.lt_of_lt_of_le (h.bound n hn) hm.next
  · intro o' ho' hdue
    obtain ⟨o, ho, t, u, rfl⟩ | ⟨hnew, -⟩ := hm.black o' ho'
    · rw [hm.files]
      exact h.gone o ho hdue
    · exact absurd (h.bound _ hdue) (Nat.not_lt.mpr hnew)

theorem AnswerSound.moves {a : Answer} (h : AnswerSound c s i a) (hm : Moves s s') :
    AnswerSound c s' i a := by
  refine ⟨h.due.moves hm, ?_, ?_, ?_⟩
  · intro n hn
    exact Nat.lt_of_lt_of_le (h.bound n hn) hm.next
  · intro files hfiles o' ho' hdue
    obtain ⟨o, ho, t, u, rfl⟩ | ⟨hnew, -⟩ := hm.black o' ho'
    · exact h.unlisted files hfiles o ho hdue
    · exact absurd (h.due.bound _ hdue) (Nat.not_lt.mpr hnew)
  · intro files hfiles o' ho' hstay hmine hknown hlisted
    obtain ⟨o, ho, t, u, rfl⟩ | ⟨hnew, -⟩ := hm.black o' ho'
    · exact h.gone files hfiles o ho hstay hmine hknown hlisted
    · exact absurd (h.bound _ hstay) (Nat.not_lt.mpr hnew)

theorem QuestionSound.moves {q : Question} (h : QuestionSound s q) (hm : Moves s s') :
    QuestionSound s' q := by
  refine ⟨Nat.lt_of_lt_of_le h.bound hm.next, ?_⟩
  intro o' ho' hnumber hstay
  obtain ⟨o, ho, t, u, rfl⟩ | ⟨hnew, -⟩ := hm.black o' ho'
  · exact h.file o ho hnumber hstay
  · have := h.bound
    omega

theorem ReplySound.moves {r : Reply} (h : ReplySound s r) (hm : Moves s s') :
    ReplySound s' r := by
  refine ⟨Nat.lt_of_lt_of_le h.bound hm.next, ?_⟩
  intro hno o' ho' hnumber hstay
  obtain ⟨o, ho, t, u, rfl⟩ | ⟨hnew, -⟩ := hm.black o' ho'
  · exact h.gone hno o ho hnumber hstay
  · have := h.bound
    omega

/-- The orders of a chain are different objects with different ids. -/
structure Registered (s : Chain ι) : Prop where
  ids : (s.orders.map (·.id)).Nodup
  numbers : (s.orders.map (·.number)).Nodup
  bound : ∀ o ∈ s.orders, o.number < s.next ∧ o.stay < s.next

theorem Inv.registered (h : Inv c s) : Registered s := ⟨h.ids, h.numbers, h.bound⟩

/-- What has been asked and answered stays true while the files stay as they are. -/
theorem Inv.moves (h : Inv c s) (hm : Moves s s') (hreg : Registered s')
    (hreq : ∀ i, ∀ q ∈ (s'.source i).request,
      q ∈ (s.source i).request ∨ DueSound c s' i q)
    (hans : ∀ i, ∀ a ∈ (s'.source i).answers,
      a ∈ (s.source i).answers ∨ AnswerSound c s' i a)
    (hque : ∀ q ∈ s'.questions, q ∈ s.questions ∨ QuestionSound s' q)
    (hrep : ∀ r ∈ s'.replies, r ∈ s.replies ∨ ReplySound s' r)
    (hcor : Correct s') : Inv c s' := by
  refine ⟨hreg.ids, hreg.numbers, hreg.bound, ?_, ?_, ?_, ?_, ?_, hcor⟩
  · intro o' ho' hfile
    rw [hm.files] at hfile
    obtain ⟨o, ho, t, u, rfl⟩ | ⟨-, hgone⟩ := hm.black o' ho'
    · exact h.gone o ho hfile
    · exact hgone hfile
  · intro i q hq
    rcases hreq i q hq with hold | hnew
    · exact (h.requests i q hold).moves hm
    · exact hnew
  · intro i a ha
    rcases hans i a ha with hold | hnew
    · exact (h.answers i a hold).moves hm
    · exact hnew
  · intro q hq
    rcases hque q hq with hold | hnew
    · exact (h.questions q hold).moves hm
    · exact hnew
  · intro r hr
    rcases hrep r hr with hold | hnew
    · exact (h.replies r hold).moves hm
    · exact hnew

/-- Only the orders change. -/
theorem Inv.orders {l : List Order} (h : Inv c s) (hm : Moves s { s with orders := l })
    (hreg : Registered { s with orders := l }) : Inv c { s with orders := l } :=
  h.moves hm hreg (fun _ _ hq => Or.inl hq) (fun _ _ ha => Or.inl ha) (fun _ hq => Or.inl hq)
    (fun _ hr => Or.inl hr) ⟨h.correct.removed, h.correct.missed⟩

/-! ## Orders -/

section Orders

variable {n : Nat} {f : Order → Order}

theorem mem_update {o' : Order} (h : o' ∈ (s.update n f).orders) :
    ∃ o ∈ s.orders, (o.number = n ∧ o' = f o) ∨ (o.number ≠ n ∧ o' = o) := by
  obtain ⟨o, ho, rfl⟩ := List.mem_map.mp h
  refine ⟨o, ho, ?_⟩
  by_cases hn : o.number = n
  · left
    exact ⟨hn, if_pos hn⟩
  · right
    exact ⟨hn, if_neg hn⟩

theorem update_ids (hf : ∀ o, (f o).id = o.id) :
    (s.update n f).orders.map (·.id) = s.orders.map (·.id) := by
  show (s.orders.map _).map _ = _
  rw [List.map_map]
  refine List.map_congr_left fun o _ => ?_
  show (if o.number = n then f o else o).id = o.id
  split
  · exact hf o
  · rfl

theorem update_numbers (hf : ∀ o, (f o).number = o.number) :
    (s.update n f).orders.map (·.number) = s.orders.map (·.number) := by
  show (s.orders.map _).map _ = _
  rw [List.map_map]
  refine List.map_congr_left fun o _ => ?_
  show (if o.number = n then f o else o).number = o.number
  split
  · exact hf o
  · rfl

/-- Flags of an order that are not about the blacklist, or take it from there. -/
theorem inv_update (h : Inv c s) (hid : ∀ o, (f o).id = o.id)
    (hnumber : ∀ o, (f o).number = o.number) (hstay : ∀ o, (f o).stay = o.stay)
    (hf : ∀ o, (f o).isOnBlacklist = true →
      o.isOnBlacklist = true ∧ ∃ t u, f o = { o with suspended := t, hasTask := u }) :
    Inv c (s.update n f) := by
  refine h.orders ⟨rfl, Nat.le_refl _, ?_⟩ ⟨?_, ?_, ?_⟩
  · intro o' ho'
    left
    obtain ⟨o, ho, ⟨hn, rfl⟩ | ⟨hn, rfl⟩⟩ := mem_update ho'.1
    · obtain ⟨hblack, t, u, heq⟩ := hf o ho'.2
      exact ⟨o, ⟨ho, hblack⟩, t, u, heq⟩
    · exact ⟨o', ⟨ho, ho'.2⟩, o'.suspended, o'.hasTask, rfl⟩
  · have heq := update_ids (s := s) (n := n) hid
    exact heq ▸ h.ids
  · have heq := update_numbers (s := s) (n := n) hnumber
    exact heq ▸ h.numbers
  · intro o' ho'
    obtain ⟨o, ho, ⟨hn, rfl⟩ | ⟨hn, rfl⟩⟩ := mem_update ho'
    · rw [hnumber, hstay]
      exact h.bound o ho
    · exact h.bound o' ho

theorem registered_remove (h : Registered s) : Registered (s.remove n) := by
  refine ⟨?_, ?_, ?_⟩
  · exact h.ids.sublist (List.filter_sublist.map _)
  · exact h.numbers.sublist (List.filter_sublist.map _)
  · intro o ho
    exact h.bound o (List.mem_filter.mp ho).1

theorem inv_remove (h : Inv c s) : Inv c (s.remove n) :=
  h.orders (Moves.of_subset rfl rfl fun _ ho => (List.mem_filter.mp ho).1)
    (registered_remove h.registered)

theorem inv_addOrder {id filePath fileAgentAddress : String} {suspended isOnBlacklist : Bool}
    (h : Inv c s) (hid : id ∉ s.orders.map (·.id)) :
    Inv c (perform c s (.addOrder id filePath fileAgentAddress suspended isOnBlacklist)) := by
  refine h.moves ⟨rfl, Nat.le_succ _, ?_⟩ ⟨?_, ?_, ?_⟩ (fun _ _ hq => Or.inl hq)
    (fun _ _ ha => Or.inl ha) (fun _ hq => Or.inl hq) (fun _ hr => Or.inl hr)
    ⟨h.correct.removed, h.correct.missed⟩
  · intro o' ho'
    rcases List.mem_append.mp ho'.1 with hold | hnew
    · exact Or.inl ⟨o', ⟨hold, ho'.2⟩, o'.suspended, o'.hasTask, rfl⟩
    · rw [List.mem_singleton] at hnew
      right
      rw [hnew]
      exact ⟨Nat.le_refl _, fun hfile => decide_eq_true hfile⟩
  · show (List.map _ (_ ++ _)).Nodup
    rw [List.map_append]
    refine h.ids.append (List.nodup_singleton _) ?_
    intro x hx hx'
    rw [List.map_singleton, List.mem_singleton] at hx'
    rw [hx'] at hx
    exact hid hx
  · show (List.map _ (_ ++ _)).Nodup
    rw [List.map_append]
    refine h.numbers.append (List.nodup_singleton _) ?_
    intro x hx hx'
    rw [List.map_singleton, List.mem_singleton] at hx'
    obtain ⟨o, ho, rfl⟩ := List.mem_map.mp hx
    exact absurd hx' (Nat.ne_of_lt (h.bound o ho).1)
  · intro o ho
    rcases List.mem_append.mp ho with hold | hnew
    · have := h.bound o hold
      exact ⟨Nat.lt_succ_of_lt this.1, Nat.lt_succ_of_lt this.2⟩
    · rw [List.mem_singleton] at hnew
      rw [hnew]
      exact ⟨Nat.lt_succ_self _, Nat.lt_succ_self _⟩

/-! ### The end of an order -/

theorem putOnBlacklist_id (s : Chain ι) (o : Order) : (s.putOnBlacklist o).id = o.id := by
  rw [Chain.putOnBlacklist]
  split <;> rfl

theorem putOnBlacklist_number (s : Chain ι) (o : Order) :
    (s.putOnBlacklist o).number = o.number := by
  rw [Chain.putOnBlacklist]
  split <;> rfl

theorem putOnBlacklist_file (s : Chain ι) (o : Order) :
    (s.putOnBlacklist o).isFileOrder = o.isFileOrder ∧ (s.putOnBlacklist o).file = o.file := by
  rw [Chain.putOnBlacklist]
  split <;> exact ⟨rfl, rfl⟩

theorem find_number {o : Order} (h : s.orders.find? (fun o => o.number = n) = some o) :
    o ∈ s.orders ∧ o.number = n :=
  ⟨List.mem_of_find?_eq_some h, by simpa using List.find?_some h⟩

theorem Registered.eq_of_number (h : Registered s) {o o' : Order} (ho : o ∈ s.orders)
    (ho' : o' ∈ s.orders) (heq : o.number = o'.number) : o = o' :=
  List.inj_on_of_nodup_map h.numbers ho ho' heq

theorem Registered.eq_of_id (h : Registered s) {o o' : Order} (ho : o ∈ s.orders)
    (ho' : o' ∈ s.orders) (heq : o.id = o'.id) : o = o' :=
  List.inj_on_of_nodup_map h.ids ho ho' heq

/-- An order that is put on the blacklist begins a stay, or goes on with its own. -/
theorem putOnBlacklist_cases (s : Chain ι) (o : Order) :
    (o.isOnBlacklist = true ∧ s.putOnBlacklist o = o) ∨
    ((s.putOnBlacklist o).stay = s.next ∧
      ((s.putOnBlacklist o).file ∉ s.files → (s.putOnBlacklist o).gone = true)) := by
  by_cases hblack : o.isOnBlacklist = true
  · left
    exact ⟨hblack, if_pos hblack⟩
  · right
    rw [Chain.putOnBlacklist, if_neg hblack]
    exact ⟨rfl, fun hfile => decide_eq_true hfile⟩

theorem putOnBlacklist_bound (h : Inv c s) {o : Order} (ho : o ∈ s.orders) :
    (s.putOnBlacklist o).stay < s.next + 1 := by
  rcases putOnBlacklist_cases s o with ⟨-, heq⟩ | ⟨hstay, -⟩
  · rw [heq]
    exact Nat.lt_succ_of_lt (h.bound o ho).2
  · rw [hstay]
    exact Nat.lt_succ_self _

theorem inv_handleEndState (h : Inv c s) : Inv c (s.handleEndState n) := by
  rw [Chain.handleEndState]
  cases hfind : s.orders.find? (fun o => o.number = n) with
  | none => exact h
  | some o =>
    obtain ⟨ho, hn⟩ := find_number hfind
    show Inv c (if s.isKept o = true then _ else s.remove n)
    split
    · refine h.moves ⟨rfl, Nat.le_succ _, ?_⟩ ⟨?_, ?_, ?_⟩ (fun _ _ hq => Or.inl hq)
        (fun _ _ ha => Or.inl ha) ?_ (fun _ hr => Or.inl hr)
        ⟨h.correct.removed, h.correct.missed⟩
      · intro o' ho'
        obtain ⟨o₁, ho₁, ⟨hn₁, rfl⟩ | ⟨hn₁, rfl⟩⟩ := mem_update ho'.1
        · rcases putOnBlacklist_cases s o₁ with ⟨hblack, heq⟩ | ⟨hstay, hgone⟩
          · rw [heq]
            exact Or.inl ⟨o₁, ⟨ho₁, hblack⟩, o₁.suspended, o₁.hasTask, rfl⟩
          · exact Or.inr ⟨Nat.le_of_eq hstay.symm, hgone⟩
        · exact Or.inl ⟨o', ⟨ho₁, ho'.2⟩, o'.suspended, o'.hasTask, rfl⟩
      · have heq := update_ids (s := s) (n := n) (putOnBlacklist_id s)
        exact heq ▸ h.ids
      · have heq := update_numbers (s := s) (n := n) (putOnBlacklist_number s)
        exact heq ▸ h.numbers
      · intro o' ho'
        obtain ⟨o₁, ho₁, ⟨hn₁, rfl⟩ | ⟨hn₁, rfl⟩⟩ := mem_update ho'
        · refine ⟨?_, putOnBlacklist_bound h ho₁⟩
          rw [putOnBlacklist_number]
          exact Nat.lt_succ_of_lt (h.bound o₁ ho₁).1
        · have := h.bound o' ho₁
          exact ⟨Nat.lt_succ_of_lt this.1, Nat.lt_succ_of_lt this.2⟩
      · intro q hq
        rcases List.mem_append.mp hq with hold | hnew
        · exact Or.inl hold
        · right
          rw [Chain.ask] at hnew
          split at hnew
          · rename_i hagent
            rw [List.mem_singleton] at hnew
            rw [hnew]
            refine ⟨putOnBlacklist_bound h ho, ?_⟩
            intro o' ho' hnumber _
            obtain ⟨o₁, ho₁, ⟨hn₁, rfl⟩ | ⟨hn₁, rfl⟩⟩ := mem_update ho'.1
            · rw [h.registered.eq_of_number ho₁ ho (hn₁.trans hn.symm),
                (putOnBlacklist_file s o).1, (putOnBlacklist_file s o).2]
              rw [Order.isAgentFileOrder, Bool.and_eq_true] at hagent
              exact ⟨hagent.1, rfl⟩
            · exact absurd (hnumber.trans hn) hn₁
          · cases hnew
    · exact inv_remove h

theorem inv_setSuspended {b : Bool} (h : Inv c s) : Inv c (s.setSuspended n b) := by
  rw [Chain.setSuspended]
  cases s.orders.find? (fun o => o.number = n) with
  | none => exact h
  | some o =>
    show Inv c (if (o.isOnBlacklist && o.suspended && !b) = true then s.remove n else _)
    split
    · exact inv_remove h
    · exact inv_update h (fun _ => rfl) (fun _ => rfl) (fun _ => rfl)
        fun o ho => ⟨ho, b, o.hasTask, rfl⟩

end Orders

/-! ## Clean-up -/

/-- What the removal of files does to the orders. -/
structure Removed (s r : Chain ι) (l : List String) : Prop where
  rest : r = { s with orders := r.orders, removed := r.removed }
  orders : r.orders.Sublist s.orders
  removed : ∀ o ∈ r.removed, o ∈ s.removed ∨ o ∈ s.orders ∧ o.id ∈ l
  done : ∀ o ∈ r.orders, o.id ∈ l → o.hasTask = true

theorem Removed.registered {r : Chain ι} {l : List String} (h : Removed s r l)
    (hreg : Registered s) : Registered r := by
  refine ⟨hreg.ids.sublist (h.orders.map _), hreg.numbers.sublist (h.orders.map _), ?_⟩
  intro o ho
  rw [h.rest]
  exact hreg.bound o (h.orders.subset ho)

theorem Removed.cons {r t : Chain ι} {path : String} {l : List String}
    (h : Removed s r [path]) (h' : Removed r t l) : Removed s t (path :: l) := by
  refine ⟨?_, h'.orders.trans h.orders, ?_, ?_⟩
  · rw [h'.rest, h.rest]
  · intro o ho
    rcases h'.removed o ho with hold | ⟨hmem, hid⟩
    · rcases h.removed o hold with hold | ⟨hmem, hid⟩
      · exact Or.inl hold
      · exact Or.inr ⟨hmem, List.mem_cons.mpr (Or.inl (List.mem_singleton.mp hid))⟩
    · exact Or.inr ⟨h.orders.subset hmem, List.mem_cons_of_mem _ hid⟩
  · intro o ho hid
    rcases List.mem_cons.mp hid with hhead | htail
    · exact h.done o (h'.orders.subset ho) (List.mem_singleton.mpr hhead)
    · exact h'.done o ho htail

theorem removeFile_spec (h : Registered s) (path : String) :
    Removed s ((s.orders.find? fun o => o.id = path).elim s fun o => s.onBlacklistedFileRemoved o)
      [path] := by
  cases hfind : s.orders.find? (fun o => o.id = path) with
  | none =>
    refine ⟨rfl, List.Sublist.refl _, fun o ho => Or.inl ho, ?_⟩
    intro o ho hid
    have := List.find?_eq_none.mp hfind o ho
    exact absurd (decide_eq_true (List.mem_singleton.mp hid)) this
  | some o =>
    have ho : o ∈ s.orders := List.mem_of_find?_eq_some hfind
    have hid : o.id = path := by simpa using List.find?_some hfind
    show Removed s (if o.hasTask = true then s else _) [path]
    split
    · rename_i htask
      refine ⟨rfl, List.Sublist.refl _, fun o ho => Or.inl ho, ?_⟩
      intro o' ho' hid'
      rw [h.eq_of_id ho' ho ((List.mem_singleton.mp hid').trans hid.symm)]
      exact htask
    · refine ⟨rfl, List.filter_sublist, ?_, ?_⟩
      · intro o' ho'
        rcases List.mem_append.mp ho' with hold | hnew
        · exact Or.inl hold
        · rw [List.mem_singleton] at hnew
          rw [hnew]
          exact Or.inr ⟨ho, List.mem_singleton.mpr hid⟩
      · intro o' ho' hid'
        obtain ⟨hmem, hne⟩ := List.mem_filter.mp ho'
        have heq := h.eq_of_id hmem ho ((List.mem_singleton.mp hid').trans hid.symm)
        exact absurd (congrArg Order.number heq) (of_decide_eq_true hne)

theorem removeFiles_spec (h : Registered s) (l : List String) :
    Removed s (s.removeFiles l) l := by
  induction l generalizing s with
  | nil => exact ⟨rfl, List.Sublist.refl _, fun o ho => Or.inl ho,
      fun o _ hid => absurd hid List.not_mem_nil⟩
  | cons path l ih =>
      have hone := removeFile_spec h path
      exact hone.cons (ih (hone.registered h))

theorem mem_getBlacklistedFiles {path : String} :
    path ∈ s.getBlacklistedFiles ↔ ∃ o, Black s o ∧ o.id = path := by
  rw [Chain.getBlacklistedFiles, List.mem_map]
  constructor
  · rintro ⟨o, ho, hid⟩
    exact ⟨o, List.mem_filter.mp ho, hid⟩
  · rintro ⟨o, ho, hid⟩
    exact ⟨o, List.mem_filter.mpr ho, hid⟩

theorem mem_removedFiles {path : String} :
    path ∈ s.removedFiles i ↔ (∃ o, Black s o ∧ o.id = path) ∧
      path ∉ (s.source i).agentRequestKnownFiles ∧ path ∉ (s.source i).newFiles := by
  rw [Chain.removedFiles, List.mem_filter, mem_getBlacklistedFiles, decide_eq_true_iff]

/-- A reading is harmless if the orders whose files it misses are of its directory,
    and complete if it misses all that are due. -/
theorem inv_cleanUp {due : List (Nat × Nat)} (h : Inv c s)
    (hremoved : ∀ o, Black s o → o.id ∉ (s.source i).agentRequestKnownFiles →
      o.id ∉ (s.source i).newFiles → o.isFileOrder = true ∧ o.gone = true)
    (hdue : ∀ o, Black s o → o.key ∈ due → o.id ∉ (s.source i).agentRequestKnownFiles ∧
      o.id ∉ (s.source i).newFiles ∧ o.hasTask = false) :
    Inv c ((s.cleanUpBlacklistedFiles i).recordMissed due) := by
  have hr := removeFiles_spec h.registered (s.removedFiles i)
  have hreg := hr.registered h.registered
  rw [Chain.cleanUpBlacklistedFiles]
  generalize s.removeFiles (s.removedFiles i) = r at hr hreg ⊢
  obtain ⟨hrest, hsub, hrem, hdone⟩ := hr
  have hmoves : Moves s (r.recordMissed due) := by
    refine Moves.of_subset ?_ ?_ hsub.subset
    · rw [hrest]
      rfl
    · rw [hrest]
      rfl
  refine h.moves hmoves ⟨hreg.ids, hreg.numbers, hreg.bound⟩ ?_ ?_ ?_ ?_ ⟨?_, ?_⟩
  · intro j q hq
    rw [hrest] at hq
    exact Or.inl hq
  · intro j a ha
    rw [hrest] at ha
    exact Or.inl ha
  · intro q hq
    rw [hrest] at hq
    exact Or.inl hq
  · intro q hq
    rw [hrest] at hq
    exact Or.inl hq
  · intro o ho
    rcases hrem o ho with hold | ⟨hmem, hid⟩
    · exact h.correct.removed o hold
    · obtain ⟨⟨o', hblack, hid'⟩, hknown, hnew⟩ := mem_removedFiles.mp hid
      -- the order that is found by the id is the one on the blacklist
      have heq := h.registered.eq_of_id hblack.1 hmem hid'
      rw [heq] at hblack
      exact ⟨hblack.2, hremoved o hblack hknown hnew⟩
  · show r.missed ++ _ = []
    rw [hrest]
    show s.missed ++ _ = []
    rw [h.correct.missed, List.nil_append, List.filter_eq_nil_iff]
    intro o ho hmissed
    rw [Bool.and_eq_true, decide_eq_true_iff] at hmissed
    have hblack : Black s o := ⟨hsub.subset ho, hmissed.1⟩
    obtain ⟨hknown, hnew, htask⟩ := hdue o hblack hmissed.2
    have := hdone o ho (mem_removedFiles.mpr ⟨⟨o, hblack, rfl⟩, hknown, hnew⟩)
    rw [htask] at this
    cases this

/-! ## Readings -/

section Readings

variable {f : Source → Source}

/-- A source that does not get new questions and answers. -/
theorem inv_updateSource (h : Inv c s)
    (hreq : ∀ q ∈ (f (s.source i)).request,
      q ∈ (s.source i).request ∨ DueSound c (s.updateSource i f) i q)
    (hans : ∀ a ∈ (f (s.source i)).answers,
      a ∈ (s.source i).answers ∨ AnswerSound c (s.updateSource i f) i a) :
    Inv c (s.updateSource i f) := by
  refine h.moves (Moves.of_subset rfl rfl fun _ ho => ho) ⟨h.ids, h.numbers, h.bound⟩ ?_ ?_
    (fun _ hq => Or.inl hq) (fun _ hr => Or.inl hr) ⟨h.correct.removed, h.correct.missed⟩
  · intro j q hq
    by_cases hj : j = i
    · subst hj
      rw [show (s.updateSource j f).source j = f (s.source j) from Function.update_self ..] at hq
      exact hreq q hq
    · rw [show (s.updateSource i f).source j = s.source j from Function.update_of_ne hj ..] at hq
      exact Or.inl hq
  · intro j a ha
    by_cases hj : j = i
    · subst hj
      rw [show (s.updateSource j f).source j = f (s.source j) from Function.update_self ..] at ha
      exact hans a ha
    · rw [show (s.updateSource i f).source j = s.source j from Function.update_of_ne hj ..] at ha
      exact Or.inl ha

theorem updateSource_self : (s.updateSource i f).source i = f (s.source i) :=
  Function.update_self ..

/-- A reading finds the file of an order of its own. -/
theorem mem_listing {host : String} {known : List String} {o : Order}
    (hmine : belongs c i host o = true) (hfile : o.file ∈ s.files) (hknown : o.id ∉ known) :
    o.id ∈ s.listing c i host known := by
  rw [belongs, Bool.and_eq_true, Bool.and_eq_true, Bool.and_eq_true, decide_eq_true_iff,
    decide_eq_true_iff] at hmine
  obtain ⟨⟨⟨-, hid⟩, hhost⟩, hmatches⟩ := hmine
  rw [Chain.listing, List.mem_filter, List.mem_map]
  refine ⟨⟨o.file, List.mem_filter.mpr ⟨hfile, decide_eq_true hhost⟩, hid⟩, ?_⟩
  exact decide_eq_true ⟨hmatches, hknown⟩

theorem mem_listing_iff {host path : String} {known : List String} :
    path ∈ s.listing c i host known ↔
      (⟨host, path⟩ : File) ∈ s.files ∧ c.fileMatches i path = true ∧ path ∉ known := by
  rw [Chain.listing, List.mem_filter, List.mem_map, decide_eq_true_iff]
  refine and_congr_left fun _ => ?_
  constructor
  · rintro ⟨f, hf, rfl⟩
    obtain ⟨hmem, hhost⟩ := List.mem_filter.mp hf
    rw [← of_decide_eq_true hhost]
    exact hmem
  · intro hmem
    exact ⟨_, List.mem_filter.mpr ⟨hmem, decide_eq_true rfl⟩, rfl⟩

theorem belongs_file {host : String} {o : Order} (h : belongs c i host o = true) :
    o.isFileOrder = true ∧ o.file = ⟨host, o.id⟩ := by
  rw [belongs, Bool.and_eq_true, Bool.and_eq_true, Bool.and_eq_true, decide_eq_true_iff,
    decide_eq_true_iff] at h
  obtain ⟨⟨⟨hfile, hid⟩, hhost⟩, -⟩ := h
  refine ⟨hfile, ?_⟩
  rw [Order.file, hid, hhost]

/-- An order that is due is of the source, and its file is gone. -/
theorem of_mem_due {host : String} (hreg : Registered s) {o : Order} (ho : Black s o)
    (hdue : o.key ∈ s.due c i host) : belongs c i host o = true ∧ o.file ∉ s.files := by
  obtain ⟨o', ho', hkey⟩ := List.mem_map.mp hdue
  obtain ⟨hmem, hprop⟩ := List.mem_filter.mp ho'
  rw [hreg.eq_of_number hmem ho.1 (congrArg Prod.fst hkey), Bool.and_eq_true, Bool.and_eq_true,
    decide_eq_true_iff] at hprop
  exact ⟨hprop.1.2, hprop.2⟩

theorem key_lt {l : List Order} {k : Nat × Nat} (h : Registered s) (hl : ∀ o ∈ l, o ∈ s.orders)
    (hk : k ∈ l.map (·.key)) : k.2 < s.next := by
  obtain ⟨o, ho, rfl⟩ := List.mem_map.mp hk
  exact (h.bound o (hl o ho)).2

theorem inv_readDirectory {fails : Bool} (h : Inv c s)
    (hgood : Good c s (.readDirectory i fails)) : Inv c (s.readDirectory c i fails) := by
  rw [Chain.readDirectory]
  split
  · rename_i hread
    rw [Bool.and_eq_true, List.isEmpty_iff, Bool.not_eq_true'] at hread
    obtain ⟨hknown, hgood⟩ := hgood hread.1 hread.2
    refine inv_cleanUp (inv_updateSource h (fun _ hq => Or.inl hq) fun _ ha => Or.inl ha) ?_ ?_
    · intro o ho _ hnew
      rw [updateSource_self] at hnew
      rcases hgood o ho.1 ho.2 with hlisted | ⟨hmine, -⟩
      · exact absurd hlisted hnew
      · refine ⟨(belongs_file hmine).1, h.gone o ho fun hfile => hnew ?_⟩
        exact mem_listing hmine hfile List.not_mem_nil
    · intro o ho hdue
      obtain ⟨hmine, hfile⟩ := of_mem_due h.registered ho hdue
      have hnew : o.id ∉ s.listing c i "" [] := by
        intro hlisted
        rw [(belongs_file hmine).2] at hfile
        exact hfile (mem_listing_iff.mp hlisted).1
      rw [updateSource_self]
      refine ⟨?_, hnew, ?_⟩
      · show o.id ∉ (s.source i).agentRequestKnownFiles
        rw [hknown]
        exact List.not_mem_nil
      · rcases hgood o ho.1 ho.2 with hlisted | ⟨-, htask⟩
        · exact absurd hlisted hnew
        · exact htask
  · exact h

theorem inv_startReadNewFilesFromAgent (h : Inv c s) :
    Inv c (s.startReadNewFilesFromAgent c i) := by
  rw [Chain.startReadNewFilesFromAgent]
  split
  · exact h
  · refine inv_updateSource h ?_ fun _ ha => Or.inl ha
    intro q hq
    right
    obtain rfl := Option.some.inj hq
    constructor
    · intro k hk
      have hlt : k.2 < s.next := key_lt h.registered (fun o ho => (List.mem_filter.mp ho).1) hk
      exact hlt
    · intro o ho hdue
      obtain ⟨hmine, hfile⟩ := of_mem_due h.registered ho hdue
      refine ⟨hmine, hfile, ?_⟩
      intro hknown
      -- the orders on the blacklist are not reported as known
      have := of_decide_eq_true (List.mem_filter.mp hknown).2
      exact this (mem_getBlacklistedFiles.mpr ⟨o, ho, rfl⟩)

theorem inv_agentAnswers {fails : Bool} (h : Inv c s) : Inv c (s.agentAnswers c i fails) := by
  rw [Chain.agentAnswers]
  cases hq : (s.source i).request with
  | none => exact h
  | some q =>
    have hsound := h.requests i q hq
    rw [Option.elim_some]
    refine inv_updateSource h (fun q' hnone => absurd hnone (Option.not_mem_none q')) ?_
    intro a ha
    rcases List.mem_append.mp ha with hold | hnew
    · exact Or.inl hold
    · right
      rw [List.mem_singleton] at hnew
      have hfiles : ∀ files ∈ a.files, files = s.listing c i q.host q.knownFiles := by
        intro files hmem
        rw [hnew] at hmem
        cases fails with
        | true => cases hmem
        | false => exact (Option.some.inj hmem).symm
      refine ⟨?_, ?_, ?_, ?_⟩
      · rw [hnew]
        exact ⟨hsound.bound, hsound.gone⟩
      · intro k hk
        rw [hnew] at hk
        have hlt : k.2 < s.next := key_lt h.registered (fun o ho => (List.mem_filter.mp ho).1) hk
        exact hlt
      · intro files hmem o ho hdue hlisted
        rw [hfiles files hmem] at hlisted
        rw [hnew] at hdue
        obtain ⟨hmine, hfile, -⟩ := hsound.gone o ho hdue
        rw [(belongs_file hmine).2] at hfile
        exact hfile (mem_listing_iff.mp hlisted).1
      · intro files hmem o ho _ hmine hknown hlisted
        rw [hfiles files hmem] at hlisted
        rw [hnew] at hmine hknown
        exact h.gone o ho fun hfile => hlisted (mem_listing hmine hfile hknown)

theorem inv_stopWatching (h : Inv c s) : Inv c (s.stopWatching i) := by
  refine inv_updateSource h ?_ ?_
  · intro q hq
    split at hq
    · exact absurd hq (Option.not_mem_none q)
    · exact Or.inl hq
  · intro a ha
    split at ha <;> exact Or.inl ha

theorem inv_startWatching {host : String} (h : Inv c s) : Inv c (s.startWatching i host) :=
  inv_updateSource h (fun _ hq => Or.inl hq) fun _ ha => Or.inl ha

theorem inv_onDirectoryReadResultCall {replacedBy : Option String} (h : Inv c s)
    (hgood : Good c s (.directoryReadResultCall i replacedBy)) :
    Inv c (s.onDirectoryReadResultCall i replacedBy) := by
  rw [Chain.onDirectoryReadResultCall]
  cases hhead : (s.source i).answers.head? with
  | none => exact h
  | some a =>
    rw [Option.elim_some]
    have hsound := h.answers i a (List.mem_of_mem_head? hhead)
    have htaken : Inv c (s.updateSource i fun r => { r with answers := r.answers.tail }) :=
      inv_updateSource h (fun _ hq => Or.inl hq) fun _ ha => Or.inl (List.mem_of_mem_tail ha)
    dsimp only
    split
    · rename_i hwatching
      rw [updateSource_self] at hwatching
      have hcleared := inv_updateSource (i := i) htaken
        (f := fun r => { r with inDirectoryReadResultCall := false, newFiles := [] })
        (fun _ hq => Or.inl hq) fun _ ha => Or.inl ha
      cases replacedBy with
      | some host => exact inv_startWatching (inv_stopWatching hcleared)
      | none =>
        cases hfiles : a.files with
        | none => exact hcleared
        | some files =>
          obtain ⟨hknown, hgood⟩ := hgood hwatching rfl a hhead files hfiles
          have hlisted := inv_updateSource (i := i) hcleared
            (f := fun r => { r with newFiles := files })
            (fun _ hq => Or.inl hq) fun _ ha => Or.inl ha
          refine inv_updateSource (f := fun r => { r with agentRequestKnownFiles := [] })
            (inv_cleanUp hlisted ?_ ?_) (fun _ hq => Or.inl hq) fun _ ha => Or.inl ha
          · intro o ho hunknown hnew
            rw [updateSource_self, updateSource_self, updateSource_self] at hunknown
            rw [updateSource_self] at hnew
            change o.id ∉ (s.source i).agentRequestKnownFiles at hunknown
            rw [← hknown] at hunknown
            rcases hgood o ho.1 ho.2 with hold | hlisted | ⟨hmine, hstay, -⟩
            · exact absurd hold hunknown
            · exact absurd hlisted hnew
            · exact ⟨(belongs_file hmine).1,
                hsound.gone files hfiles o ho hstay hmine hunknown hnew⟩
          · intro o ho hdue
            have hnew := hsound.unlisted files hfiles o ho hdue
            have hunknown := (hsound.due.gone o ho hdue).2.2
            rw [updateSource_self, updateSource_self, updateSource_self]
            refine ⟨?_, hnew, ?_⟩
            · show o.id ∉ (s.source i).agentRequestKnownFiles
              rw [← hknown]
              exact hunknown
            · rcases hgood o ho.1 ho.2 with hold | hlisted | ⟨-, -, htask⟩
              · exact absurd hold hunknown
              · exact absurd hlisted hnew
              · exact htask
    · exact htaken

end Readings

/-! ## Files -/

section Files

variable {f : File}

/-- An order that stays due has another file. -/
theorem of_mem_due_filter {o : Order} {due : List (Nat × Nat)} (ho : Black s o)
    (h : o.key ∈ due.filter (· ∉ s.haveFile f)) : o.key ∈ due ∧ o.file ≠ f := by
  obtain ⟨hmem, hnot⟩ := List.mem_filter.mp h
  refine ⟨hmem, fun hfile => of_decide_eq_true hnot ?_⟩
  refine List.mem_map.mpr ⟨o, List.mem_filter.mpr ⟨ho.1, ?_⟩, rfl⟩
  rw [ho.2, hfile, decide_eq_true rfl, Bool.and_self]

theorem dueSound_fileCreated {q : Request} (h : DueSound c s i q) :
    DueSound c (s.fileCreated f) i { q with due := q.due.filter (· ∉ s.haveFile f) } := by
  constructor
  · intro k hk
    exact h.bound k (List.mem_filter.mp hk).1
  · intro o ho hdue
    obtain ⟨hmem, hfile⟩ := of_mem_due_filter ho hdue
    obtain ⟨hmine, hgone, hknown⟩ := h.gone o ho hmem
    refine ⟨hmine, ?_, hknown⟩
    rintro (_ | ⟨_, hold⟩)
    · exact hfile rfl
    · exact hgone hold

theorem inv_fileCreated (h : Inv c s) : Inv c (s.fileCreated f) := by
  refine ⟨h.ids, h.numbers, h.bound, ?_, ?_, ?_, ?_, ?_, ⟨h.correct.removed, h.correct.missed⟩⟩
  · intro o ho hfile
    exact h.gone o ho fun hold => hfile (List.mem_cons_of_mem _ hold)
  · intro i q hq
    obtain ⟨q', hq', rfl⟩ := Option.map_eq_some_iff.mp hq
    exact dueSound_fileCreated (h.requests i q' hq')
  · intro i a ha
    obtain ⟨a', ha', rfl⟩ := List.mem_map.mp ha
    have hsound := h.answers i a' ha'
    refine ⟨dueSound_fileCreated hsound.due, hsound.bound, ?_, hsound.gone⟩
    intro files hfiles o ho hdue
    exact hsound.unlisted files hfiles o ho (of_mem_due_filter ho hdue).1
  · intro q hq
    exact ⟨(h.questions q hq).bound, (h.questions q hq).file⟩
  · intro r hr
    exact ⟨(h.replies r hr).bound, (h.replies r hr).gone⟩

/-- The orders after a file is removed. -/
theorem mem_fileRemoved {o' : Order} (h : Black (s.fileRemoved f) o') :
    ∃ o, Black s o ∧ o' = { o with gone := o'.gone } ∧ (o.gone = true → o'.gone = true) ∧
      (o.file = f → o'.gone = true) := by
  obtain ⟨hmem, hblack⟩ := h
  obtain ⟨o, ho, rfl⟩ := List.mem_map.mp hmem
  by_cases hfile : o.file = f
  · rw [if_pos hfile] at hblack ⊢
    exact ⟨o, ⟨ho, hblack⟩, rfl, fun _ => rfl, fun _ => rfl⟩
  · rw [if_neg hfile] at hblack ⊢
    exact ⟨o, ⟨ho, hblack⟩, rfl, fun hgone => hgone, fun hf => absurd hf hfile⟩

theorem dueSound_fileRemoved {q : Request} (h : DueSound c s i q) :
    DueSound c (s.fileRemoved f) i q := by
  refine ⟨h.bound, ?_⟩
  intro o' ho' hdue
  obtain ⟨o, ho, heq, -⟩ := mem_fileRemoved ho'
  rw [heq] at hdue ⊢
  obtain ⟨hmine, hgone, hknown⟩ := h.gone o ho hdue
  exact ⟨hmine, fun hold => hgone (List.mem_filter.mp hold).1, hknown⟩

theorem inv_fileRemoved (h : Inv c s) : Inv c (s.fileRemoved f) := by
  have hids : (s.fileRemoved f).orders.map (·.id) = s.orders.map (·.id) := by
    show (s.orders.map _).map _ = _
    rw [List.map_map]
    refine List.map_congr_left fun o _ => ?_
    show (if o.file = f then { o with gone := true } else o).id = o.id
    split <;> rfl
  have hnumbers : (s.fileRemoved f).orders.map (·.number) = s.orders.map (·.number) := by
    show (s.orders.map _).map _ = _
    rw [List.map_map]
    refine List.map_congr_left fun o _ => ?_
    show (if o.file = f then { o with gone := true } else o).number = o.number
    split <;> rfl
  refine ⟨hids ▸ h.ids, hnumbers ▸ h.numbers, ?_, ?_, ?_, ?_, ?_, ?_,
    ⟨h.correct.removed, h.correct.missed⟩⟩
  · intro o' ho'
    obtain ⟨o, ho, rfl⟩ := List.mem_map.mp ho'
    have hbound := h.bound o ho
    split <;> exact hbound
  · intro o' ho' hfile
    obtain ⟨o, ho, heq, hgone, hremoved⟩ := mem_fileRemoved ho'
    by_cases hf : o.file = f
    · exact hremoved hf
    · refine hgone (h.gone o ho fun hold => hfile ?_)
      rw [heq]
      exact List.mem_filter.mpr ⟨hold, decide_eq_true hf⟩
  · intro i q hq
    exact dueSound_fileRemoved (h.requests i q hq)
  · intro i a ha
    have hsound := h.answers i a ha
    refine ⟨dueSound_fileRemoved hsound.due, hsound.bound, ?_, ?_⟩
    · intro files hfiles o' ho' hdue
      obtain ⟨o, ho, heq, -⟩ := mem_fileRemoved ho'
      rw [heq] at hdue ⊢
      exact hsound.unlisted files hfiles o ho hdue
    · intro files hfiles o' ho' hstay hmine hknown hlisted
      obtain ⟨o, ho, heq, hgone, -⟩ := mem_fileRemoved ho'
      rw [heq] at hstay hmine hknown hlisted
      exact hgone (hsound.gone files hfiles o ho hstay hmine hknown hlisted)
  · intro q hq
    refine ⟨(h.questions q hq).bound, ?_⟩
    intro o' ho' hnumber hstay
    obtain ⟨o, ho, heq, -⟩ := mem_fileRemoved ho'
    rw [heq] at hnumber hstay ⊢
    exact (h.questions q hq).file o ho hnumber hstay
  · intro r hr
    refine ⟨(h.replies r hr).bound, ?_⟩
    intro hno o' ho' hnumber hstay
    obtain ⟨o, ho, heq, hgone, -⟩ := mem_fileRemoved ho'
    rw [heq] at hnumber hstay
    obtain ⟨hfile, hold⟩ := (h.replies r hr).gone hno o ho hnumber hstay
    refine ⟨?_, hgone hold⟩
    rw [heq]
    exact hfile

end Files

/-! ## The answers of the agents -/

theorem inv_agentChecks {q : Question} {fails : Bool} (h : Inv c s) (hq : q ∈ s.questions) :
    Inv c (s.agentChecks q fails) := by
  refine h.moves (Moves.of_subset rfl rfl fun _ ho => ho) ⟨h.ids, h.numbers, h.bound⟩
    (fun _ _ hq => Or.inl hq) (fun _ _ ha => Or.inl ha)
    (fun _ hq => Or.inl (List.mem_of_mem_erase hq)) ?_ ⟨h.correct.removed, h.correct.missed⟩
  intro r hr
  have hr : r ∈ if fails = true then s.replies else _ := hr
  split at hr
  · exact Or.inl hr
  · rcases List.mem_append.mp hr with hold | hnew
    · exact Or.inl hold
    · right
      rw [List.mem_singleton] at hnew
      rw [hnew]
      refine ⟨(h.questions q hq).bound, ?_⟩
      intro hno o ho hnumber hstay
      obtain ⟨hfile, heq⟩ := (h.questions q hq).file o ho hnumber hstay
      refine ⟨hfile, h.gone o ho ?_⟩
      rw [heq]
      exact of_decide_eq_false hno

theorem inv_onFileExistsCall {r : Reply} (h : Inv c s) (hr : r ∈ s.replies)
    (hgood : Good c s (.fileExistsCall r)) : Inv c (s.onFileExistsCall r) := by
  have htaken : Inv c { s with replies := s.replies.erase r } :=
    h.moves (Moves.of_subset rfl rfl fun _ ho => ho) ⟨h.ids, h.numbers, h.bound⟩
      (fun _ _ hq => Or.inl hq) (fun _ _ ha => Or.inl ha) (fun _ hq => Or.inl hq)
      (fun _ hr => Or.inl (List.mem_of_mem_erase hr)) ⟨h.correct.removed, h.correct.missed⟩
  rw [Chain.onFileExistsCall]
  dsimp only
  split
  · exact htaken
  · rename_i hno
    cases hfind : s.orders.find? (fun o => o.number = r.number) with
    | none => exact htaken
    | some o =>
      obtain ⟨ho, hnumber⟩ := find_number hfind
      have hno := Bool.eq_false_iff.mpr hno
      obtain ⟨hblack, hstay⟩ := hgood hno o ho hnumber
      have hgone := (h.replies r hr).gone hno o ⟨ho, hblack⟩ hnumber hstay
      rw [Option.elim_some, Chain.onBlacklistedFileRemoved]
      split
      · exact htaken
      · have hrem := inv_remove (n := o.number) htaken
        refine hrem.moves (Moves.of_subset rfl rfl fun _ ho => ho)
          ⟨hrem.ids, hrem.numbers, hrem.bound⟩ (fun _ _ hq => Or.inl hq)
          (fun _ _ ha => Or.inl ha) (fun _ hq => Or.inl hq) (fun _ hr => Or.inl hr)
          ⟨?_, h.correct.missed⟩
        intro o' ho'
        rcases List.mem_append.mp ho' with hold | hnew
        · exact h.correct.removed o' hold
        · rw [List.mem_singleton] at hnew
          rw [hnew]
          exact ⟨hblack, hgone⟩

/-! ## Every run -/

theorem inv_initial (h : Initial s) : Inv c s := by
  have hnone : ∀ o, ¬ o ∈ s.orders := by
    intro o ho
    rw [h.orders] at ho
    exact absurd ho List.not_mem_nil
  refine ⟨?_, ?_, fun o ho => absurd ho (hnone o), fun o ho => absurd ho.1 (hnone o), ?_, ?_, ?_,
    ?_, ⟨?_, h.missed⟩⟩
  · rw [h.orders]
    exact List.nodup_nil
  · rw [h.orders]
    exact List.nodup_nil
  · intro i q hq
    rw [h.request i] at hq
    exact absurd hq (Option.not_mem_none q)
  · intro i a ha
    rw [h.answers i] at ha
    exact absurd ha List.not_mem_nil
  · intro q hq
    rw [h.questions] at hq
    exact absurd hq List.not_mem_nil
  · intro r hr
    rw [h.replies] at hr
    exact absurd hr List.not_mem_nil
  · intro o ho
    rw [h.removed] at ho
    exact absurd ho List.not_mem_nil

theorem inv_step {op : Op ι} (h : Inv c s) (hstep : Guarded (Good c) (Step c) s op s') :
    Inv c s' := by
  obtain ⟨hgood, hallowed, rfl⟩ := hstep
  cases op with
  | addOrder id filePath fileAgentAddress suspended isOnBlacklist => exact inv_addOrder h hallowed
  | handleEndState n => exact inv_handleEndState h
  | setState n =>
    exact inv_update h (fun _ => rfl) (fun _ => rfl) (fun _ => rfl) 
      fun _ hf => absurd hf Bool.false_ne_true
  | setSuspended n b => exact inv_setSuspended h
  | setTask n b =>
    exact inv_update h (fun _ => rfl) (fun _ => rfl) (fun _ => rfl)
      fun o ho => ⟨ho, o.suspended, b, rfl⟩
  | remove n => exact inv_remove h
  | fileCreated f => exact inv_fileCreated h
  | fileRemoved f => exact inv_fileRemoved h
  | startWatching i host => exact inv_startWatching h
  | stopWatching i => exact inv_stopWatching h
  | takeFile i =>
    exact inv_updateSource (f := fun r => { r with newFiles := r.newFiles.tail }) h
      (fun _ hq => Or.inl hq) fun _ ha => Or.inl ha
  | readDirectory i fails => exact inv_readDirectory h hgood
  | startReadNewFilesFromAgent i => exact inv_startReadNewFilesFromAgent h
  | agentAnswers i fails => exact inv_agentAnswers h
  | directoryReadResultCall i replacedBy => exact inv_onDirectoryReadResultCall h hgood
  | agentChecks q fails => exact inv_agentChecks h hallowed
  | fileExistsCall r => exact inv_onFileExistsCall h hallowed hgood

/-- If every reading has to do with its own orders only, every order is removed for
    its own file, and none is missed. -/
theorem correct_of_reach (h : Reach Initial (Guarded (Good c) (Step c)) s) : Correct s :=
  (h.invariant (I := Inv c) (fun _ h0 => inv_initial h0)
    fun _ _ _ hi hstep => inv_step hi hstep).correct

/-! ## Two directories -/

instance (c : Settings ι) (s : Chain ι) (op : Op ι) : Decidable (Good c s op) :=
  match op with
  | .readDirectory _ _ => inferInstanceAs (Decidable (_ → _ → _ ∧ _))
  | .directoryReadResultCall _ _ => inferInstanceAs (Decidable (_ → _ → _))
  | .fileExistsCall _ => inferInstanceAs (Decidable (_ → _))
  | .addOrder .. | .handleEndState _ | .setState _ | .setSuspended _ _ | .setTask _ _ | .remove _
  | .fileCreated _ | .fileRemoved _ | .startWatching _ _ | .stopWatching _ | .takeFile _
  | .startReadNewFilesFromAgent _ | .agentAnswers _ _ | .agentChecks _ _ =>
      inferInstanceAs (Decidable True)

instance (s : Chain ι) (op : Op ι) : Decidable (Allowed s op) :=
  match op with
  | .addOrder id _ _ _ _ => inferInstanceAs (Decidable (id ∉ s.orders.map (·.id)))
  | .fileCreated f => inferInstanceAs (Decidable (f ∉ s.files))
  | .startWatching i _ => inferInstanceAs (Decidable ((s.source i).isWatching = false))
  | .readDirectory _ _ | .startReadNewFilesFromAgent _ => inferInstanceAs (Decidable (_ ∧ _))
  | .agentAnswers i _ => inferInstanceAs (Decidable ((s.source i).request.isSome = true))
  | .directoryReadResultCall i _ =>
      decidable_of_iff ((s.source i).answers.isEmpty = false)
        (List.isEmpty_eq_false_iff (l := (s.source i).answers))
  | .agentChecks q _ => inferInstanceAs (Decidable (q ∈ s.questions))
  | .fileExistsCall r => inferInstanceAs (Decidable (r ∈ s.replies))
  | .handleEndState _ | .setState _ | .setSuspended _ _ | .setTask _ _ | .remove _
  | .fileRemoved _ | .stopWatching _ | .takeFile _ => inferInstanceAs (Decidable True)

def attempt (c : Settings ι) : Chain ι → Op ι → Option (Chain ι) :=
  nextIf Allowed fun s op => some (perform c s op)

theorem attempt_step (s : Chain ι) (op : Op ι) (s' : Chain ι) (h : attempt c s op = some s') :
    Step c s op s' := by
  show Guarded Allowed (fun s op s' => s' = perform c s op) s op s'
  exact nextIf_step (fun _ _ _ hs => (Option.some.inj hs).symm) h

/-- Two directories. -/
def twoDirectories : Settings Bool := ⟨fun i path => path = if i then "/b/file" else "/a/file"⟩

def emptyChain : Chain Bool where
  orders := []
  source := fun _ => ⟨false, "", [], [], false, none, []⟩
  files := [⟨"", "/b/file"⟩, ⟨"agent", "/a/file"⟩]
  questions := []
  replies := []
  next := 0
  removed := []
  missed := []

theorem initial_emptyChain : Initial emptyChain :=
  ⟨rfl, rfl, rfl, fun _ => rfl, fun _ => rfl, rfl, rfl⟩

/-- An order ends at an agent while its file is there; when the file is removed, the
    next reading removes the order. -/
def ordinary : List (Op Bool) :=
  [.startWatching false "agent", .addOrder "/a/file" "/a/file" "agent" false false,
    .startReadNewFilesFromAgent false, .handleEndState 0, .agentAnswers false false,
    .directoryReadResultCall false none, .fileRemoved ⟨"agent", "/a/file"⟩,
    .startReadNewFilesFromAgent false, .agentAnswers false false,
    .directoryReadResultCall false none]

theorem ordinary_correct :
    ((runAll (nextIf (Good twoDirectories) (attempt twoDirectories)) emptyChain ordinary).any
      fun s => s.orders.isEmpty && s.removed.length = 1) = true ∧
    ∀ s, runAll (nextIf (Good twoDirectories) (attempt twoDirectories)) emptyChain ordinary =
      some s → Correct s :=
  ⟨by decide, fun _ hrun => correct_of_reach
    (Reach.runAll (fun _ _ _ h => nextIf_step attempt_step h) (Reach.start initial_emptyChain)
      hrun)⟩

/-- The file of an order of the one directory is still there, and another order has
    been suspended at its end, when the other directory is read. -/
def otherDirectory : List (Op Bool) :=
  [.startWatching false "", .startWatching true "", .addOrder "/b/file" "/b/file" "" false false,
    .handleEndState 0, .addOrder "order" "" "" true false, .handleEndState 2,
    .readDirectory false false]

theorem otherDirectory_removes : ¬∀ (c : Settings Bool) (s : Chain Bool),
    Reach Initial (Step c) s → Correct s := by
  intro hall
  have hrun : (runAll (attempt twoDirectories) emptyChain otherDirectory).any
      (fun s => s.removed.any fun o => o.isFileOrder && !o.gone) = true := by
    decide
  obtain ⟨s, hs, hany⟩ := (Option.any_eq_true _ _).mp hrun
  obtain ⟨o, ho, hwrong⟩ := List.any_eq_true.mp hany
  have hreach := Reach.runAll (attempt_step (c := twoDirectories)) (Reach.start initial_emptyChain)
    hs
  have hgone := ((hall twoDirectories s hreach).removed o ho).2.2
  rw [hgone, Bool.not_true, Bool.and_false] at hwrong
  cases hwrong

end BlacklistedFiles
