import Wrenyard.Lib.Transition
import Wrenyard.Session.DocumentCommit
import Wrenyard.Session.SummaryAgree
import Wrenyard.Session.TimelineFile

/-!
# The ledger

`Ledger` in `ledger/store.ts` as a machine: the timeline files and `index.json` on disk, the rows and the loaded
timelines in memory, the one mutation that runs (the append queue is serialized) and the one index write that runs (so
is the write chain).  A step is what happens between two awaits, so that reads, index writes and crashes fall between
any two steps of a mutation; a write of a line can be cut anywhere.

Listeners are left out, and a debounced index write may begin at any time.
-/

namespace Wrenyard.Session

open Js Transition

def MAX_CACHED_SESSIONS : Nat := 16

def MAX_CACHED_BYTES : Nat := 64 * 1024 * 1024

def MAX_CACHED_EVENTS : Nat := 60000

structure TimelineFile where
  lines : List EventObject
  tail : List UInt8

namespace TimelineFile

def empty : TimelineFile := ⟨[], []⟩

def bytes (f : TimelineFile) : List UInt8 := timelineBytes f.lines ++ f.tail

def size (f : TimelineFile) : Nat := f.bytes.length

/-- Write some bytes of the line of `o`. -/
def write (f : TimelineFile) (o : EventObject) (chunk : List UInt8) : TimelineFile :=
  if f.tail ++ chunk = lineOf o ++ [10] then ⟨f.lines ++ [o], []⟩ else ⟨f.lines, f.tail ++ chunk⟩

/-- The events of the file, each as `normalizeStoredEvent` returns it. -/
def events (f : TimelineFile) : List LedgerEvent := f.lines.map fun o => o.event.reload

/-- `parseSessionFile`, and the truncation of a torn line.  A newline after the complete lines would close a line that
no event was written as. -/
def load (f : TimelineFile) (file : JsString) : Except LedgerError (List LedgerEvent × TimelineFile) :=
  if f.tail.contains 10 then .error (.error (js "session ledger is corrupt at " ++ file))
  else .ok (f.events, ⟨f.lines, []⟩)

end TimelineFile

/-- A loaded timeline; `array` is the identity of its array of events. -/
structure LoadedSession where
  array : Nat
  events : List LedgerEvent
  bytes : Nat

/-- What the process holds. -/
structure Memory where
  summaries : OMap JsString SessionSummary
  /-- Loaded timelines in access order: the oldest entry is evicted first. -/
  events : OMap JsString LoadedSession
  staleSummaries : List JsString
  pinned : List JsString
  cachedBytes : Int
  cachedEvents : Int
  nextArray : Nat

namespace Memory

def empty : Memory where
  summaries := []
  events := []
  staleSummaries := []
  pinned := []
  cachedBytes := 0
  cachedEvents := 0
  nextArray := 0

/-- Mark one resident timeline as most recently used. -/
def touch (m : Memory) (sessionId : JsString) (entry : LoadedSession) : Memory :=
  { m with events := (m.events.delete sessionId).set sessionId entry }

def dropSession (m : Memory) (sessionId : JsString) : Memory :=
  match m.events.get sessionId with
  | none => m
  | some entry =>
    { m with
      events := m.events.delete sessionId
      cachedBytes := m.cachedBytes - entry.bytes
      cachedEvents := m.cachedEvents - entry.events.length }

/-- A cap on the loaded timelines is exceeded. -/
def overCaps (m : Memory) : Bool :=
  decide (MAX_CACHED_SESSIONS < m.events.length) || decide ((MAX_CACHED_BYTES : Int) < m.cachedBytes) ||
    decide ((MAX_CACHED_EVENTS : Int) < m.cachedEvents)

/-- The loop of `evictSessions`, for as many rounds as there are entries. -/
def evictRounds (m : Memory) : Nat → Memory
  | 0 => m
  | rounds + 1 =>
    if m.overCaps then
      match m.events.keys.find? fun sessionId => !m.pinned.contains sessionId with
      | none => m
      | some oldest => (m.dropSession oldest).evictRounds rounds
    else m

/-- Evict from the least recently used end until every cap holds; a pinned session is skipped. -/
def evictSessions (m : Memory) : Memory := m.evictRounds m.events.length

def storeSession (m : Memory) (sessionId : JsString) (entry : LoadedSession) : Memory :=
  let m := m.dropSession sessionId
  evictSessions
    { m with
      events := m.events.set sessionId entry
      cachedBytes := m.cachedBytes + entry.bytes
      cachedEvents := m.cachedEvents + entry.events.length }

/-- Replace a placeholder or stale row with one derived from the body that was just parsed. -/
def rebuildSummaryIfNeeded (m : Memory) (sessionId : JsString) (events : List LedgerEvent) (bytes : Nat) : Memory :=
  match m.summaries.get sessionId, m.staleSummaries.contains sessionId with
  | some existing, false => { m with summaries := m.summaries.set sessionId { existing with bytes := some bytes } }
  | existing, _ =>
    match rebuiltSummary sessionId events bytes, existing with
    | some row, _ =>
      { m with summaries := m.summaries.set sessionId row, staleSummaries := OSet.delete m.staleSummaries sessionId }
    | none, some existing =>
      { m with summaries := m.summaries.set sessionId { existing with bytes := some bytes } }
    | none, none => m

/-- The `catch` and `finally` of an append. -/
def abandon (m : Memory) (sessionId : JsString) : Memory :=
  let m := m.dropSession sessionId
  evictSessions
    { m with
      staleSummaries := OSet.add m.staleSummaries sessionId
      pinned := OSet.delete m.pinned sessionId }

/-- The `finally` of an append. -/
def release (m : Memory) (sessionId : JsString) : Memory :=
  evictSessions { m with pinned := OSet.delete m.pinned sessionId }

end Memory

structure LedgerPage where
  events : List LedgerEvent
  lastSeq : Nat
  hasMore : Bool
deriving DecidableEq

/-- The binary search of `firstSeqAfter`, for as many rounds as the interval is long. -/
def searchSeqAfter (events : List LedgerEvent) (afterSeq : Int) (low high : Nat) : Nat → Nat
  | 0 => low
  | rounds + 1 =>
    if low < high then
      let middle := (low + high) / 2
      match events[middle]? with
      | some event =>
        if (event.seq : Int) ≤ afterSeq then searchSeqAfter events afterSeq (middle + 1) high rounds
        else searchSeqAfter events afterSeq low middle rounds
      | none => low
    else low

/-- The index of the first event whose `seq` is greater than `afterSeq`. -/
def firstSeqAfter (events : List LedgerEvent) (afterSeq : Int) : Nat :=
  searchSeqAfter events afterSeq 0 events.length events.length

def pageWidth (events : List LedgerEvent) (limit : Option Int) : Nat :=
  match limit with
  | some limit => limit.toNat
  | none => events.length

/-- Slice the bounded page after `afterSeq` out of one timeline. -/
def pageOf (events : List LedgerEvent) (afterSeq : Int) (limit : Option Int) : LedgerPage :=
  let start := firstSeqAfter events afterSeq
  let stop := min events.length (start + pageWidth events limit)
  { events := (events.drop start).take (stop - start), lastSeq := lastSeq events,
    hasMore := decide (stop < events.length) }

/-- The order of the members of a stored draft is the caller's. -/
structure Layout where
  object : LedgerEventDraft → DraftObject
  draft_object : ∀ draft, (object draft).draft = draft

/-- The mutation at the head of the queue, at one of its awaits. -/
inductive Job where
  /-- Writing the line of `o`, of which `written` bytes are in the file once it is open. -/
  | appending (sessionId : JsString) (o : EventObject) (array : Nat) (events : List LedgerEvent)
    (written : Option Nat)
  /-- Waiting for the index write of a lifecycle event. -/
  | flushing (sessionId : JsString) (event : LedgerEvent)
  /-- Waiting for the removal of the timeline file. -/
  | removing (sessionId : JsString)
  /-- Waiting for the index write of a deletion. -/
  | forgetting (sessionId : JsString)

/-- An index write: the rows it writes, and whether the job waits for it. -/
structure Flush where
  rows : List SessionSummary
  own : Bool

/-- The directory of a workspace and the process that serves it. -/
structure LedgerMachine where
  files : OMap JsString TimelineFile
  index : Option (List SessionSummary)
  memory : Memory
  job : Option Job
  flush : Option Flush

def LedgerMachine.initial : LedgerMachine where
  files := []
  index := none
  memory := .empty
  job := none
  flush := none

inductive LedgerAction where
  | append (sessionId : JsString) (w : Workspace) (draft : LedgerEventDraft) (layout : Layout) (documentCommit : Bool)
      (time : JsString)
  | openFile
  | writeBytes (n : Nat)
  | finishWrite
  | failAppend (code : Option JsString)
  | beginFlush (own : Bool)
  | endFlush (ok : Bool)
  | read (sessionId : JsString)
  | readPage (sessionId : JsString) (afterSeq : Int) (limit : Option Int)
  | delete (sessionId : JsString)
  | removeFile (ok : Bool)
  | restart (times : JsString → JsString × JsString)

/-- What a caller sees of a step. -/
inductive Outcome where
  | silent
  | resolved (sessionId : JsString) (event : Option LedgerEvent)
  | rejected (sessionId : JsString) (error : LedgerError)
  | timeline (sessionId : JsString) (events : List LedgerEvent)
  | page (sessionId : JsString) (page : LedgerPage)
  | removed (sessionId : JsString)
  | deleted (sessionId : JsString)
deriving DecidableEq

/-- The resident timeline, or the one the file holds. -/
def loadSessionSync (s : LedgerMachine) (sessionId : JsString) : Except LedgerError (LoadedSession × LedgerMachine) :=
  match s.memory.events.get sessionId with
  | some cached => .ok (cached, { s with memory := s.memory.touch sessionId cached })
  | none =>
    let file := s.files.get sessionId
    match (file.map fun f => f.load sessionId).getD (.ok ([], .empty)) with
    | .error e => .error e
    | .ok (events, loaded) =>
      let entry : LoadedSession := ⟨s.memory.nextArray, events, loaded.size⟩
      let memory := { s.memory with nextArray := s.memory.nextArray + 1 }
      let memory := (memory.rebuildSummaryIfNeeded sessionId events loaded.size).storeSession sessionId entry
      .ok (entry, { s with
        files := if file.isSome then s.files.set sessionId loaded else s.files
        memory := memory })

def unknownSession (sessionId : JsString) : LedgerError := .error (js "Unknown session: " ++ sessionId)

/-- The tail position of a row that describes its file. -/
def trustedTail (m : Memory) (sessionId : JsString) : Option Nat :=
  if m.staleSummaries.contains sessionId then none else (m.summaries.get sessionId).bind (·.lastSeq)

def read (s : LedgerMachine) (sessionId : JsString) : Except LedgerError (List LedgerEvent × LedgerMachine) := do
  assertSessionId sessionId
  let (entry, s) ← loadSessionSync s sessionId
  return (entry.events, s)

def loadPage (s : LedgerMachine) (sessionId : JsString) (afterSeq : Int) (limit : Option Int) :
    Outcome × LedgerMachine :=
  match loadSessionSync s sessionId with
  | .error e => (.rejected sessionId e, s)
  | .ok (entry, s) =>
    if entry.events = [] then (.rejected sessionId (unknownSession sessionId), s)
    else (.page sessionId (pageOf entry.events afterSeq limit), s)

def readPage (s : LedgerMachine) (sessionId : JsString) (afterSeq : Int) (limit : Option Int) :
    Outcome × LedgerMachine :=
  match assertSessionId sessionId, s.memory.events.get sessionId with
  | .error e, _ => (.rejected sessionId e, s)
  | .ok (), some cached =>
    (.page sessionId (pageOf cached.events afterSeq limit), { s with memory := s.memory.touch sessionId cached })
  | .ok (), none =>
    -- a session that is neither resident nor on disk cannot serve a page
    if s.files.has sessionId = false then (.rejected sessionId (unknownSession sessionId), s)
    else
      match trustedTail s.memory sessionId with
      | some tail =>
        if (tail : Int) ≤ afterSeq then (.page sessionId ⟨[], tail, false⟩, s)
        else loadPage s sessionId afterSeq limit
      | none => loadPage s sessionId afterSeq limit

/-- Whether an event flushes the index before its append resolves. -/
def isLifecycleEvent (event : LedgerEvent) : Bool :=
  match event.body with
  | .sessionCreated _ => true
  | .turnStarted _ => true
  | .turnInterrupted _ => true
  | .turnFinished _ => true
  | _ => false

section

variable (diff : LineDiff) (contentVersion : JsString → JsString)

/-- The part of `appendNow` before its first await. -/
def startAppend (s : LedgerMachine) (sessionId : JsString) (w : Workspace) (draft : LedgerEventDraft)
    (layout : Layout)
    (documentCommit : Bool) (time : JsString) : LedgerMachine × Outcome :=
  match assertSessionId sessionId with
  | .error e => (s, .rejected sessionId e)
  | .ok () =>
    let s := { s with memory := { s.memory with pinned := OSet.add s.memory.pinned sessionId } }
    match loadSessionSync s sessionId with
    | .error e => ({ s with memory := s.memory.abandon sessionId }, .rejected sessionId e)
    | .ok (entry, s) =>
      match acceptDraft diff contentVersion w entry.events draft documentCommit with
      | .error e => ({ s with memory := s.memory.abandon sessionId }, .rejected sessionId e)
      | .ok (.existing event) => ({ s with memory := s.memory.release sessionId }, .resolved sessionId event)
      | .ok (.store draft) =>
        let o := (layout.object draft).stamp (lastSeq entry.events + 1) time
        ({ s with job := some (.appending sessionId o entry.array entry.events none) }, .silent)

end

def Memory.push (m : Memory) (sessionId : JsString) (array : Nat) (events : List LedgerEvent)
    (lineBytes : Nat) : Memory :=
  match m.events.get sessionId with
  | none => m
  | some entry =>
    if entry.array = array then
      { m with
        events := m.events.set sessionId { entry with events := events, bytes := entry.bytes + lineBytes }
        cachedBytes := m.cachedBytes + lineBytes
        cachedEvents := m.cachedEvents + 1 }
    else m

/-- `Ledger.applySummary`: advance the session's row, which then describes its timeline. -/
def Memory.applySummary (m : Memory) (sessionId : JsString) (event : LedgerEvent) (events : List LedgerEvent)
    (bytes : Nat) : Memory :=
  { m with
    summaries := m.summaries.set sessionId
      (Session.applySummary (m.summaries.get sessionId) sessionId event events bytes)
    staleSummaries := OSet.delete m.staleSummaries sessionId }

/-- The part of `appendNow` after its line is written. -/
def finishWrite (s : LedgerMachine) (sessionId : JsString) (o : EventObject) (array : Nat)
    (events : List LedgerEvent) :
    LedgerMachine × Outcome :=
  let lineBytes := (lineOf o).length + 1
  let events := events ++ [o.event]
  let previousBytes := ((s.memory.summaries.get sessionId).bind (·.bytes)).getD 0
  let memory := (s.memory.push sessionId array events lineBytes).applySummary sessionId o.event events
    (previousBytes + lineBytes)
  if isLifecycleEvent o.event then
    ({ s with memory := memory, job := some (.flushing sessionId o.event) }, .silent)
  else ({ s with memory := memory.release sessionId, job := none }, .resolved sessionId (some o.event))

/-- The job that waits for an index write, when it ends. -/
def finishFlush (s : LedgerMachine) (job : Job) (ok : Bool) : LedgerMachine × Outcome :=
  match job with
  | .flushing sessionId event =>
    if ok then ({ s with memory := s.memory.release sessionId, job := none }, .resolved sessionId (some event))
    else ({ s with memory := s.memory.abandon sessionId, job := none }, .rejected sessionId (.io none))
  | .forgetting sessionId =>
    if ok then ({ s with job := none }, .deleted sessionId)
    else ({ s with job := none }, .rejected sessionId (.io none))
  | _ => (s, .silent)

/-- The job waits for an index write. -/
def Job.awaitsFlush : Job → Bool
  | .flushing .. => true
  | .forgetting .. => true
  | _ => false

/-- The part of `deleteSessionNow` before its first await. -/
def startDelete (s : LedgerMachine) (sessionId : JsString) : LedgerMachine × Outcome :=
  match assertSessionId sessionId with
  | .error e => (s, .rejected sessionId e)
  | .ok () =>
    if s.memory.summaries.has sessionId || s.memory.events.has sessionId || s.files.has sessionId then
      let memory := s.memory.dropSession sessionId
      let memory := { memory with
        summaries := memory.summaries.delete sessionId
        staleSummaries := OSet.delete memory.staleSummaries sessionId }
      ({ s with memory := memory, job := some (.removing sessionId) }, .silent)
    else (s, .rejected sessionId (.error (js "unknown session: " ++ sessionId)))

/-- Validate one persisted `lastTurn`; an invalid fact is dropped as a whole. -/
def readLastTurn (last : LastTurn) : Option LastTurn :=
  if last.turn < 1 then none
  else some { last with needsUser := if last.needsUser = some true then some true else none }

def readPendingTurns (turns : List Nat) : Option (List Nat) :=
  if turns.any (· < 1) then none else some (sortAscending turns)

def readSummary (row : SessionSummary) : SessionSummary :=
  { row with lastTurn := row.lastTurn.bind readLastTurn, pendingTurns := row.pendingTurns.bind readPendingTurns }

/-- One row of the loop of `loadIndexSync`: it is stale until the directory confirms its size. -/
def loadIndexRow (m : Memory) (row : SessionSummary) : Memory :=
  { m with
    summaries := m.summaries.set row.sessionId (readSummary row)
    staleSummaries := OSet.add m.staleSummaries row.sessionId }

def loadIndexSync (index : Option (List SessionSummary)) : Memory := (index.getD []).foldl loadIndexRow .empty

/-- The row of a timeline file at startup, and whether it is stale. -/
def reconcileRow (sessionId : JsString) (row : Option SessionSummary) (size : Nat) (times : JsString × JsString) :
    SessionSummary × Bool :=
  match row with
  | none =>
    ({ sessionId := sessionId, title := DEFAULT_TITLE, manualTitle := false, archived := false, pinned := false
       createdAt := times.1, updatedAt := times.2, lastTurn := none, lastSeq := none, pendingTurns := none
       bytes := some size }, true)
  | some row =>
    if row.lastSeq.isSome && row.pendingTurns.isSome && row.bytes == some size then (row, false)
    else ({ row with lastSeq := none, pendingTurns := none, bytes := some size }, true)

/-- One file of the loop of `reconcileIndexSync`. -/
def reconcileFile (times : JsString → JsString × JsString) (m : Memory) (e : JsString × TimelineFile) : Memory :=
  let (row, stale) := reconcileRow e.1 (m.summaries.get e.1) e.2.size (times e.1)
  { m with
    summaries := m.summaries.set e.1 row
    staleSummaries := if stale then OSet.add m.staleSummaries e.1 else OSet.delete m.staleSummaries e.1 }

/-- `reconcileIndexSync`, without the write of the index. -/
def reconcileIndexSync (m : Memory) (files : OMap JsString TimelineFile) (times : JsString → JsString × JsString) :
    Memory :=
  files.foldl (reconcileFile times)
    { m with
      summaries := m.summaries.filter fun e => files.has e.1
      staleSummaries := m.staleSummaries.filter fun sessionId => files.has sessionId }

/-- `indexFile`: the rows an index write stores. -/
def Memory.indexRows (m : Memory) : List SessionSummary := m.summaries.map Prod.snd

/-- A crash, and the constructor of the next process. -/
def restart (s : LedgerMachine) (times : JsString → JsString × JsString) : LedgerMachine :=
  let loaded := loadIndexSync s.index
  let memory := reconcileIndexSync loaded s.files times
  { files := s.files
    index := if memory.indexRows = loaded.indexRows then s.index else some memory.indexRows
    memory := memory
    job := none
    flush := none }

section

variable (diff : LineDiff) (contentVersion : JsString → JsString)

def ledgerStep (s : LedgerMachine) : LedgerAction → Option (LedgerMachine × Outcome)
  | .append sessionId w draft layout documentCommit time =>
    if s.job.isNone then some (startAppend diff contentVersion s sessionId w draft layout documentCommit time)
      else none
  | .openFile =>
    match s.job with
    | some (.appending sessionId o array events none) =>
      let files := if s.files.has sessionId then s.files else s.files.set sessionId .empty
      some ({ s with files := files, job := some (.appending sessionId o array events (some 0)) }, .silent)
    | _ => none
  | .writeBytes n =>
    match s.job with
    | some (.appending sessionId o array events (some written)) =>
      let line := lineOf o ++ [10]
      let f := (s.files.get sessionId).getD .empty
      some ({ s with
        files := s.files.set sessionId (f.write o ((line.drop written).take n))
        job := some (.appending sessionId o array events (some (min line.length (written + n)))) }, .silent)
    | _ => none
  | .finishWrite =>
    match s.job with
    | some (.appending sessionId o array events (some written)) =>
      if written = (lineOf o ++ [10]).length then some (finishWrite s sessionId o array events) else none
    | _ => none
  | .failAppend code =>
    match s.job with
    | some (.appending sessionId _ _ _ _) =>
      some ({ s with memory := s.memory.abandon sessionId, job := none }, .rejected sessionId (.io code))
    | _ => none
  | .beginFlush own =>
    if s.flush.isNone && (!own || s.job.any (·.awaitsFlush)) then
      some ({ s with flush := some ⟨s.memory.indexRows, own⟩ }, .silent)
    else none
  | .endFlush ok =>
    match s.flush with
    | none => none
    | some flush =>
      let s := { s with index := if ok then some flush.rows else s.index, flush := none }
      match flush.own, s.job with
      | true, some job => some (finishFlush s job ok)
      | _, _ => some (s, .silent)
  | .read sessionId =>
    match read s sessionId with
    | .error e => some (s, .rejected sessionId e)
    | .ok (events, s) => some (s, .timeline sessionId events)
  | .readPage sessionId afterSeq limit =>
    let (outcome, s) := readPage s sessionId afterSeq limit
    some (s, outcome)
  | .delete sessionId => if s.job.isNone then some (startDelete s sessionId) else none
  | .removeFile ok =>
    match s.job with
    | some (.removing sessionId) =>
      if ok then
        some ({ s with files := s.files.delete sessionId, job := some (.forgetting sessionId) }, .removed sessionId)
      else some ({ s with job := none }, .rejected sessionId (.io none))
    | _ => none
  | .restart times => some (restart s times, .silent)

abbrev LedgerStep : LedgerMachine → LedgerAction × Outcome → LedgerMachine → Prop :=
  StepOf (ledgerStep diff contentVersion)

end

end Wrenyard.Session
