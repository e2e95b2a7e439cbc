import Wrenyard.Js.OrderedSet
import Wrenyard.Session.EventJson

/-!
# The index row of a session

A row of `index.json` is derived from the timeline, in two ways: `applySummary` advances it by one appended event, and
`summarize` with `pendingTurnsOf` recomputes it from the whole timeline.  A flag that is only written when it is true
(`manualTitle`, `archived`, `pinned`) is a Boolean here.
-/

namespace Wrenyard.Session

open Js

/-- The outcome of the session's most recent turn. -/
structure LastTurn where
  status : TurnStatus
  finishedAt : JsString
  turn : Nat
  needsUser : Option Bool
  label : Option JsString
  errorKind : Option JsString
  errorMessage : Option JsString
  retryAt : Option JsString
deriving DecidableEq

/-- One row of `index.json`. -/
structure SessionSummary where
  sessionId : JsString
  title : JsString
  manualTitle : Bool
  archived : Bool
  pinned : Bool
  createdAt : JsString
  updatedAt : JsString
  lastTurn : Option LastTurn
  lastSeq : Option Nat
  pendingTurns : Option (List Nat)
  bytes : Option Nat
deriving DecidableEq

def DEFAULT_TITLE : JsString := js "新会话"

/-- The display title a `session.titled` event carries, when it is non-empty, and whether it is manual. -/
def titleOfEvent (event : LedgerEvent) : Option (JsString × Bool) :=
  match event.body with
  | .sessionTitled e => if trim e.text = [] then none else some (trim e.text, e.manual = some true)
  | _ => none

/-- The turn a `turn.started` event starts. -/
def startedTurn (event : LedgerEvent) : Option Nat :=
  match event.body with
  | .turnStarted _ => event.turn
  | _ => none

/-- The turn a `turn.finished` event finishes. -/
def finishedTurn (event : LedgerEvent) : Option Nat :=
  match event.body with
  | .turnFinished _ => event.turn
  | _ => none

variable (events : List LedgerEvent)

def newestStartedTurn (bound : Nat) : Option Nat :=
  (events.take bound).foldl
    (fun newest event =>
      match startedTurn event, newest with
      | some turn, some n => if turn > n then some turn else some n
      | some turn, none => some turn
      | none, newest => newest)
    none

structure FailedSpanFacts where
  errorKind : JsString
  errorMessage : JsString
  retryAt : Option JsString

/-- A present, non-empty instant, else the one before. -/
def laterInstant (previous instant : Option JsString) : Option JsString :=
  match instant with
  | some at_ => if at_ = [] then previous else some at_
  | none => previous

def failedSpanOf (turn : Nat) (event : LedgerEvent) : Option FailedSpanFacts :=
  match event.body with
  | .spanFinished { span := .model result, status := .failed, error := some error, .. } =>
    if event.turn = some turn then
      let attempts := (result.metrics.map (·.attempts)).getD []
      let routeUntil := attempts.foldl (fun retryAt attempt => laterInstant retryAt attempt.routeUntil) none
      some { errorKind := error.kind.text, errorMessage := error.message,
             retryAt := laterInstant routeUntil error.retryAt }
    else none
  | _ => none

def failedSpanFacts (bound turn : Nat) : Option FailedSpanFacts :=
  (events.take bound).foldl (fun found event => (failedSpanOf turn event).or found) none

/-- Advance the derived last-turn fact for one event; `bound` is the length of the applied prefix. -/
def lastTurnAfter (previous : Option LastTurn) (event : LedgerEvent) (events : List LedgerEvent) (bound : Nat) :
    Option LastTurn :=
  match event.body with
  | .turnStarted _ => none
  | .turnFinished e =>
    match event.turn with
    | none => previous
    | some turn =>
      let newest := newestStartedTurn events bound
      -- only the newest started turn owns the row's `lastTurn`
      if newest ≠ none ∧ newest ≠ some turn then previous
      else
        let failed := if e.status = .failed then failedSpanFacts events bound turn else none
        some
          { status := e.status, finishedAt := event.at, turn := turn, needsUser := none, label := none
            errorKind := failed.map (·.errorKind)
            errorMessage :=
              match failed with
              | some facts => some facts.errorMessage
              | none => if e.status = .failed then e.error else none
            retryAt := failed.bind (·.retryAt) }
  | .turnAttention e =>
    match previous with
    | none => none
    | some last =>
      if event.turn = some last.turn then
        some { last with needsUser := some e.needsUser, label := e.label.or last.label }
      else some last
  | _ => previous

/-- The running values of `summarize`. -/
structure SummaryState where
  createdAt : Option JsString
  updatedAt : Option JsString
  title : JsString
  manualTitle : Bool
  archived : Bool
  pinned : Bool
  lastTurn : Option LastTurn

def titleAfter (title : JsString) (manualTitle : Bool) (event : LedgerEvent) : JsString × Bool :=
  match titleOfEvent event with
  | some (title', manual) => if !manualTitle || manual then (title', manual) else (title, manualTitle)
  | none => (title, manualTitle)

def flagsAfter (archived pinned : Bool) (event : LedgerEvent) : Bool × Bool :=
  match event.body with
  | .sessionMetadata e => (e.archived.getD archived, e.pinned.getD pinned)
  | _ => (archived, pinned)

/-- One iteration of `summarize`, at the event with the given index. -/
def summarizeStep (events : List LedgerEvent) (s : SummaryState) (event : LedgerEvent) (index : Nat) :
    SummaryState where
  createdAt :=
    match event.body with
    | .sessionCreated _ => some event.at
    | _ => s.createdAt
  updatedAt := some event.at
  title := (titleAfter s.title s.manualTitle event).1
  manualTitle := (titleAfter s.title s.manualTitle event).2
  archived := (flagsAfter s.archived s.pinned event).1
  pinned := (flagsAfter s.archived s.pinned event).2
  lastTurn := lastTurnAfter s.lastTurn event events (index + 1)

/-- The values `summarize` starts from. -/
def SummaryState.initial : SummaryState where
  createdAt := none
  updatedAt := none
  title := DEFAULT_TITLE
  manualTitle := false
  archived := false
  pinned := false
  lastTurn := none

/-- The row `summarize` returns, which has no tail position yet. -/
def SummaryState.toSummary (s : SummaryState) (sessionId : JsString) : SessionSummary where
  sessionId := sessionId
  title := s.title
  manualTitle := s.manualTitle
  archived := s.archived
  pinned := s.pinned
  createdAt := (s.createdAt.or s.updatedAt).getD []
  updatedAt := s.updatedAt.getD ((s.createdAt.or s.updatedAt).getD [])
  lastTurn := s.lastTurn
  lastSeq := none
  pendingTurns := none
  bytes := none

/-- The loop of `summarize`. -/
def summaryState : SummaryState :=
  events.zipIdx.foldl (fun s e => summarizeStep events s e.1 e.2) .initial

def summarize (sessionId : JsString) (events : List LedgerEvent) : SessionSummary :=
  (summaryState events).toSummary sessionId

/-- The turns that started without a matching `turn.finished`, ascending. -/
def pendingTurnsOf (events : List LedgerEvent) : List Nat :=
  let started := OSet.ofList (events.filterMap startedTurn)
  let finished := OSet.ofList (events.filterMap finishedTurn)
  sortAscending (started.filter (· ∉ finished))

/-- The row `rebuildSummaryIfNeeded` derives from a body; an empty timeline carries none. -/
def rebuiltSummary (sessionId : JsString) (events : List LedgerEvent) (bytes : Nat) : Option SessionSummary :=
  match events.getLast? with
  | none => none
  | some last =>
    some { summarize sessionId events with
           lastSeq := some last.seq, pendingTurns := some (pendingTurnsOf events), bytes := some bytes }

def pendingTurnsAfter (previous : Option (List Nat)) (event : LedgerEvent) : List Nat :=
  let turns := OSet.ofList (previous.getD [])
  sortAscending
    (match startedTurn event, finishedTurn event with
    | some turn, _ => OSet.add turns turn
    | none, some turn => OSet.delete turns turn
    | none, none => turns)

/-- The row after one appended event; `events` is the timeline with the event, and `bytes` its size. -/
def applySummary (previous : Option SessionSummary) (sessionId : JsString) (event : LedgerEvent)
    (events : List LedgerEvent) (bytes : Nat) : SessionSummary :=
  let title := titleAfter ((previous.map (·.title)).getD DEFAULT_TITLE)
      ((previous.map (·.manualTitle)).getD false) event
  let flags := flagsAfter ((previous.map (·.archived)).getD false) ((previous.map (·.pinned)).getD false) event
  { sessionId := sessionId, title := title.1, manualTitle := title.2, archived := flags.1, pinned := flags.2
    createdAt := (previous.map (·.createdAt)).getD event.at
    updatedAt := event.at
    lastTurn := lastTurnAfter (previous.bind (·.lastTurn)) event events events.length
    lastSeq := some event.seq
    pendingTurns := some (pendingTurnsAfter (previous.bind (·.pendingTurns)) event)
    bytes := some bytes }

end Wrenyard.Session
