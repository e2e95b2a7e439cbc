import Wrenyard.Lib.Fifo
import Wrenyard.Js.OrderedSet
import Wrenyard.Session.Render

/-!
# The reasoning context

`reasoning/prompt.ts`, `renderReasonContext`: the message list of a main reasoning request.  A first pass over the
timeline indexes it: the steps whose reasoning completed, the places of the `step.started` markers, every
`action.started` as an occurrence of its own, and which `action.finished` belongs to which of them.  A second pass
emits the messages.

Dropped are the events at or below the floor of the latest compaction; rendered in reduced form are those at or below
the floor of the latest reduction.
-/

namespace Wrenyard.Session

open Js

inductive ModelContentPart where
  | text (text : JsString)
  | imageUrl (url : JsString)
deriving DecidableEq

structure ToolCall where
  id : JsString
  name : JsString
  arguments : JsString
deriving DecidableEq

inductive ModelMessage where
  | user (content : List ModelContentPart)
  | assistant (content : JsString) (toolCalls : List ToolCall)
  | tool (toolCallId : JsString) (content : JsString)
deriving DecidableEq

def latestCompaction (events : List LedgerEvent) : Option ContextCompactedEvent :=
  events.reverse.findSome? fun event =>
    match event.body with
    | .contextCompacted c => some c
    | _ => none

def latestReduction (events : List LedgerEvent) : Option ContextReducedEvent :=
  events.reverse.findSome? fun event =>
    match event.body with
    | .contextReduced r => some r
    | _ => none

def contextEvents (events : List LedgerEvent) : List LedgerEvent :=
  match latestCompaction events with
  | none => events
  | some compaction => events.filter (·.seq > compaction.throughSeq)

def reducedFloor (events : List LedgerEvent) : Option Nat :=
  match latestReduction (contextEvents events), latestCompaction events with
  | none, _ => none
  | some reduction, none => some reduction.throughSeq
  | some reduction, some compaction =>
    if reduction.throughSeq ≤ compaction.throughSeq then none else some reduction.throughSeq

def isReduced (floor : Option Nat) (event : LedgerEvent) : Bool := floor.any (event.seq ≤ ·)

/-- One `action.started`: a raw action id can repeat, so every start is an occurrence of its own. -/
structure StartOccurrence where
  index : Nat
  type : ActionType
  intent : JsString
  /-- The native tool name of a `tool` action. -/
  name : Option JsString
  /-- The reasoning step that started it: `turn:step`. -/
  key : JsString
  /-- Emitted tool-call id; the bare id for the first occurrence of that id. -/
  callId : JsString
deriving DecidableEq

/-- One `action.finished` that did not come after an interrupt. -/
structure FinishOccurrence where
  index : Nat
  event : LedgerEvent
  finished : ActionFinishedEvent

def stepKey (turn step : Option Nat) : JsString := natText (turn.getD 0) ++ js ":" ++ natText (step.getD 0)

def occurrenceKey (id : JsString) (turn step : Option Nat) : Option JsString :=
  match turn, step with
  | some turn, some step => some (id ++ js ":" ++ natText turn ++ js ":" ++ natText step)
  | _, _ => none

/-- The native tool name carried by a `tool` action's parsed input, if any. -/
def toolCallName (input : Option JsonValue) : Option JsString :=
  match (input.map Subtype.val : Option Json) with
  | some (.obj members) =>
    match OMap.get members (js "name") with
    | some (.str name) => if name = [] then none else some name
    | _ => none
  | _ => none

/-- The index of the timeline, as far as it is read. -/
structure Occurrences where
  /-- The index of the next event. -/
  next : Nat
  completedSteps : List JsString
  stepStarts : List Nat
  starts : List StartOccurrence
  /-- How many times each raw id has already appeared, in ledger order. -/
  occurrences : JsString → Nat
  /-- The starts of one `id:turn:step` still waiting for their finish, in order, and the resolved pairs. -/
  resolved : Fifo.Matching JsString StartOccurrence FinishOccurrence

namespace Occurrences

def empty : Occurrences := ⟨0, [], [], [], fun _ => 0, .empty⟩

/-- The occurrence of an `action.started` event. -/
def startOf (o : Occurrences) (event : LedgerEvent) (a : ActionStartedEvent) : StartOccurrence where
  index := o.next
  type := a.type
  intent := a.prompt
  name := if a.type = .tool then toolCallName a.input else none
  key := stepKey event.turn event.step
  -- the first occurrence keeps the bare id; a reuse gets a stable id from its own event
  callId :=
    if o.occurrences a.id = 0 then a.id
    else
      a.id ++ js "_" ++ natText (event.turn.getD 0) ++ js "_" ++ natText (event.step.getD 0) ++ js "_" ++
        natText event.seq

def add (o : Occurrences) (event : LedgerEvent) : Occurrences :=
  match event.body with
  | .actionStarted a =>
    { o with
      next := o.next + 1
      starts := o.starts ++ [o.startOf event a]
      occurrences := Function.update o.occurrences a.id (o.occurrences a.id + 1)
      resolved :=
        match occurrenceKey a.id event.turn event.step with
        | none => o.resolved
        | some key => o.resolved.opened key (o.startOf event a) }
  | .actionFinished f =>
    { o with
      next := o.next + 1
      resolved :=
        if f.afterInterrupt = some true then o.resolved
        else
          match occurrenceKey f.id event.turn event.step with
          | none => o.resolved
          | some key => o.resolved.closed key ⟨o.next, event, f⟩ }
  | .reasoningCompleted _ =>
    { o with next := o.next + 1, completedSteps := OSet.add o.completedSteps (stepKey event.turn event.step) }
  | .stepStarted _ => { o with next := o.next + 1, stepStarts := o.stepStarts ++ [o.next] }
  | _ => { o with next := o.next + 1 }

/-- The index of a whole timeline. -/
def ofEvents (events : List LedgerEvent) : Occurrences := events.foldl add empty

/-- `start.finish`. -/
def finishFor (o : Occurrences) (start : StartOccurrence) : Option FinishOccurrence :=
  (o.resolved.pairs.find? fun pair => pair.1.index == start.index).map Prod.snd

/-- `finishByIndex.get(index)?.start`. -/
def startFor (o : Occurrences) (index : Nat) : Option StartOccurrence :=
  (o.resolved.pairs.find? fun pair => pair.2.index == index).map Prod.fst

/-- `startByIndex.get(index)`. -/
def startAt (o : Occurrences) (index : Nat) : Option StartOccurrence := o.starts.find? (·.index == index)

def isNative (o : Occurrences) (start : StartOccurrence) : Bool := decide (start.key ∈ o.completedSteps)

/-- The result was not yet available when some later request was assembled. -/
def arrivedLate (o : Occurrences) (start : StartOccurrence) : Bool :=
  o.stepStarts.any fun place =>
    decide (start.index < place) && (o.finishFor start).all fun finish => decide (place < finish.index)

end Occurrences

def renderCompactionBlock (c : ContextCompactedEvent) : JsString :=
  tag "wy-compaction"
    [("through-seq", some (natText c.throughSeq)), ("context-window", c.contextWindow.map natText),
      ("estimated-input-tokens", c.estimatedInputTokens.map natText)]
    (some (match c.failure with
      | none => escapeBody c.summary
      | some failure => unlines [escapeBody c.summary, escapeBody (js "compaction failed: " ++ failure)]))

structure MessageBuilder where
  messages : List ModelMessage
  parts : List ModelContentPart
  buffer : JsString

namespace MessageBuilder

def empty : MessageBuilder := ⟨[], [], []⟩

def pushText (b : MessageBuilder) (text : JsString) : MessageBuilder :=
  { b with buffer := if b.buffer = [] then text else b.buffer ++ [lf] ++ text }

def flushText (b : MessageBuilder) : MessageBuilder :=
  { b with
    parts := if b.buffer = [] then b.parts else b.parts ++ [.text (b.buffer ++ [lf])]
    buffer := [] }

def endUserMessage (b : MessageBuilder) : MessageBuilder :=
  let b := b.flushText
  { b with
    messages := if b.parts = [] then b.messages else b.messages ++ [.user b.parts]
    parts := [] }

def pushImage (b : MessageBuilder) (url : JsString) : MessageBuilder :=
  let b := b.flushText
  { b with parts := b.parts ++ [.imageUrl url] }

def push (b : MessageBuilder) (message : ModelMessage) : MessageBuilder :=
  { b with messages := b.messages ++ [message] }

end MessageBuilder

section

variable (encodeLength : JsString → Nat) (images : JsString → Option JsString) (floor : Option Nat)

def actionResultText (f : ActionFinishedEvent) (reduced : Bool) : JsString :=
  let full := if f.result = [] then js "(no output)" else f.result
  let result :=
    if reduced then cutReleasedTokens encodeLength full REDUCED_RESULT_LIMIT REDUCED_RESULT_HEAD REDUCED_RESULT_TAIL
    else full
  if f.status = .done then result else js "[" ++ f.status.text ++ js "] " ++ result

def render (event : LedgerEvent) : Option JsString := renderEventText encodeLength (isReduced floor event) event

def argumentText (reduced : Bool) (intent : JsString) : JsString :=
  if reduced then cutReleasedChars intent REDUCED_ARGUMENT_LIMIT REDUCED_ARGUMENT_HEAD REDUCED_ARGUMENT_TAIL
    else intent

/-- A `tool` action replays under its own native name; every built-in action keeps the `wy_action` shape. -/
def toolCallOf (reduced : Bool) (start : StartOccurrence) : ToolCall :=
  if start.type = .tool then ⟨start.callId, start.name.getD [], argumentText reduced start.intent⟩
  else
    ⟨start.callId, js "wy_action",
      Json.stringify (.obj [(js "type", .str start.type.text),
        (js "intent", .str (argumentText reduced start.intent))])⟩

def toolResult (o : Occurrences) (start : StartOccurrence) : JsString :=
  match o.finishFor start with
  | none => ACTION_RUNNING
  | some finish =>
    if o.arrivedLate start then ACTION_RUNNING
    else actionResultText encodeLength finish.finished (isReduced floor finish.event)

def imageOf (file : SessionFile) : Option JsString :=
  match file.kind, file.processedPath with
  | .image, some path => images path
  | _, _ => none

def appendEvent (o : Occurrences) (b : MessageBuilder) (index : Nat) (event : LedgerEvent) : MessageBuilder :=
  match event.body with
  | .filesAttached f =>
    -- a cold attachment carries no image parts
    if isReduced floor event then b.pushText ((render encodeLength floor event).getD [])
    else (f.files.filterMap (imageOf images)).foldl (·.pushImage ·) (b.pushText (renderFiles event f))
  | .reasoningThinking _ => b
  | .actionStarted _ =>
    if (o.startAt index).any o.isNative then b else b.pushText ((render encodeLength floor event).getD [])
  | .reasoningCompleted r =>
    let calls := o.starts.filter (·.key == stepKey event.turn event.step)
    if r.text = [] ∧ calls = [] then b
    else
      let reduced := isReduced floor event
      let text :=
        if reduced then cutReleasedChars r.text REDUCED_TEXT_LIMIT REDUCED_TEXT_HEAD REDUCED_TEXT_TAIL else r.text
      calls.foldl (fun b start => b.push (.tool start.callId (toolResult encodeLength floor o start)))
        (b.endUserMessage.push (.assistant text (calls.map (toolCallOf reduced))))
  | .actionFinished f =>
    if f.afterInterrupt = some true then b
    -- a late or orphaned result stays an `<action-result>` record
    else if (o.startFor index).any fun start => o.isNative start && !o.arrivedLate start then b
    else b.pushText ((render encodeLength floor event).getD [])
  | .stepStarted _ => (b.pushText ((render encodeLength floor event).getD [])).endUserMessage
  | .contextCompacted c => b.pushText (renderCompactionBlock c)
  | _ =>
    match render encodeLength floor event with
    | none => b
    | some text => b.pushText text

def appendEvents (o : Occurrences) : MessageBuilder → Nat → List LedgerEvent → MessageBuilder
  | b, _, [] => b
  | b, index, event :: events =>
    appendEvents o (appendEvent encodeLength images floor o b index event) (index + 1) events

end

def renderReasonContext (encodeLength : JsString → Nat) (images : JsString → Option JsString)
    (allowImages : Option Bool) (events : List LedgerEvent) : List ModelMessage :=
  let images := if allowImages = some false then fun _ => none else images
  let o := Occurrences.ofEvents (contextEvents events)
  (appendEvents encodeLength images (reducedFloor events) o .empty 0 (contextEvents events)).endUserMessage.messages

end Wrenyard.Session
