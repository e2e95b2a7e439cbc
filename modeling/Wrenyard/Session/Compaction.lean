import Wrenyard.Session.DocumentCommit
import Wrenyard.Session.Reduction

/-!
# Context compaction

`context/compaction.ts` and `turn/compaction.ts`: what a summary covers, the note it leaves, and `prepare`, which
brings the request of a step under its budget by a reduction, a compaction and a second compaction with a smaller
tail.

The tokenizer (`encodeLength`), the summarising model call and the size of the view built from a timeline are
parameters.  Other parts of the session append events while `prepare` waits; requests of one session are queued, so
none of these is a floor.
-/

namespace Wrenyard.Session

open Js

def COMPACTION_MAX_OUTPUT_TOKENS : Nat := 6000
def COMPACTION_THRESHOLD_CAP : Int := 120000
def CONTEXT_OUTPUT_RESERVATION_CAP : Nat := 32768

/-- The limits of a model that bound a request. -/
structure ModelMetadata where
  contextWindow : Option Nat
  maxInputTokens : Option Nat
  maxOutputTokens : Option Nat

def boundedOutputReservation (maxOutputTokens : Option Nat) : Option Nat :=
  maxOutputTokens.map (min · CONTEXT_OUTPUT_RESERVATION_CAP)

/-- The size above which a request compacts: half the room left after the reservation, the cap and the input limit. -/
def compactionThreshold (metadata : ModelMetadata) (contextWindow outputReservation : Nat) : Int :=
  min (min (((contextWindow : Int) - outputReservation) / 2) COMPACTION_THRESHOLD_CAP)
    ((metadata.maxInputTokens.map Int.ofNat).getD MAX_SAFE_INTEGER)

structure ContextBudgetFacts where
  contextWindow : Option Nat
  estimatedInputTokens : Nat
  outputReservation : Option Nat
  threshold : Option Int

def contextBudgetOf (metadata : ModelMetadata) (estimatedInputTokens : Nat) (requestedMaxOutputTokens : Option Nat) :
    ContextBudgetFacts :=
  let sourceMax := boundedOutputReservation metadata.maxOutputTokens
  let bounded := match requestedMaxOutputTokens, sourceMax with
    | some requested, some sourceMax => some (min requested sourceMax)
    | requested, sourceMax => requested.or sourceMax
  -- the room left after the input is never negative here: natural subtraction stops at 0
  let outputReservation := bounded.map fun bounded =>
    (metadata.contextWindow.map fun window => min bounded (window - estimatedInputTokens)).getD bounded
  { contextWindow := metadata.contextWindow
    estimatedInputTokens
    outputReservation
    threshold := match metadata.contextWindow, outputReservation with
      | some window, some reservation => some (compactionThreshold metadata window reservation)
      | _, _ => none }

/-- `text.replace(/\s+/gu, ' ')`; `inside` holds within a run of white space. -/
def collapseSpace : Bool → JsString → JsString
  | _, [] => []
  | inside, u :: s =>
    if isSpace u then if inside then collapseSpace true s else 32 :: collapseSpace true s
    else u :: collapseSpace false s

def oneLine (text : JsString) : JsString :=
  let line := trim (collapseSpace false text)
  if line.length > 220 then line.take 217 ++ js "..." else line

/-- `lines.slice(-n)`. -/
def lastLines (n : Nat) (lines : List JsString) : List JsString := lines.drop (lines.length - n)

def factKey (id : JsString) (event : LedgerEvent) : JsString :=
  id ++ js ":" ++ natText (event.turn.getD 0) ++ js ":" ++ natText (event.step.getD 0)

/-- The title an `action.titled` gives an action. -/
def actionTitle (id : JsString) (event : LedgerEvent) : Option JsString :=
  match event.body with
  | .actionTitled a => if a.id = id then some a.title else none
  | _ => none

def repliedLine (event : LedgerEvent) : Option JsString :=
  match event.body with
  | .replySent r => some (js "- " ++ oneLine r.text)
  | _ => none

def worktreeLine (event : LedgerEvent) : Option JsString :=
  match event.body with
  | .workspaceChanged w =>
    if w.scope = .document ∧ w.worktreeId = none then none
    else
      let parts := [w.change.text, w.target, (w.worktreeId.map fun id => js "(" ++ id ++ js ")").getD []]
      some (js "- " ++ oneLine ((js " ").intercalate (parts.filter (· ≠ []))))
  | _ => none

def finishedKey (event : LedgerEvent) : Option JsString :=
  match event.body with
  | .actionFinished f => some (factKey f.id event)
  | _ => none

def openLine (facts : List LedgerEvent) (event : LedgerEvent) : Option JsString :=
  match event.body with
  | .actionStarted a =>
    if factKey a.id event ∈ facts.filterMap finishedKey then none
    else some (js "- " ++ oneLine ((facts.reverse.findSome? (actionTitle a.id)).getD a.prompt))
  | _ => none

def noneRecorded : JsString := js "_(none recorded)_"

def noteSection (lines : List JsString) : JsString := if lines = [] then noneRecorded else unlines lines

def fallbackSummary (title : Option JsString) (events : List LedgerEvent) (throughSeq : Nat) : JsString :=
  let facts := events.filter (·.seq ≤ throughSeq)
  let session := match title with
    | none => []
    | some title => if trim title = [] then [] else [js "Session: " ++ oneLine title]
  unlines
    [js "## work_so_far", noteSection (session ++ lastLines 12 (facts.filterMap repliedLine)),
     js "## worktree_state", noteSection (lastLines 12 (facts.filterMap worktreeLine)),
     js "## open_tasks", noteSection (lastLines 12 (facts.filterMap (openLine facts))),
     js "## decisions", noneRecorded, js "## pending_followups", noneRecorded, js "## standing_instructions",
     noneRecorded, js "## role_cursors", noneRecorded, js "## known_pitfalls", noneRecorded]

def COMPACTION_SYSTEM : JsString :=
  unlines
    [js "<wy-system>",
     js "You are the context compactor for one working session. Summarise the supplied conversation " ++
       js "records into a compact handover note that lets the next request continue the work.",
     js "",
     js "Write Markdown with exactly these level-2 sections, in this order, and keep every heading:",
     js "## work_so_far",
     js "What was done, including durable outcomes.",
     js "## worktree_state",
     js "Branches, worktrees, commits and files that changed.",
     js "## open_tasks",
     js "Work that is still running, blocked or waiting.",
     js "## decisions",
     js "Decisions made and their reasons.",
     js "## pending_followups",
     js "Promised follow-ups and open questions.",
     js "## standing_instructions",
     js "Role and standing instructions that arrived through wakes, not the config.",
     js "## role_cursors",
     js "Per-role cursors such as the last audited or reviewed commit.",
     js "## known_pitfalls",
     js "Pitfalls learned at run time.",
     js "",
     js "Rules:",
     js "- Use only the supplied records. Never invent paths, ids, results or decisions.",
     js "- The input may hold an earlier handover note followed by newer records: fold them into one " ++
       js "updated note keeping the same sections.",
     js "- Keep concrete names, paths, ids, numbers and command results exact.",
     js "- Do not address the user and do not ask questions.",
     js "- Return the Markdown only, with no prose before or after it.",
     js "</wy-system>"]

/-- The latest recorded compaction: the floor it covered and its handover note. -/
def previousCompaction (events : List LedgerEvent) : Nat × Option JsString :=
  events.foldl
    (fun previous event =>
      match event.body with
      | .contextCompacted c => if c.throughSeq < previous.1 then previous else (c.throughSeq, some c.summary)
      | _ => previous)
    (0, none)

structure CompactionResult where
  /-- Highest ledger sequence covered by the summary; 0 when nothing was covered. -/
  throughSeq : Nat
  summary : JsString
  estimatedInputTokens : Option Nat
  contextWindow : Option Nat
  /-- Why a deterministic fallback summary was used instead of the model's. -/
  failure : Option JsString
deriving DecidableEq

/-- The summarising call: its system and user message and output cap, and the text or the error it ends with. -/
abbrev CompactionSummaryCall := JsString → JsString → Nat → Except JsString JsString

section

variable (encodeLength : JsString → Nat) (metadata : ModelMetadata)

def tailBudget (outputReservation : Option Nat) : Int :=
  let reservation := (outputReservation.or (boundedOutputReservation metadata.maxOutputTokens)).getD 0
  ((metadata.contextWindow.map fun window => compactionThreshold metadata window reservation).getD 0) / 4

def tailStart (outputReservation tailFromSeq : Option Nat) (contextEvents : List LedgerEvent) : Nat :=
  match tailFromSeq with
  | none =>
    let size := fun event => (contextTokens encodeLength false event : Int)
    hotZoneStart contextEvents size (tailBudget metadata outputReservation)
  | some tailFromSeq => (contextEvents.findIdx? (tailFromSeq ≤ ·.seq)).getD contextEvents.length

def summaryRecord (floor : Nat) (event : LedgerEvent) : Option JsString :=
  match event.body with
  | .reasoningThinking _ | .contextCompacted _ => none
  | _ =>
    if floor < event.seq then
      match renderEventText encodeLength true event with
      | none => none
      | some text => if text = [] then none else some text
    else none

/-- The user message of the summarising call. -/
def summarySource (events covered : List LedgerEvent) : JsString :=
  let previous := previousCompaction events
  let note := match previous.2 with
    | none => []
    | some summary => tag "wy-handover-note" [("through-seq", some (natText previous.1))] (some (escapeBody summary))
  let source := unlines ([note, unlines (covered.filterMap (summaryRecord encodeLength previous.1))].filter (· ≠ []))
  js "<wy-compaction>\n" ++ source ++ js "\n</wy-compaction>"

def compactContext (summarize : CompactionSummaryCall) (title : Option JsString)
    (outputReservation estimatedInputTokens tailFromSeq : Option Nat) (events : List LedgerEvent) :
    CompactionResult :=
  let contextEvents := events.filter isContextEvent
  let covered := contextEvents.take (tailStart encodeLength metadata outputReservation tailFromSeq contextEvents)
  match covered.getLast? with
  | none => ⟨0, [], estimatedInputTokens, metadata.contextWindow, none⟩
  | some last =>
    let maxOutputTokens := match metadata.contextWindow with
      | none => COMPACTION_MAX_OUTPUT_TOKENS
      | some window => min COMPACTION_MAX_OUTPUT_TOKENS (window / 4)
    let user := summarySource encodeLength events covered
    let inputTokens := estimateTokens encodeLength (js "system") + estimateTokens encodeLength COMPACTION_SYSTEM +
      (estimateTokens encodeLength (js "user") + estimateTokens encodeLength user)
    let failed := fun failure : JsString =>
      (⟨last.seq, fallbackSummary title events last.seq, estimatedInputTokens, metadata.contextWindow, some failure⟩ :
        CompactionResult)
    match metadata.contextWindow with
    | some window =>
      if window < inputTokens + maxOutputTokens then
        failed (js "compaction summary input " ++ natText inputTokens ++ js " + max output " ++
          natText maxOutputTokens ++
          js " exceeds the context window " ++ natText window)
      else summarised failed (summarize COMPACTION_SYSTEM user maxOutputTokens) last.seq
    | none => summarised failed (summarize COMPACTION_SYSTEM user maxOutputTokens) last.seq
where
  /-- The note of the model, or the fallback when the call failed or returned no text. -/
  summarised (failed : JsString → CompactionResult) (outcome : Except JsString JsString) (throughSeq : Nat) :
      CompactionResult :=
    match outcome with
    | .error failure => failed failure
    | .ok text =>
      if trim text = [] then failed (js "compaction summary call returned no text")
      else ⟨throughSeq, trim text, estimatedInputTokens, metadata.contextWindow, none⟩

end

/-- Events other parts of the session append while `prepare` waits: none of them is a floor. -/
structure OtherAppends where
  drafts : List (LedgerEventDraft × JsString)
  noFloor : ∀ draft ∈ drafts, recordedFloor ⟨draft.1, 0, []⟩ = none

def arrive (events : List LedgerEvent) (drafts : List (LedgerEventDraft × JsString)) : List LedgerEvent :=
  drafts.foldl (fun events draft => events ++ [stampDraft events draft.1 draft.2]) events

/-- What `prepare` is given besides the timeline, and what happens while it waits. -/
structure PrepareInput where
  turn : Nat
  step : Nat
  title : JsString
  metadata : ModelMetadata
  maxTokens : Option Nat
  /-- The turn is neither finished nor aborted. -/
  active : Bool
  /-- The input tokens of the view built from a timeline, with or without the kernel facts. -/
  viewTokens : Bool → List LedgerEvent → Nat
  summarize : CompactionSummaryCall
  beforeReduced : OtherAppends
  afterReduced : OtherAppends
  beforeCompacted : OtherAppends
  afterCompacted : OtherAppends
  beforeRetried : OtherAppends
  afterRetried : OtherAppends
  /-- The time of the appends. -/
  time : JsString

/-- A floor `prepare` records, with the timeline it is appended to; a compaction with the timeline it summarised. -/
inductive FloorRecord where
  | reduced (before : List LedgerEvent) (plan : ReductionPlan)
  | compacted (source before : List LedgerEvent) (tailFromSeq : Option Nat) (result : CompactionResult)
deriving DecidableEq

/-- How `prepare` ends: the floors it recorded in order, the timeline it leaves, and the error that fails the turn. -/
structure PrepareResult where
  records : List FloorRecord
  timeline : List LedgerEvent
  error : Option JsString

namespace PrepareInput

variable (encodeLength : JsString → Nat) (input : PrepareInput)

def reducedDraft (plan : ReductionPlan) : LedgerEventDraft :=
  ⟨some input.turn, some input.step,
    .contextReduced { throughSeq := plan.throughSeq, releasedTokens := some (JsNumber.ofInt plan.releasedTokens) }⟩

def compactedDraft (result : CompactionResult) : LedgerEventDraft :=
  ⟨some input.turn, some input.step,
    .contextCompacted { throughSeq := result.throughSeq, summary := result.summary
                        estimatedInputTokens := result.estimatedInputTokens, contextWindow := result.contextWindow
                        failure := result.failure }⟩

def record (events : List LedgerEvent) (before after : OtherAppends) (draft : LedgerEventDraft) : List LedgerEvent :=
  arrive (arrive events before.drafts ++ [stampDraft (arrive events before.drafts) draft input.time]) after.drafts

def budget (facts : Bool) (events : List LedgerEvent) : ContextBudgetFacts :=
  contextBudgetOf input.metadata (input.viewTokens facts events) input.maxTokens

def compact (events : List LedgerEvent) (estimated : Nat) (tailFromSeq : Option Nat) : CompactionResult :=
  compactContext encodeLength input.metadata input.summarize (some input.title) input.maxTokens (some estimated)
    tailFromSeq events

def overWindow (facts : ContextBudgetFacts) : Bool := facts.contextWindow.any (· ≤ facts.estimatedInputTokens)

def overflowError (facts : ContextBudgetFacts) : Option JsString :=
  if overWindow facts then
    some (js "context_overflow: estimated input " ++ natText facts.estimatedInputTokens ++
      js " exceeds the context window " ++ natText (facts.contextWindow.getD 0))
  else none

/-- The `turn.started` of the turn, the newest one with its number. -/
def turnStart (events : List LedgerEvent) : Option LedgerEvent :=
  events.reverse.find? fun event => isTurnStarted event && decide (event.turn = some input.turn)

def retry (records : List FloorRecord) (fresh : List LedgerEvent) : PrepareResult :=
  let after := input.budget true fresh
  let tailFromSeq := (input.turnStart fresh).map (·.seq)
  let retried := input.compact encodeLength fresh after.estimatedInputTokens tailFromSeq
  if 0 < retried.throughSeq then
    let timeline := input.record fresh input.beforeRetried input.afterRetried (input.compactedDraft retried)
    ⟨records ++ [.compacted fresh (arrive fresh input.beforeRetried.drafts) tailFromSeq retried], timeline,
      overflowError (input.budget true timeline)⟩
  else ⟨records, fresh, overflowError after⟩

/-- Summarise the covered part of the timeline. -/
def summarise (records : List FloorRecord) (source : List LedgerEvent) (estimated : Nat) : PrepareResult :=
  let compacted := input.compact encodeLength source estimated none
  if 0 < compacted.throughSeq then
    let fresh := input.record source input.beforeCompacted input.afterCompacted (input.compactedDraft compacted)
    let records := records ++ [.compacted source (arrive source input.beforeCompacted.drafts) none compacted]
    if overWindow (input.budget true fresh) then input.retry encodeLength records fresh else ⟨records, fresh, none⟩
  else ⟨records, source, none⟩

/-- `Compaction.prepare`: reduce first, and summarise only when the request is still over the threshold. -/
def prepare (events : List LedgerEvent) : PrepareResult :=
  let budget := input.budget false events
  match budget.threshold with
  | none => ⟨[], events, none⟩
  | some threshold =>
    if input.active ∧ threshold < budget.estimatedInputTokens then
      match computeReduction encodeLength events threshold with
      | none => input.summarise encodeLength [] events budget.estimatedInputTokens
      | some plan =>
        let source := input.record events input.beforeReduced input.afterReduced (input.reducedDraft plan)
        let records := [.reduced (arrive events input.beforeReduced.drafts) plan]
        let reduced := input.budget false source
        if reduced.threshold.all fun threshold => threshold < (reduced.estimatedInputTokens : Int) then
          input.summarise encodeLength records source reduced.estimatedInputTokens
        else ⟨records, source, none⟩
    else ⟨[], events, none⟩

end PrepareInput

end Wrenyard.Session
