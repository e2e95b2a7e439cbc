import Mathlib.Algebra.Group.Prod
import Wrenyard.Js.KeyedSum
import Wrenyard.Lib.Transition
import Wrenyard.Stats.TpsRead

/-!
# The statistics projection

`stats-query.mts`: events, task runs and executions are written to the history, and the projection follows it in
bounded transactions.  A drain of events makes one row of each relevant event above the watermark and adds what it
contributes to the rollup of its day; a drain of runs attributes the completions of the gateway anew when the usage
that the clients of their run reported has changed; days are sealed from the rollup, and sealed again when they
change.

Each action is one transaction.  A time stamp is its number of milliseconds, the data of an event is the value its
text parses to, and numbers are exact.
-/

namespace Wrenyard.Stats

open Js

structure EventRecord extends EventRow where
  id : Nat
  taskId : Option JsString

inductive TaskStatus where
  | queued
  | running
  | done
  | failed
  | cancelled
  | interrupted
deriving DecidableEq

def TaskStatus.terminal : TaskStatus → Bool
  | queued | running => false
  | _ => true

structure TaskRow where
  id : JsString
  template : Option JsString
  status : TaskStatus
  endedAt : Option Int

/-- The local days of one time zone.  A window is the predicate of the instants from its start and before its end; the
window of the key of a day has the instants of that day. -/
structure Calendar where
  localDayKeyOf : Int → JsString
  dayWindowFromDayKey : JsString → Option (Int → Bool)
  window_spec : ∀ t, ∃ w, dayWindowFromDayKey (localDayKeyOf t) = some w ∧
    ∀ u, w u = true ↔ localDayKeyOf u = localDayKeyOf t

/-- `input`, `cached` and `output` -/
abbrev Partitions := ℚ × ℚ × ℚ

/-- `event_count`, `input_tokens` and `output_tokens` -/
abbrev RollupTotals := ℚ × ℚ × ℚ

/-- Which partitions the clients of a run reported. -/
structure DirtyRunFlags where
  input : Bool
  cached : Bool
  output : Bool
deriving DecidableEq

def gate (flags : Option DirtyRunFlags) (candidate : Partitions) : Partitions :=
  (if flags.any DirtyRunFlags.input then 0 else candidate.1,
    if flags.any DirtyRunFlags.cached then 0 else candidate.2.1,
    if flags.any DirtyRunFlags.output then 0 else candidate.2.2)

/-- `if (value)` of a text -/
def truthy (s : Option JsString) : Bool := s.any fun s => (Json.str s).truthy

def measured? (value : Option Json) : Option ℚ := (number? value).filter fun n => 0 ≤ n

def isMeasuredNumber (value : Option Json) : Bool := (measured? value).isSome

def nonNegativeNumber (value : Option Json) : ℚ := ((number? value).filter fun n => 0 < n).getD 0

def normalizedCachedTokens (record : OMap JsString Json) : ℚ :=
  match measured? (OMap.get record (js "cached_input_tokens")) with
  | some total => total
  | none =>
    nonNegativeNumber (OMap.get record (js "cache_read_input_tokens")) +
      nonNegativeNumber (OMap.get record (js "cache_creation_input_tokens"))

/-- The record of a `turn_usage` event. -/
def usageRecord : Option Json → Option (OMap JsString Json)
  | some (.obj record) => some record
  | _ => none

/-- `u_input`, `u_cached` and `u_output` of a `turn_usage` event -/
def usagePartitions (data : Option Json) : Partitions :=
  match usageRecord data with
  | some record =>
    (nonNegativeNumber (OMap.get record (js "input_tokens")), normalizedCachedTokens record,
      nonNegativeNumber (OMap.get record (js "output_tokens")))
  | none => 0

/-- What the record of one `turn_usage` event reports. -/
def reportedFlags (record : OMap JsString Json) : DirtyRunFlags where
  input := isMeasuredNumber (OMap.get record (js "input_tokens"))
  cached := isMeasuredNumber (OMap.get record (js "cached_input_tokens")) ||
    isMeasuredNumber (OMap.get record (js "cache_read_input_tokens")) ||
    isMeasuredNumber (OMap.get record (js "cache_creation_input_tokens"))
  output := isMeasuredNumber (OMap.get record (js "output_tokens"))

/-- The execution that a completion of the gateway names. -/
def nestedExecutionId (data : Option Json) : Option JsString := do
  let inner ← parseEnvelopeData data
  let id ← text? (OMap.get inner (js "executionId"))
  return trim id

def gatewayPartitions (usage : OMap JsString Json) : Partitions :=
  let gwIn := nonNegativeNumber (OMap.get usage (js "input"))
  let gwCached := (measured? (OMap.get usage (js "cachedInput"))).getD 0
  (max (gwIn - gwCached) 0, gwCached, nonNegativeNumber (OMap.get usage (js "output")))

def completionUsage (data : Option Json) : Option (OMap JsString Json) := do
  let inner ← parseEnvelopeData data
  if measured? (OMap.get inner (js "status")) = some 200 then member? inner (js "usage") else none

/-- `cand_fb_input`, `cand_fb_cached` and `cand_fb_output` of a completion -/
def candidatePartitions (data : Option Json) : Partitions := ((completionUsage data).map gatewayPartitions).getD 0

structure ProjectionCore where
  eventId : Nat
  dayKey : JsString
  type : JsString
  taskRunId : Option JsString
  u : Partitions
  fb : Partitions
  cand : Partitions

structure RowIdentity where
  template : Option JsString
  dispatch : Option Dispatch

structure ProjectionRow extends ProjectionCore where
  identity : RowIdentity

structure RollupKey where
  dayKey : JsString
  type : JsString
  template : JsString
  provider : JsString
  model : JsString
  modelId : JsString
deriving DecidableEq

def ProjectionRow.key (row : ProjectionRow) : RollupKey where
  dayKey := row.dayKey
  type := row.type
  template := row.identity.template.getD []
  provider := (row.identity.dispatch.bind Dispatch.provider).getD []
  model := (row.identity.dispatch.bind Dispatch.model).getD []
  modelId := (row.identity.dispatch.bind Dispatch.modelId).getD []

def ProjectionCore.contribution (row : ProjectionCore) : RollupTotals :=
  (if row.type = js "dispatch" then 1 else 0,
    if row.type = js "turn_usage" then row.u.1 + row.u.2.1
    else if row.type = js "gateway.request.completed" then row.fb.1 + row.fb.2.1 else 0,
    if row.type = js "turn_usage" then row.u.2.2
    else if row.type = js "gateway.request.completed" then row.fb.2.2 else 0)

structure Interval where
  status : TaskStatus
  effectiveEnd : Int

structure Outcomes where
  done : Nat
  failed : Nat
  cancelled : Nat

structure SealedDay where
  totals : RollupTotals
  outcomes : Outcomes

structure StatsState where
  executions : List Execution
  tasks : List TaskRow
  events : List EventRecord
  watermark : Nat
  rows : List ProjectionRow
  rollup : OMap RollupKey RollupTotals
  dirtyRuns : List JsString
  runFlags : OMap JsString DirtyRunFlags
  intervals : OMap JsString Interval
  dayCache : OMap JsString SealedDay
  dirtyDays : List JsString
  deferredDays : List JsString

namespace StatsState

def initial : StatsState := ⟨[], [], [], 0, [], [], [], [], [], [], [], []⟩

/-- `taskByExec` -/
def taskByExec (s : StatsState) (id : JsString) : Option JsString :=
  ((s.executions.find? fun e => e.id = id).bind Execution.taskId).filter fun task => task ≠ []

def templateByTask (s : StatsState) (id : JsString) : Option JsString :=
  (s.tasks.find? fun t => t.id = id).bind TaskRow.template

def identityByExec (s : StatsState) (id : JsString) : Option Dispatch :=
  (s.executions.find? fun e => e.id = id).bind Execution.dispatch

def runUsage (s : StatsState) (run : JsString) : List (OMap JsString Json) :=
  (s.executions.filter fun ex => ex.taskId = some run).flatMap fun ex =>
    (s.events.filter fun ev => ev.executionId = some ex.id ∧ ev.type = js "turn_usage").filterMap fun ev =>
      usageRecord ev.data

def readDirtyRunFlags (s : StatsState) (run : JsString) : DirtyRunFlags where
  input := (s.runUsage run).any fun record => (reportedFlags record).input
  cached := (s.runUsage run).any fun record => (reportedFlags record).cached
  output := (s.runUsage run).any fun record => (reportedFlags record).output

def relevant (e : EventRecord) : Bool :=
  e.type = js "dispatch" || e.type = js "turn_usage" || e.type = js "gateway.request.completed"

def nestedOf (e : EventRecord) : Option JsString :=
  if e.type = js "gateway.request.completed" then nestedExecutionId e.data else none

def runOf (s : StatsState) (e : EventRecord) : Option JsString :=
  let taskRunId := ((nestedOf e).bind s.taskByExec).or e.taskId
  if !truthy taskRunId && truthy e.executionId then e.executionId.bind s.taskByExec else taskRunId

/-- `taskRunId ? readStoredRunFlags(taskRunId) : undefined` -/
def storedFlags (s : StatsState) (run : Option JsString) : Option DirtyRunFlags :=
  (run.filter fun run => run ≠ []).bind fun run => OMap.get s.runFlags run

/-- The row of an event, without its identity. -/
def coreOf (cal : Calendar) (s : StatsState) (e : EventRecord) : ProjectionCore :=
  let cand := if e.type = js "gateway.request.completed" then candidatePartitions e.data else 0
  { eventId := e.id
    dayKey := cal.localDayKeyOf e.createdAt
    type := e.type
    taskRunId := s.runOf e
    u := if e.type = js "turn_usage" then usagePartitions e.data else 0
    fb := gate (s.storedFlags (s.runOf e)) cand
    cand }

def identityOf (s : StatsState) (e : EventRecord) : RowIdentity where
  template := ((s.runOf e).filter fun run => run ≠ []).bind s.templateByTask
  dispatch := (((nestedOf e).or e.executionId).filter fun id => id ≠ []).bind s.identityByExec

def rollupEventContribution (rollup : OMap RollupKey RollupTotals) (key : RollupKey) (contribution : RollupTotals) :
    OMap RollupKey RollupTotals :=
  OMap.addAt rollup key contribution

/-- `INSERT OR IGNORE` -/
def insertIgnore (keys : List JsString) (key : JsString) : List JsString := if key ∈ keys then keys else keys ++ [key]

def withDirtyDay (dayCache : OMap JsString SealedDay) (dirtyDays : List JsString) (dayKey : JsString) :
    List JsString :=
  if OMap.has dayCache dayKey then insertIgnore dirtyDays dayKey else dirtyDays

def markSealedDayDirty (s : StatsState) (dayKey : JsString) : StatsState :=
  { s with dirtyDays := withDirtyDay s.dayCache s.dirtyDays dayKey }

def markDirtyRun (s : StatsState) (run : Option JsString) : StatsState :=
  { s with dirtyRuns := ((run.filter fun run => run ≠ []).map (insertIgnore s.dirtyRuns)).getD s.dirtyRuns }

/-- The loop body over the pending events.  The watermark is written once behind the loop, with the id of its last
event. -/
def applyEvent (cal : Calendar) (s : StatsState) (e : EventRecord) : StatsState :=
  let row : ProjectionRow := { s.coreOf cal e with identity := s.identityOf e }
  let s := { s with
    watermark := e.id
    rows := s.rows.filter (fun other : ProjectionRow => other.eventId ≠ e.id) ++ [row]
    rollup := rollupEventContribution s.rollup row.key row.contribution }
  let s := s.markSealedDayDirty row.dayKey
  s.markDirtyRun (if e.type = js "turn_usage" ∨ e.type = js "gateway.request.completed" then row.taskRunId else none)

def pendingEvents (s : StatsState) : List EventRecord := s.events.filter fun e => s.watermark < e.id ∧ relevant e

def drainStatsProjectionEvents (cal : Calendar) (batch : Nat) (s : StatsState) : StatsState :=
  (s.pendingEvents.take batch).foldl (applyEvent cal) s

def ofRun (run : JsString) (row : ProjectionRow) : Bool :=
  row.type = js "gateway.request.completed" && row.taskRunId = some run

def regate (flags : DirtyRunFlags) (row : ProjectionRow) : ProjectionRow :=
  { row with fb := gate (some flags) row.cand }

def deltaOf (flags : DirtyRunFlags) (row : ProjectionRow) : RollupTotals :=
  (regate flags row).contribution - row.contribution

/-- The loop body over the dirty runs.  The completions that are attributed anew are those whose cell changes. -/
def reconcileRun (s : StatsState) (run : JsString) : StatsState :=
  let flags := s.readDirtyRunFlags run
  let selected := if OMap.get s.runFlags run = some flags then [] else s.rows.filter (ofRun run)
  let moved := selected.filter fun row => deltaOf flags row ≠ 0
  { s with
    runFlags := OMap.set s.runFlags run flags
    rows := s.rows.map fun row => if OMap.get s.runFlags run ≠ some flags ∧ ofRun run row
      then regate flags row else row
    rollup := moved.foldl (fun rollup row => rollupEventContribution rollup row.key (deltaOf flags row)) s.rollup
    dirtyDays := moved.foldl (fun days row => withDirtyDay s.dayCache days row.dayKey) s.dirtyDays
    dirtyRuns := s.dirtyRuns.filter fun other => other ≠ run }

def drainStatsProjectionRuns (batch : Nat) (s : StatsState) : StatsState :=
  (s.dirtyRuns.take batch).foldl reconcileRun s

def pendingIntervals (s : StatsState) : List TaskRow :=
  s.tasks.filter fun t => t.status.terminal && t.endedAt.isSome && !OMap.has s.intervals t.id

def addInterval (cal : Calendar) (s : StatsState) (t : TaskRow) : StatsState :=
  match t.endedAt with
  | some endedAt =>
    { s with intervals := OMap.set s.intervals t.id ⟨t.status, endedAt⟩ }.markSealedDayDirty
      (cal.localDayKeyOf endedAt)
  | none => s

def drainStatsProjectionTaskIntervals (cal : Calendar) (batch : Nat) (s : StatsState) : StatsState :=
  (s.pendingIntervals.take batch).foldl (addInterval cal) s

def rollupOfDay (s : StatsState) (dayKey : JsString) : RollupTotals :=
  OMap.total (fun key => key.dayKey = dayKey) s.rollup

def countOutcomes (statuses : List TaskStatus) : Outcomes where
  done := statuses.countP fun status => status = .done
  failed := statuses.countP fun status => status = .failed
  cancelled := statuses.countP fun status => status ≠ .done ∧ status ≠ .failed

def intervalStatuses (s : StatsState) (w : Int → Bool) : List TaskStatus :=
  (s.intervals.filter fun i => w i.2.effectiveEnd && i.2.status.terminal).map fun i => i.2.status

def committedDay (cal : Calendar) (s : StatsState) (dayKey : JsString) : SealedDay where
  totals := s.rollupOfDay dayKey
  outcomes :=
    match cal.dayWindowFromDayKey dayKey with
    | some w => countOutcomes (s.intervalStatuses w)
    | none => ⟨0, 0, 0⟩

def upsertCommittedSealedDay (cal : Calendar) (s : StatsState) (dayKey : JsString) : StatsState :=
  { s with dayCache := OMap.set s.dayCache dayKey (s.committedDay cal dayKey) }

def sealedDayContributionIncomplete (cal : Calendar) (s : StatsState) (dayKey : JsString) : Bool :=
  match cal.dayWindowFromDayKey dayKey with
  | none => true
  | some w =>
    (s.pendingEvents.any fun e => w e.createdAt) ||
      (s.pendingIntervals.any fun t => t.endedAt.any w) ||
      s.dirtyRuns.any fun run => s.rows.any fun row => row.taskRunId = some run ∧ row.dayKey = dayKey

def drainDirtyDay (cal : Calendar) (s : StatsState) (dayKey : JsString) : StatsState :=
  let s := s.upsertCommittedSealedDay cal dayKey
  { s with dirtyDays := s.dirtyDays.filter fun other => other ≠ dayKey }

/-- `ORDER BY day_key ASC` -/
def inOrder (dayKeys : List JsString) : List JsString := dayKeys.insertionSort fun a b => ¬ b < a

def drainStatsDirtySealedDays (cal : Calendar) (batch : Nat) (s : StatsState) : StatsState :=
  ((inOrder s.dirtyDays).take batch).foldl (drainDirtyDay cal) s

def drainDeferredDay (cal : Calendar) (s : StatsState) (dayKey : JsString) : StatsState :=
  if s.sealedDayContributionIncomplete cal dayKey then s
  else
    let s := s.upsertCommittedSealedDay cal dayKey
    { s with deferredDays := s.deferredDays.filter fun other => other ≠ dayKey }

def drainStatsDeferredSealedDays (cal : Calendar) (batch : Nat) (s : StatsState) : StatsState :=
  ((inOrder s.deferredDays).take batch).foldl (drainDeferredDay cal) s

def sealDay (cal : Calendar) (s : StatsState) (dayKey : JsString) : StatsState :=
  if s.sealedDayContributionIncomplete cal dayKey then { s with deferredDays := insertIgnore s.deferredDays dayKey }
  else s.upsertCommittedSealedDay cal dayKey

def resetStatsProjection (s : StatsState) : StatsState :=
  { s with watermark := 0, rows := [], rollup := [], dirtyRuns := [], intervals := [], dirtyDays := [],
           deferredDays := [] }

def endTask (s : StatsState) (id : JsString) (status : TaskStatus) (endedAt : Int) : StatsState :=
  { s with
    tasks := s.tasks.map fun t => if t.id = id then { t with status, endedAt := some endedAt } else t
    intervals := OMap.set s.intervals id ⟨status, endedAt⟩ }

/-- `UPDATE … WHERE id = ? AND status IN ('queued', 'running')` -/
def isOpen (s : StatsState) (id : JsString) : Bool := s.tasks.any fun t => t.id = id && !t.status.terminal

def append (s : StatsState) (e : EventRecord) : StatsState := { s with events := s.events ++ [e] }

def foremanEnvelope (eventId severity : JsString) (data : OMap JsString Json) : Json :=
  .obj [(js "schema_version", .str (js "foreman.event.v1")), (js "event_id", .str eventId),
    (js "source", .str (js "wrenyard.gateway")), (js "severity", .str severity), (js "refs", .obj []),
      (js "data", .obj data)]

end StatsState

inductive StatsAction where
  /-- An execution is started, with its dispatch. -/
  | execution (e : Execution)
  | accepted (id : JsString) (template : Option JsString)
  | terminal (id : JsString) (status : TaskStatus) (endedAt : Int)
  | allInterrupted (endedAt : Int)
  | executionEvent (id : Nat) (executionId type : JsString) (createdAt : Int) (data : Option Json)
  | gatewayCompleted (id : Nat) (createdAt : Int) (eventId severity : JsString) (data : OMap JsString Json)
  | drainEvents (batch : Nat)
  | drainRuns (batch : Nat)
  | drainTaskIntervals (batch : Nat)
  | drainDirtyDays (batch : Nat)
  | drainDeferredDays (batch : Nat)
  /-- Days are sealed, each given by one of its instants. -/
  | sealDays (days : List Int)
  | reset

namespace StatsState

/-- One transaction.  The ids of events increase, those of executions and task runs are new, and an event of an
execution carries its task run; the gateway names an execution only after it is on record. -/
def step (cal : Calendar) (s : StatsState) : StatsAction → Option StatsState
  | .execution e =>
    if (s.executions.any fun other => other.id = e.id) ∨ e.taskId = some [] ∨
      (s.events.any fun ev => nestedOf ev = some e.id)
    then none
    else some { s with executions := s.executions ++ [e] }
  | .accepted id template =>
    if s.tasks.any fun t => t.id = id then none
    else some { s with tasks := s.tasks ++ [⟨id, template, .queued, none⟩] }
  | .terminal id status endedAt =>
    if s.isOpen id && status.terminal then some ((s.endTask id status endedAt).markDirtyRun (some id)) else none
  | .allInterrupted endedAt =>
    some ((s.tasks.filter fun t => !t.status.terminal).foldl (fun s t => s.endTask t.id .interrupted endedAt) s)
  | .executionEvent id executionId type createdAt data => do
    let ex ← s.executions.find? fun ex => ex.id = executionId
    if (s.events.any fun e => id ≤ e.id) ∨ id = 0 ∨ type = js "gateway.request.completed" then none
    else
      let s := s.append { executionId := some executionId, type, createdAt, data, id, taskId := ex.taskId }
      some (if type = js "turn_usage" then s.markDirtyRun ex.taskId else s)
  | .gatewayCompleted id createdAt eventId severity data =>
    if (s.events.any fun e => id ≤ e.id) ∨ id = 0 then none
    else
      some (s.append
        { executionId := none, type := js "gateway.request.completed", createdAt, id, taskId := none
          data := some (foremanEnvelope eventId severity data) })
  | .drainEvents batch => some (s.drainStatsProjectionEvents cal batch)
  | .drainRuns batch => some (s.drainStatsProjectionRuns batch)
  | .drainTaskIntervals batch => some (s.drainStatsProjectionTaskIntervals cal batch)
  | .drainDirtyDays batch => some (s.drainStatsDirtySealedDays cal batch)
  | .drainDeferredDays batch => some (s.drainStatsDeferredSealedDays cal batch)
  | .sealDays days => some ((days.map cal.localDayKeyOf).foldl (sealDay cal) s)
  | .reset => some s.resetStatsProjection

def Reached (cal : Calendar) (s : StatsState) : Prop :=
  ∃ tr, Transition.Run (fun s a s' => step cal s a = some s') initial tr s

end StatsState

end Wrenyard.Stats
