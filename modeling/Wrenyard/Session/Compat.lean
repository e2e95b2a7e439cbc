import Wrenyard.Session.EventJson

/-!
# Normalizing a stored event

`ledger/compat.ts`: one stored event of any historical shape, mapped onto the current event model.  The input is the
object of one timeline line, so a member that is undefined is one that is absent, and freezing is not visible.

The mapping of each event type is one entry of `rewrites`, the cases of the source's `switch`; every other type goes
through `withStep`.  On the object of a current event the mapping is the identity (`normalizeStoredEvent_members`),
except that a recalled memory loses its step (`LedgerEvent.reload`).
-/

namespace Wrenyard.Session

open Js

/-- The members of an object. -/
abbrev Rec := OMap JsString Json

/-- `v ?? w`. -/
def coalesce (v w : Option Json) : Option Json :=
  match v with
  | some .null => w
  | some v => some v
  | none => w

/-- `typeof v === 'string'`. -/
def isString : Option Json → Bool
  | some (.str _) => true
  | _ => false

/-- `typeof v === 'number'`. -/
def isNumber : Option Json → Bool
  | some (.num _) => true
  | _ => false

def onlyNumber (v : Option Json) : Option Json := if isNumber v then v else none

def onlyString (v : Option Json) : Option Json := if isString v then v else none

/-- The named members of a value that is an object; those of an array are undefined. -/
def asRec : Option Json → Option Rec
  | some (.obj ms) => some ms
  | some (.arr _) => some []
  | _ => none

/-- The members of `{ ...v }` for an object or an array. -/
def spread : Json → Rec
  | .obj ms => ms
  | .arr xs => xs.zipIdx.map fun x => (natText x.2, x.1)
  | _ => []

def text (s : String) : Option Json := some (.str (js s))

def number : Option Json → JsNumber
  | some (.num n) => n
  | _ => .ofNat 0

/-- `turnId(number(turn))`. -/
def storedTurnId (turn : Option Json) : Json := .str (js "t" ++ (number turn).text)

/-- `stepId(number(turn), number(step))`. -/
def storedStepId (turn step : Option Json) : Json :=
  .str (js "t" ++ (number turn).text ++ js "." ++ (number step).text)

def ACTION_KIND_COMPAT : OMap JsString JsString := [(js "read", js "search"), (js "write", js "document")]

def CALL_ROLE_COMPAT : OMap JsString JsString := [(js "compile", js "dispatch"), (js "doc-search", js "search")]

/-- `table[v] ?? v` for a stored name `v`. -/
def compatName (table : OMap JsString JsString) (v : Option Json) : Option Json :=
  match v with
  | some (.str s) => some (.str ((table.get s).getD s))
  | v => v

/-- Rename the old `cycle` index field to `step`. -/
def withStep (event : Rec) : Rec :=
  match event.get (js "cycle"), event.get (js "step") with
  | some cycle, none => (event.delete (js "cycle")).set (js "step") cycle
  | _, _ => event

/-- `{ ...event, [key]: event[key] ?? value }`. -/
def withDefault (event : Rec) (key : JsString) (value : Json) : Rec :=
  event.set key ((coalesce (event.get key) (some value)).getD value)

/-- The fields every rewritten event begins with; the old `cycle` index becomes the step. -/
def envelope (type : String) (event : Rec) : List (JsString × Option Json) :=
  [(js "type", text type), (js "seq", event.get (js "seq")), (js "at", event.get (js "at")),
    (js "turn", event.get (js "turn")), (js "step", event.get (js "cycle"))]

def mapCycleStarted (event : Rec) : Rec :=
  OMap.ofFields (envelope "step.started" event ++
    [(js "id", some (storedStepId (event.get (js "turn")) (event.get (js "cycle")))),
      (js "parent", some (storedTurnId (event.get (js "turn")))), (js "model", event.get (js "model")),
      (js "contextWindow", event.get (js "contextWindow")), (js "lastInputTokens", event.get (js "lastInputTokens"))])

/-- The step when the event has a `cycle`, else the turn. -/
def ownerId (event : Rec) : Json :=
  if isNumber (event.get (js "cycle")) then storedStepId (event.get (js "turn")) (event.get (js "cycle"))
  else storedTurnId (event.get (js "turn"))

def callKind (role : Option Json) : Option Json := if role = text "reason" then text "reasoning" else text "auxiliary"

/-- Old `call.started` to `span.started`. -/
def mapCallStarted (event : Rec) : Rec :=
  let role := compatName CALL_ROLE_COMPAT (event.get (js "role"))
  OMap.ofFields (envelope "span.started" event ++
    [(js "id", event.get (js "callId")), (js "parent", some (ownerId event)), (js "kind", callKind role),
      (js "request", some (.obj (OMap.ofFields
        [(js "role", if role = text "reason" then none else role), (js "model", event.get (js "model")),
          (js "inputEstimate", some (.ofNat 0)), (js "layers", some (.obj []))])))])

/-- Old usage field names to current `*Tokens` names. -/
def mapUsage (value : Option Json) : Option Json :=
  match asRec value with
  | none => none
  | some usage =>
    let mapped := OMap.ofFields
      [(js "inputTokens", onlyNumber (usage.get (js "input"))),
        (js "cachedInputTokens", onlyNumber (usage.get (js "cachedInput"))),
        (js "outputTokens", onlyNumber (usage.get (js "output"))),
        (js "reasoningTokens", onlyNumber (usage.get (js "reasoning")))]
    if mapped = [] then none else some (.obj mapped)

section

-- `Date.parse`; `none` is `NaN`.
variable (dateParse : JsString → Option Int)

/-- Milliseconds between two ISO timestamps, when both are present. -/
def diffMs (start stop : Option Json) : Option Json :=
  match start, stop with
  | some (.str a), some (.str b) => do
    let start ← dateParse a
    let stop ← dateParse b
    return .num (.ofInt (stop - start))
  | _, _ => none

/-- One record of the old `retries`. -/
def mapRetry (retry : Json) : Option Json :=
  (asRec (some retry)).map fun record => .obj (OMap.ofFields
    [(js "status", onlyNumber (record.get (js "status"))), (js "error", record.get (js "kind")),
      (js "ms", some (.ofNat 0)), (js "waitedMs", onlyNumber (record.get (js "delayMs")))])

/-- Old `retries` plus the overall duration to the current attempt list. -/
def mapAttempts (event : Rec) : List Json :=
  let retries := match event.get (js "retries") with
    | some (.arr retries) => retries
    | _ => []
  let ms := (diffMs dateParse (event.get (js "startedAt")) (event.get (js "endedAt"))).getD (.ofNat 0)
  retries.filterMap mapRetry ++ [.obj [(js "ms", ms)]]

/-- Old `call` to `span.finished` with transport metrics. -/
def mapCall (event : Rec) : Rec :=
  let role := compatName CALL_ROLE_COMPAT (event.get (js "role"))
  let sample := (asRec (event.get (js "tps"))).getD []
  let metrics := OMap.ofFields
    [(js "usage", mapUsage (event.get (js "usage"))),
      (js "ttftMs", diffMs dateParse (event.get (js "startedAt")) (event.get (js "firstTokenAt"))),
      (js "streamMs", onlyNumber (sample.get (js "windowMs"))),
      (js "streamTokens", onlyNumber (sample.get (js "outputTokens"))),
      (js "attempts", some (.arr (mapAttempts dateParse event)))]
  OMap.ofFields (envelope "span.finished" event ++
    [(js "id", event.get (js "callId")), (js "kind", callKind role), (js "status", event.get (js "status")),
      (js "output", if event.get (js "status") = text "ok" then onlyString (event.get (js "output")) else none),
      (js "reasoning", onlyString (event.get (js "reasoning"))),
      (js "error", match event.get (js "error") with
        | some (.str message) => some (.obj [(js "kind", .str (js "protocol")), (js "message", .str message)])
        | error => error),
      (js "metrics", some (.obj metrics))])

end

def mapThinking (event : Rec) : Rec :=
  OMap.ofFields (envelope "reasoning.thinking" event ++
    [(js "parent", coalesce (event.get (js "parent")) (event.get (js "callId"))),
      (js "text", coalesce (event.get (js "text")) (text ""))])

def mapReasonCompleted (event : Rec) : Rec :=
  OMap.ofFields (envelope "reasoning.completed" event ++
    [(js "parent", coalesce (event.get (js "parent")) (event.get (js "callId"))),
      (js "text", coalesce (event.get (js "text")) (text "")), (js "workerOutput", event.get (js "workerOutput"))])

def mapDocSearch (event : Rec) : Rec :=
  OMap.ofFields (envelope "document.found" event ++
    [(js "parent", event.get (js "actionId")), (js "understanding", event.get (js "understanding")),
      (js "picks", event.get (js "picks")), (js "near", event.get (js "near")), (js "notes", event.get (js "notes"))])

def mapDocContent (event : Rec) : Rec :=
  OMap.ofFields (envelope "document.content" event ++
    [(js "parent", event.get (js "actionId")), (js "path", event.get (js "path")),
      (js "title", event.get (js "title")),
      (js "updated", event.get (js "updated")), (js "version", event.get (js "version")),
      (js "tokens", event.get (js "tokens")), (js "content", event.get (js "content")),
      (js "format", event.get (js "format")), (js "base", event.get (js "base")),
        (js "source", event.get (js "source"))])

def mapFiles (event : Rec) : Rec :=
  OMap.ofFields (envelope "files.attached" event ++
    [(js "parent", event.get (js "actionId")), (js "source", event.get (js "source")),
      (js "files", event.get (js "files")), (js "taskRunId", event.get (js "taskRunId"))])

/-- The step is read from `cycle` alone, here as in the purely historical types. -/
def mapMemoryRecalled (event : Rec) : Rec :=
  OMap.ofFields (envelope "memory.recalled" event ++
    [(js "parent", coalesce (event.get (js "parent")) (event.get (js "actionId"))),
      (js "version", event.get (js "version")), (js "source", event.get (js "source")),
      (js "path", event.get (js "path")), (js "content", event.get (js "content"))])

/-- Fill the snapshot fields an older `session.created` may lack, keeping the values that are present. -/
def mapSessionCreated (event : Rec) : Rec :=
  match event.get (js "snapshot") with
  | some (.obj ms) => event.set (js "snapshot") (.obj (fillSnapshot ms))
  | some (.arr xs) => event.set (js "snapshot") (.obj (fillSnapshot (spread (.arr xs))))
  | _ => event.set (js "snapshot") (.obj (OMap.ofFields
      [(js "takenAt", event.get (js "at")), (js "deviceName", text ""), (js "agents", text ""),
        (js "memoryIndex", text ""), (js "builtinTasks", some (.arr [])), (js "projects", some (.arr []))]))
where
  fillSnapshot (snap : Rec) : Rec :=
    withDefault (withDefault (withDefault (withDefault snap (js "projects") (.arr []))
      (js "builtinTasks") (.arr [])) (js "agents") (.str [])) (js "memoryIndex") (.str [])

/-- A record with a string `path` and no `scope` is the pre-scope shape: a document-scoped update. -/
def mapWsUpdated (event : Rec) : Rec :=
  let preScope := (event.get (js "scope")).isNone && isString (event.get (js "path"))
  OMap.ofFields (envelope "workspace.changed" event ++
    [(js "parent", coalesce (event.get (js "parent")) (event.get (js "actionId"))),
      (js "scope", if preScope then text "document" else event.get (js "scope")),
      (js "target", if preScope then event.get (js "path") else event.get (js "target")),
      (js "change",
        if preScope && decide (event.get (js "change") ≠ text "created") then text "updated"
        else event.get (js "change")),
      (js "worktreeId", if preScope then none else event.get (js "worktreeId")),
      (js "version", if preScope then none else event.get (js "version")),
      (js "hash", if preScope then none else event.get (js "hash")),
      (js "files", if preScope then none else event.get (js "files"))])

/-- Old `action.started` to reasoning `action.started`; new events pass through. -/
def mapActionStarted (event : Rec) : Rec :=
  if (event.get (js "action")).isSome then withStep event
  else
    let kind := compatName ACTION_KIND_COMPAT (event.get (js "kind"))
    let intent := onlyString (((asRec (event.get (js "parsed"))).getD []).get (js "intent"))
    OMap.ofFields (envelope "action.started" event ++
      [(js "id", event.get (js "actionId")), (js "parent", some (ownerId event)),
        (js "action", some (.obj (OMap.ofFields [(js "type", kind), (js "prompt", intent.or (text ""))]))),
        (js "input", event.get (js "parsed")), (js "taskRunId", event.get (js "taskRunId"))])

/-- Old `action.titled` to id-based `action.titled`; new events pass through. -/
def mapActionTitled (event : Rec) : Rec :=
  if (event.get (js "actionId")).isNone then withStep event
  else
    OMap.ofFields (envelope "action.titled" event ++
      [(js "id", event.get (js "actionId")), (js "title", event.get (js "title"))])

/-- Old `action.finished` to reasoning `action.finished`; new events pass through. -/
def mapActionFinished (event : Rec) : Rec :=
  if (event.get (js "action")).isSome then withStep event
  else
    let kind := compatName ACTION_KIND_COMPAT (event.get (js "kind"))
    OMap.ofFields (envelope "action.finished" event ++
      [(js "id", event.get (js "actionId")), (js "action", some (.obj (OMap.ofFields [(js "type", kind)]))),
        (js "status", event.get (js "status")), (js "result", coalesce (event.get (js "result")) (text "")),
        (js "task", event.get (js "task")), (js "taskStatus", event.get (js "taskStatus")),
        (js "taskRunId", event.get (js "taskRunId")), (js "afterInterrupt", event.get (js "afterInterrupt"))])

def mapReply (event : Rec) : Rec :=
  OMap.ofFields (envelope "reply.sent" event ++
    [(js "parent", onlyString (event.get (js "callId"))), (js "text", coalesce (event.get (js "text")) (text ""))])

def mapTitle (event : Rec) : Rec :=
  OMap.ofFields
    [(js "type", text "session.titled"), (js "seq", event.get (js "seq")), (js "at", event.get (js "at")),
      (js "parent", onlyString (event.get (js "callId"))), (js "text", coalesce (event.get (js "text")) (text ""))]

def mapError (event : Rec) : Rec :=
  let turnParent := if isNumber (event.get (js "turn")) then some (storedTurnId (event.get (js "turn"))) else none
  OMap.ofFields (envelope "system.error" event ++
    [(js "parent", coalesce (event.get (js "parent")) turnParent), (js "source", text "system"),
      (js "code", coalesce (event.get (js "stage")) (text "")),
      (js "message", coalesce (event.get (js "message")) (text ""))])

/-- The event types with a mapping of their own. -/
def rewrites (dateParse : JsString → Option Int) : OMap JsString (Rec → Rec) :=
  [(js "turn.started", fun event => withDefault event (js "id") (storedTurnId (event.get (js "turn")))),
    (js "turn.finished", fun event => withDefault event (js "id") (storedTurnId (event.get (js "turn")))),
    (js "turn.interrupted", fun event => withDefault event (js "parent") (storedTurnId (event.get (js "turn")))),
    (js "cycle.started", mapCycleStarted), (js "call.started", mapCallStarted), (js "call", mapCall dateParse),
    (js "thinking", mapThinking), (js "reason.completed", mapReasonCompleted), (js "doc.search", mapDocSearch),
    (js "doc.content", mapDocContent), (js "files", mapFiles), (js "memory.recalled", mapMemoryRecalled),
    (js "session.created", mapSessionCreated), (js "ws.updated", mapWsUpdated),
    (js "action.started", mapActionStarted), (js "action.titled", mapActionTitled),
    (js "action.finished", mapActionFinished), (js "reply", mapReply), (js "title", mapTitle), (js "error", mapError)]

def normalizeStoredEvent (dateParse : JsString → Option Int) (event : Rec) : Rec :=
  match event.get (js "type") with
  | some (.str type) => ((rewrites dateParse).get type).getD withStep event
  | _ => withStep event

def LedgerEvent.reload (e : LedgerEvent) : LedgerEvent :=
  match e.body with
  | .memoryRecalled _ => { e with step := none }
  | _ => e

section

variable {dateParse : JsString → Option Int}

variable {event : Rec} {value : Json}

theorem withDefault_of_get {key : JsString} {v : Json} (h : event.get key = some v) (hv : v ≠ .null) :
    withDefault event key value = event := by
  have hc : (coalesce (event.get key) (some value)).getD value = v := by
    rw [h]
    cases v <;> first | rfl | exact absurd rfl hv
  rw [withDefault, hc, OMap.set_of_get h]

theorem withStep_of_get (h : event.get (js "cycle") = none) : withStep event = event := by
  rw [withStep, h]

variable (o : EventObject)

private theorem get_type : o.members.get (js "type") = some (.str o.event.body.type) := by
  rw [o.get_members]
  rfl

private theorem get_cycle : o.members.get (js "cycle") = none := by
  rw [o.get_members, o.event.get_fields_of_foreign (by simp)]
  rfl

private theorem get_actionId : o.members.get (js "actionId") = none := by
  rw [o.get_members, o.event.get_fields_of_foreign (by simp)]
  rfl

private theorem normalize_eq : normalizeStoredEvent dateParse o.members =
    ((rewrites dateParse).get o.event.body.type).getD withStep o.members := by
  rw [normalizeStoredEvent, get_type]

theorem fillSnapshot_of_get {snap : Rec} (h1 : ∃ v, snap.get (js "projects") = some v ∧ v ≠ .null)
    (h2 : ∃ v, snap.get (js "builtinTasks") = some v ∧ v ≠ .null)
    (h3 : ∃ v, snap.get (js "agents") = some v ∧ v ≠ .null)
    (h4 : ∃ v, snap.get (js "memoryIndex") = some v ∧ v ≠ .null) : mapSessionCreated.fillSnapshot snap = snap := by
  obtain ⟨v1, h1, n1⟩ := h1
  obtain ⟨v2, h2, n2⟩ := h2
  obtain ⟨v3, h3, n3⟩ := h3
  obtain ⟨v4, h4, n4⟩ := h4
  rw [mapSessionCreated.fillSnapshot, withDefault_of_get h1 n1, withDefault_of_get h2 n2, withDefault_of_get h3 n3,
    withDefault_of_get h4 n4]

theorem fillSnapshot_members (s : WorkspaceSnapshot) :
    mapSessionCreated.fillSnapshot (JsonValue.members s.fields) = JsonValue.members s.fields := by
  have hget := JsonValue.get_members s.nodup_fields
  exact fillSnapshot_of_get ⟨_, hget (js "projects"), by simp [JsonValue.ofArray]⟩
    ⟨_, hget (js "builtinTasks"), by simp [JsonValue.ofArray]⟩ ⟨_, hget (js "agents"), by simp [JsonValue.ofStr]⟩
    ⟨_, hget (js "memoryIndex"), by simp [JsonValue.ofStr]⟩

theorem normalizeStoredEvent_members (h : ∀ m, o.event.body ≠ .memoryRecalled m) :
    normalizeStoredEvent dateParse o.members = o.members := by
  rw [normalize_eq]
  have hstep : withStep o.members = o.members := withStep_of_get (get_cycle o)
  obtain ⟨⟨⟨turn, step, body⟩, seq, time⟩, members, hperm⟩ := o
  have hget := EventObject.get_members ⟨⟨⟨turn, step, body⟩, seq, time⟩, members, hperm⟩
  have hid := get_actionId ⟨⟨⟨turn, step, body⟩, seq, time⟩, members, hperm⟩
  cases body with
  | memoryRecalled m => exact absurd rfl (h m)
  | turnStarted | turnFinished => exact withDefault_of_get (hget (js "id")) (by simp [JsonValue.ofStr])
  | turnInterrupted e => exact withDefault_of_get (hget (js "parent")) (by simp [JsonValue.ofStr])
  | sessionCreated e =>
    have hs := hget (js "snapshot")
    change mapSessionCreated members = members
    have hv : members.get (js "snapshot") = some (.obj (JsonValue.members e.snapshot.fields)) := hs
    rw [mapSessionCreated, hv]
    dsimp only
    rw [fillSnapshot_members, OMap.set_of_get hv]
  | actionStarted e =>
    change mapActionStarted members = members
    rw [mapActionStarted, if_pos (by rw [hget (js "action")]; rfl), hstep]
  | actionFinished e =>
    change mapActionFinished members = members
    rw [mapActionFinished, if_pos (by rw [hget (js "action")]; rfl), hstep]
  | actionTitled e =>
    change mapActionTitled members = members
    rw [mapActionTitled, if_pos (by rw [hid]; rfl), hstep]
  | systemNotice e => obtain ⟨level, _⟩ := e; cases level <;> exact hstep
  | _ => exact hstep

theorem normalizeStoredEvent_memoryRecalled {m : MemoryRecalledEvent}
    (h : o.event.body = .memoryRecalled m) :
    normalizeStoredEvent dateParse o.members = { o.event with step := none }.members := by
  rw [normalize_eq, h]
  have hcycle := get_cycle o
  have hid := get_actionId o
  obtain ⟨⟨⟨turn, step, body⟩, seq, time⟩, members, hperm⟩ := o
  have hget := EventObject.get_members ⟨⟨⟨turn, step, body⟩, seq, time⟩, members, hperm⟩
  subst h
  have hparent : coalesce (members.get (js "parent")) (members.get (js "actionId")) =
      m.parent.map fun s => .str s := by
    rw [hid, hget (js "parent")]
    obtain ⟨_ | p, _⟩ := m <;> rfl
  change mapMemoryRecalled members = _
  rw [mapMemoryRecalled, envelope, hparent, hcycle, hget (js "seq"), hget (js "at"), hget (js "turn"),
    hget (js "version"), hget (js "source"), hget (js "path"), hget (js "content")]
  obtain ⟨_ | p, _⟩ := m <;> cases turn <;> rfl

/-- The stored form of an event, normalized, is the object of the event it reloads as. -/
theorem perm_normalizeStoredEvent :
    (normalizeStoredEvent dateParse o.members).Perm o.event.reload.members := by
  unfold LedgerEvent.reload
  split
  · rename_i m hm
    rw [normalizeStoredEvent_memoryRecalled o hm]
  · rename_i hm
    rw [normalizeStoredEvent_members o hm]
    exact o.perm

/-! ### Idempotence -/

private theorem get_withDefault_of_ne {key k : JsString} (h : key ≠ k) :
    (withDefault event key value).get k = event.get k := by
  rw [withDefault, OMap.get_set, if_neg h]

private theorem coalesce_ne_null {v : Option Json} (h : value ≠ .null) :
    (coalesce v (some value)).getD value ≠ .null := by
  unfold coalesce
  split <;> simp_all

private theorem get_withDefault (event : Rec) (key : JsString) (h : value ≠ .null) :
    ∃ v, (withDefault event key value).get key = some v ∧ v ≠ .null :=
  ⟨_, by rw [withDefault, OMap.get_set, if_pos rfl], coalesce_ne_null h⟩

private theorem withDefault_idem {key : JsString} {value' : Json} (h : value ≠ .null) :
    withDefault (withDefault event key value) key value' = withDefault event key value := by
  obtain ⟨v, hv, hne⟩ := get_withDefault event key h
  exact withDefault_of_get hv hne

private theorem fillSnapshot_idem (snap : Rec) :
    mapSessionCreated.fillSnapshot (mapSessionCreated.fillSnapshot snap) = mapSessionCreated.fillSnapshot snap := by
  apply fillSnapshot_of_get <;> unfold mapSessionCreated.fillSnapshot
  · rw [get_withDefault_of_ne (by decide), get_withDefault_of_ne (by decide), get_withDefault_of_ne (by decide)]
    exact get_withDefault _ _ (by simp)
  · rw [get_withDefault_of_ne (by decide), get_withDefault_of_ne (by decide)]
    exact get_withDefault _ _ (by simp)
  · rw [get_withDefault_of_ne (by decide)]
    exact get_withDefault _ _ (by simp)
  · exact get_withDefault _ _ (by simp)

private theorem mapSessionCreated_eq (event : Rec) :
    ∃ snap, mapSessionCreated event = event.set (js "snapshot") (.obj (mapSessionCreated.fillSnapshot snap)) := by
  unfold mapSessionCreated
  split
  · exact ⟨_, rfl⟩
  · exact ⟨_, rfl⟩
  · refine ⟨OMap.ofFields [(js "takenAt", event.get (js "at")), (js "deviceName", text ""), (js "agents", text ""),
        (js "memoryIndex", text ""), (js "builtinTasks", some (.arr [])), (js "projects", some (.arr []))], ?_⟩
    cases event.get (js "at") <;> rfl

private theorem mapSessionCreated_idem (event : Rec) :
    mapSessionCreated (mapSessionCreated event) = mapSessionCreated event := by
  obtain ⟨snap, h⟩ := mapSessionCreated_eq event
  have hget : (mapSessionCreated event).get (js "snapshot") =
      some (.obj (mapSessionCreated.fillSnapshot snap)) := by
    rw [h, OMap.get_set, if_pos rfl]
  conv_lhs => rw [mapSessionCreated, hget]
  dsimp only
  rw [fillSnapshot_idem, OMap.set_of_get hget]

private theorem get_cycle_withStep (event : Rec) (h : event.get (js "step") = none) :
    (withStep event).get (js "cycle") = none := by
  unfold withStep
  split
  · rw [OMap.get_set, if_neg (by decide), OMap.get_delete, if_pos rfl]
  rename_i h'
  rcases hc : event.get (js "cycle") with _ | c
  · rfl
  · exact absurd h (h' c hc)

private theorem withStep_idem (event : Rec) : withStep (withStep event) = withStep event := by
  rcases hs : event.get (js "step") with _ | s
  · exact withStep_of_get (get_cycle_withStep event hs)
  have h : withStep event = event := by
    unfold withStep
    rw [hs]
    split
    · rename_i h1 h2; cases h2
    · rfl
  rw [h, h]

private theorem get_withStep {k : JsString} (h1 : js "cycle" ≠ k) (h2 : js "step" ≠ k) :
    (withStep event).get k = event.get k := by
  unfold withStep
  split
  · rw [OMap.get_set, if_neg h2, OMap.get_delete, if_neg h1]
  · rfl

private theorem withStep_ofFields {fs : List (JsString × Option Json)} (h : js "cycle" ∉ fs.map Prod.fst) :
    withStep (OMap.ofFields fs) = OMap.ofFields fs := by
  apply withStep_of_get
  rw [OMap.get_eq_none_iff]
  exact fun hm => h ((OMap.keys_ofFields_sublist fs).mem hm)

variable {type : JsString}

private theorem normalize_ofFields {fs : List (JsString × Option Json)}
    (hplain : (rewrites dateParse).get type = none)
    (hcycle : js "cycle" ∉ ((js "type", some (Json.str type)) :: fs).map Prod.fst) :
    normalizeStoredEvent dateParse (OMap.ofFields ((js "type", some (.str type)) :: fs)) =
    OMap.ofFields ((js "type", some (.str type)) :: fs) := by
  have htype : (OMap.ofFields ((js "type", some (.str type)) :: fs)).get (js "type") = some (.str type) := rfl
  rw [normalizeStoredEvent, htype]
  dsimp only
  rw [hplain]
  exact withStep_ofFields hcycle

private theorem normalize_of_type {f : Rec → Rec} (htype : event.get (js "type") = some (.str type))
    (hf : (rewrites dateParse).get type = some f) : normalizeStoredEvent dateParse event = f event := by
  rw [normalizeStoredEvent, htype]
  dsimp only
  rw [hf]
  rfl

private theorem normalize_guarded (guard : Option Json → Bool) (key : JsString)
    {old : Rec → List (JsString × Option Json)}
    (hf : (rewrites dateParse).get type = some fun e => if guard (e.get key) then withStep e
      else OMap.ofFields ((js "type", some (.str type)) :: old e))
    (htype : event.get (js "type") = some (.str type)) (h1 : js "cycle" ≠ key) (h2 : js "step" ≠ key)
    (hguard : guard ((OMap.ofFields ((js "type", some (.str type)) :: old event)).get key) = true)
    (hcycle : js "cycle" ∉ ((js "type", some (Json.str type)) :: old event).map Prod.fst) :
    normalizeStoredEvent dateParse
        (if guard (event.get key) then withStep event
          else OMap.ofFields ((js "type", some (.str type)) :: old event)) =
      if guard (event.get key) then withStep event
      else OMap.ofFields ((js "type", some (.str type)) :: old event) := by
  split
  · rename_i hg
    rw [normalize_of_type ((get_withStep (by decide) (by decide)).trans htype) hf, get_withStep h1 h2, if_pos hg,
      withStep_idem]
  · rw [normalize_of_type rfl hf, if_pos hguard, withStep_ofFields hcycle]

private theorem coalesce_coalesce_none (v w : Option Json) :
    coalesce (coalesce v w) none = coalesce v w ↔ coalesce v w ≠ some .null := by
  rcases h : coalesce v w with _ | x
  · simp [coalesce]
  · cases x <;> simp [coalesce]

private theorem mapMemoryRecalled_idem_iff (event : Rec) : mapMemoryRecalled (mapMemoryRecalled event) =
    mapMemoryRecalled event ↔ event.get (js "cycle") = none ∧
    coalesce (event.get (js "parent")) (event.get (js "actionId")) ≠ some .null := by
  have hget (e : Rec) (k : JsString) : (mapMemoryRecalled e).get k = _ := OMap.get_ofFields (of_decide_eq_true rfl) k
  have hstep : (mapMemoryRecalled (mapMemoryRecalled event)).get (js "step") = none :=
    (hget (mapMemoryRecalled event) (js "step")).trans (hget event (js "cycle"))
  have hparent : (mapMemoryRecalled (mapMemoryRecalled event)).get (js "parent") =
      coalesce (coalesce (event.get (js "parent")) (event.get (js "actionId"))) none := by
    rw [hget (mapMemoryRecalled event) (js "parent")]
    change coalesce ((mapMemoryRecalled event).get (js "parent")) ((mapMemoryRecalled event).get (js "actionId")) = _
    rw [hget event (js "parent"), hget event (js "actionId")]
    rfl
  rw [← coalesce_coalesce_none]
  constructor
  · intro h
    rw [h] at hstep hparent
    exact ⟨(hget event (js "step")).symm.trans hstep, hparent.symm.trans (hget event (js "parent"))⟩
  · rintro ⟨hc, hp⟩
    rw [mapMemoryRecalled, envelope]
    rw [show (mapMemoryRecalled event).get (js "cycle") = none from hget event (js "cycle"),
      show (mapMemoryRecalled event).get (js "actionId") = none from hget event (js "actionId"),
      show (mapMemoryRecalled event).get (js "parent") = _ from hget event (js "parent"),
      show (mapMemoryRecalled event).get (js "seq") = _ from hget event (js "seq"),
      show (mapMemoryRecalled event).get (js "at") = _ from hget event (js "at"),
      show (mapMemoryRecalled event).get (js "turn") = _ from hget event (js "turn"),
      show (mapMemoryRecalled event).get (js "version") = _ from hget event (js "version"),
      show (mapMemoryRecalled event).get (js "source") = _ from hget event (js "source"),
      show (mapMemoryRecalled event).get (js "path") = _ from hget event (js "path"),
      show (mapMemoryRecalled event).get (js "content") = _ from hget event (js "content")]
    conv_rhs => rw [mapMemoryRecalled, envelope, hc, ← hp]
    rfl

private theorem rewrites_idem {f : Rec → Rec} (hf : (rewrites dateParse).get type = some f)
    (htype : event.get (js "type") = some (.str type)) (hm : type ≠ js "memory.recalled") :
    normalizeStoredEvent dateParse (f event) = f event := by
  have hmem : (type, f) ∈ rewrites dateParse := OMap.mem_of_get hf
  simp only [rewrites, List.mem_cons, Prod.mk.injEq, List.not_mem_nil, or_false] at hmem
  casesm* _ ∨ _
  all_goals obtain ⟨rfl, rfl⟩ := ‹_ ∧ _›
  -- turn.started, turn.finished, turn.interrupted
  iterate 3
    · rw [normalize_of_type ((get_withDefault_of_ne (by decide)).trans htype) hf]
      exact withDefault_idem (by simp [storedTurnId])
  -- the purely historical types, up to `files`
  any_goals exact normalize_ofFields rfl (of_decide_eq_true rfl)
  · exact absurd rfl hm
  · have ht : (mapSessionCreated event).get (js "type") = some (.str (js "session.created")) := by
      obtain ⟨snap, h⟩ := mapSessionCreated_eq event
      rw [h, OMap.get_set, if_neg (by decide), htype]
    rw [normalize_of_type ht hf, mapSessionCreated_idem]
  -- the action events, where new ones pass through
  · exact normalize_guarded Option.isSome (js "action") hf htype (by decide) (by decide)
      (by rw [OMap.get_ofFields (of_decide_eq_true rfl)]; rfl) (of_decide_eq_true rfl)
  · exact normalize_guarded Option.isNone (js "actionId") hf htype (by decide) (by decide)
      (by rw [OMap.get_ofFields (of_decide_eq_true rfl)]; rfl) (of_decide_eq_true rfl)
  · exact normalize_guarded Option.isSome (js "action") hf htype (by decide) (by decide)
      (by rw [OMap.get_ofFields (of_decide_eq_true rfl)]; rfl) (of_decide_eq_true rfl)

private theorem normalize_withStep
    (h : ∀ type f, event.get (js "type") = some (.str type) → (rewrites dateParse).get type ≠ some f) :
    normalizeStoredEvent dateParse event = withStep event := by
  unfold normalizeStoredEvent
  split
  · rename_i type htype
    rcases hf : (rewrites dateParse).get type with _ | f
    · rfl
    · exact absurd hf (h type f htype)
  · rfl

/-- Normalizing twice is normalizing once, unless a recalled memory still has its old `cycle` or a null owner. -/
theorem normalizeStoredEvent_idem_iff (event : Rec) :
    normalizeStoredEvent dateParse (normalizeStoredEvent dateParse event) = normalizeStoredEvent dateParse event ↔
      ¬ (event.get (js "type") = text "memory.recalled" ∧ (event.get (js "cycle") ≠ none ∨
        coalesce (event.get (js "parent")) (event.get (js "actionId")) = some .null)) := by
  by_cases hm : event.get (js "type") = text "memory.recalled"
  · rw [normalize_of_type hm rfl, normalize_of_type rfl rfl, mapMemoryRecalled_idem_iff]
    simp [hm]
  refine iff_of_true ?_ fun h => hm h.1
  by_cases hf : ∃ type f, event.get (js "type") = some (.str type) ∧ (rewrites dateParse).get type = some f
  · obtain ⟨type, f, htype, hf⟩ := hf
    rw [normalize_of_type htype hf]
    exact rewrites_idem hf htype fun h => hm (by rw [htype, h]; rfl)
  have hno : ∀ type f, event.get (js "type") = some (.str type) → (rewrites dateParse).get type ≠ some f :=
    fun type f h1 h2 => hf ⟨type, f, h1, h2⟩
  rw [normalize_withStep hno, normalize_withStep, withStep_idem]
  rw [get_withStep (by decide) (by decide)]
  exact hno

end

end Wrenyard.Session
