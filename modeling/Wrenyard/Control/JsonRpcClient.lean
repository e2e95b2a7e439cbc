import Wrenyard.Control.Ndjson

/-!
# The client of the daemon's connection

A client keeps a table of the requests that wait for a response.  The first business request starts the handshake,
which is itself a request through the same table; every other request waits for it.  What happens to a client comes in
any order: calls, responses, timers, the outcomes of sends, and the continuations of the handshake (`perform`).

A promise is a request record with the list of its settlements, and the resolvers that a row of the table holds are
the number of that record.
-/

namespace Wrenyard.Control

open Js

inductive JsonRpcId where
  | null
  | num (n : JsNumber)
  | str (s : JsString)

namespace JsonRpcId

def toJson : JsonRpcId → Json
  | .null => .null
  | .num n => .num n
  | .str s => .str s

/-- `isJsonRpcId`, with the value read. -/
def ofJson : Json → Option JsonRpcId
  | .null => some .null
  | .num n => some (.num n)
  | .str s => some (.str s)
  | _ => none

/-- `String(id)`. -/
def text : JsonRpcId → JsString
  | .null => js "null"
  | .num n => n.text
  | .str s => s

end JsonRpcId

def pendingKey : JsonRpcId → JsString
  | .null => js "object:null"
  | .num n => js "number:" ++ n.text
  | .str s => js "string:" ++ s

/-- The values of `PROTOCOL_ERROR_CODES`. -/
def protocolErrorCodes : List JsNumber :=
  ([-32700, -32600, -32601, -32602, -32603, -32000, -32001, -32002, -32003, -32004, -32006, -32007] : List Int).map
    JsNumber.ofInt

inductive Failure where
  | protocolError (code : JsNumber) (message : JsString) (data : Option Json)
  /-- An error with the name `JsonRpcClientError`. -/
  | clientError (code : JsNumber) (message : JsString) (data : Option Json)
  | error (message : JsString)

/-- How a promise settles. -/
abbrev Outcome := Except Failure Json

def errorFromJsonRpc (code : JsNumber) (message : JsString) (data : Option Json) : Failure :=
  if code ∈ protocolErrorCodes then .protocolError code message data else .clientError code message data

/-- `OPERATION_TIMEOUT` with the data of the request. -/
def operationTimeout (id : JsonRpcId) (method : JsString) (timeoutMs : JsNumber) : Failure :=
  .protocolError (JsNumber.ofInt (-32007)) (js "Operation timeout")
    (some (.obj [(js "id", id.toJson), (js "method", .str method), (js "timeoutMs", .num timeoutMs)]))

def protocolVersionMismatchMessage (cliVersion : JsNumber) (daemonVersion : Option Json) : JsString :=
  let daemon := match daemonVersion with
    | some (.num n) => n.text
    | _ => js "未知"
  js "CLI 与 daemon 协议版本不一致（CLI " ++ cliVersion.text ++ js "，daemon " ++ daemon ++ js "），请使用同一版本"

/-- `isResponseMessage`: the members of a response, with its id. -/
def responseOf (message : Json) : Option (JsonRpcId × List (JsString × Json)) :=
  match message with
  | .obj members =>
    if OMap.get members (js "jsonrpc") = some (.str (js "2.0")) then
      match (OMap.get members (js "id")).bind JsonRpcId.ofJson with
      | some id =>
        if OMap.has members (js "result") || OMap.has members (js "error") then some (id, members) else none
      | none => none
    else none
  | _ => none

/-- The error object of a response, when it has the right form. -/
def errorMember (members : List (JsString × Json)) : Option Failure :=
  match OMap.get members (js "error") with
  | some (.obj error) =>
    match OMap.get error (js "code"), OMap.get error (js "message") with
    | some (.num code), some (.str message) => some (errorFromJsonRpc code message (OMap.get error (js "data")))
    | _, _ => none
  | _ => none

def answer (id : JsonRpcId) (members : List (JsString × Json)) : Outcome :=
  match errorMember members, OMap.get members (js "result") with
  | some failure, _ => .error failure
  | none, some result => .ok result
  | none, none => .error (.error (js "Invalid JSON-RPC response for request " ++ id.text))

def requestFrame (method : JsString) (params : Option Json) (id : Option JsonRpcId) : JsString :=
  encodeFrame (.obj (OMap.ofFields [(js "jsonrpc", some (.str (js "2.0"))), (js "method", some (.str method)),
    (js "params", params), (js "id", id.map JsonRpcId.toJson)]))

/-! ### The client -/

structure JsonRpcClientOptions where
  timeoutMs : Option JsNumber
  /-- Whether ids come from a given function. -/
  idFactory : Bool
  protocolVersion : Option JsNumber
  handshake : Option Bool

namespace JsonRpcClientOptions

def defaultTimeoutMs (cfg : JsonRpcClientOptions) : JsNumber := cfg.timeoutMs.getD (.ofNat 30000)

def version (cfg : JsonRpcClientOptions) : JsNumber := cfg.protocolVersion.getD (.ofNat 2)

def handshakeEnabled (cfg : JsonRpcClientOptions) : Bool := cfg.handshake.getD true

end JsonRpcClientOptions

def handshakeMethod : JsString := js "health.ping"

/-- A call of `request`, or the request of the handshake, with its promise. -/
structure Request where
  method : JsString
  params : Option Json
  /-- `options.timeoutMs`: missing, `null` or a number. -/
  timeoutMs : Option (Option JsNumber)
  /-- A call from outside, not the handshake's own request. -/
  business : Bool
  /-- Its id, once `sendRequest` has given it one. -/
  id : Option JsonRpcId
  outcomes : List Outcome

variable (cfg : JsonRpcClientOptions)

def Request.deadline (r : Request) : JsNumber :=
  (r.timeoutMs.bind fun t => t).getD cfg.defaultTimeoutMs

/-- A call of `notify`. -/
structure Notice where
  method : JsString
  params : Option Json
  /-- Whether it waits for the handshake. -/
  waiting : Bool
  failure : Option Failure

/-- `handshakePromise`. -/
inductive Handshake where
  | idle
  /-- Its request has this number. -/
  | sent (k : Nat)
  /-- Its `then` has failed, and its `catch` is still to run. -/
  | failing (error : Failure)
  | completed
  | failed (error : Failure)

/-- What goes out through the transport. -/
inductive Effect where
  | request (k : Nat) (frame : JsString)
  | notification (j : Nat) (frame : JsString)
  | close

structure State where
  requests : List Request
  notices : List Notice
  /-- The request whose resolvers each row holds. -/
  pending : OMap JsString Nat
  /-- The requests whose timer runs. -/
  timers : List Nat
  /-- The requests whose send has not settled. -/
  sending : List Nat
  nextNumericId : Nat
  handshake : Handshake
  closedError : Option Failure
  effects : List Effect

namespace State

/-- A new client. -/
def initial : State where
  requests := []
  notices := []
  pending := []
  timers := []
  sending := []
  nextNumericId := 1
  handshake := .idle
  closedError := none
  effects := []

def keyOf (st : State) (k : Nat) : Option JsString := ((st.requests[k]?).bind Request.id).map pendingKey

def outcomes (st : State) (k : Nat) : List Outcome := ((st.requests[k]?).map Request.outcomes).getD []

/-- Call `resolve` or `reject` of a request. -/
def settle (st : State) (k : Nat) (o : Outcome) : State :=
  { st with requests := st.requests.modify k fun r => { r with outcomes := r.outcomes ++ [o] } }

def clearTimeout (st : State) (k : Nat) : State := { st with timers := st.timers.filter (· ≠ k) }

/-- Take a row out of the table and settle its request: `rejectPending`, and what a response does. -/
def settleRow (st : State) (key : JsString) (o : Outcome) : State :=
  match st.pending.get key with
  | none => st
  | some k => settle { st.clearTimeout k with pending := st.pending.delete key } k o

def rejectPending (st : State) (id : JsonRpcId) (error : Failure) : State :=
  st.settleRow (pendingKey id) (.error error)

def handleMessage (st : State) (message : Json) : State :=
  match responseOf message with
  | none => st
  | some (id, members) => st.settleRow (pendingKey id) (answer id members)

def clearPending (st : State) (error : Failure) : State :=
  { st.pending.foldl (fun st row => (st.clearTimeout row.2).settle row.2 (.error error)) st with pending := [] }

def close (st : State) (error : Failure) : State :=
  clearPending { st with closedError := some (st.closedError.getD error) } error

/-- `createId`, where `provided` is what `idFactory` returns. -/
def createId (st : State) (provided : Option JsonRpcId) : JsonRpcId × State :=
  match provided with
  | some id => (id, st)
  | none => (.num (.ofNat st.nextNumericId), { st with nextNumericId := st.nextNumericId + 1 })

/-- `sendRequest` for the request with number `k`. -/
def sendRequest (st : State) (k : Nat) (r : Request) (provided : Option JsonRpcId) : State :=
  match st.closedError with
  | some error => st.settle k (.error error)
  | none =>
    let (id, st) := st.createId provided
    { st with
      requests := st.requests.modify k fun r => { r with id := some id }
      pending := st.pending.set (pendingKey id) k
      timers := if r.timeoutMs = some none then st.timers else k :: st.timers
      sending := k :: st.sending
      effects := st.effects ++ [.request k (requestFrame r.method r.params (some id))] }

/-- A new request record, and `sendRequest` for it. -/
def sendNew (st : State) (r : Request) (provided : Option JsonRpcId) : State :=
  sendRequest { st with requests := st.requests ++ [r] } st.requests.length r provided

def handshakeRequest (cfg : JsonRpcClientOptions) : Request where
  method := handshakeMethod
  params := some (.obj [(js "protocolVersion", .num cfg.version)])
  timeoutMs := none
  business := false
  id := none
  outcomes := []

/-- `handshake()`: the first call starts it. -/
def startHandshake (st : State) (provided : Option JsonRpcId) : State :=
  match st.handshake with
  | .idle => { st.sendNew (handshakeRequest cfg) provided with handshake := .sent st.requests.length }
  | _ => st

def daemonVersion (result : Json) : Option Json :=
  match result with
  | .obj members => OMap.get members (js "protocolVersion")
  | _ => none

/-- The `then` of the handshake, with what its request has settled with. -/
def handshakeThen (cfg : JsonRpcClientOptions) (st : State) (o : Outcome) : State :=
  match o with
  | .error error => { st with handshake := .failing error }
  | .ok result =>
    if daemonVersion result = some (.num cfg.version) then { st with handshake := .completed }
    else
      let error := Failure.error (protocolVersionMismatchMessage cfg.version (daemonVersion result))
      { st.clearPending error with handshake := .failing error }

/-- The `catch` of the handshake. -/
def handshakeCatch (st : State) (error : Failure) : State :=
  let st := st.close error
  { st with handshake := .failed error, effects := st.effects ++ [.close] }

/-- The end of `notify`, behind the handshake. -/
def sendNotice (st : State) (j : Nat) (n : Notice) : State :=
  match st.closedError with
  | some error => { st with notices := st.notices.set j { n with waiting := false, failure := some error } }
  | none =>
    { st with
      notices := st.notices.set j { n with waiting := false }
      effects := st.effects ++ [.notification j (requestFrame n.method n.params none)] }

end State

inductive Op where
  /-- `request(method, params, options)`. -/
  | request (method : JsString) (params : Option Json) (timeoutMs : Option (Option JsNumber))
      (provided : Option JsonRpcId)
  /-- `handshake()`. -/
  | handshake (provided : Option JsonRpcId)
  /-- `notify(method, params)`. -/
  | notify (method : JsString) (params : Option Json) (provided : Option JsonRpcId)
  /-- The handshake has settled, and a request that waits for it goes on. -/
  | proceed (k : Nat) (provided : Option JsonRpcId)
  /-- The same for a notification. -/
  | proceedNotify (j : Nat)
  /-- `handleMessage`. -/
  | incoming (message : Json)
  /-- The timer of a request fires. -/
  | timeout (k : Nat)
  /-- The send of a request has failed, at once or later. -/
  | sendFailed (k : Nat) (error : Failure)
  | sent (k : Nat)
  | handshakeThen
  | handshakeCatch
  /-- `clearPending(error)`. -/
  | clearPending (error : Option Failure)
  /-- `close(error)`. -/
  | close (error : Option Failure)
  /-- `dispose(error)`. -/
  | dispose (error : Option Failure)

def closedFailure (error : Option Failure) : Failure := error.getD (.error (js "JsonRpcClient closed"))

def disposedFailure (error : Option Failure) : Failure := error.getD (.error (js "JsonRpcClient disposed"))

/-- One step; `none` where it cannot happen. -/
def perform (cfg : JsonRpcClientOptions) (st : State) : Op → Option State
  | .request method params timeoutMs provided =>
    let r : Request := ⟨method, params, timeoutMs, true, none, []⟩
    if cfg.handshakeEnabled then
      let st := st.startHandshake cfg provided
      some { st with requests := st.requests ++ [r] }
    else some (st.sendNew r provided)
  | .handshake provided => some (st.startHandshake cfg provided)
  | .notify method params provided =>
    let n : Notice := ⟨method, params, true, none⟩
    if cfg.handshakeEnabled then
      let st := st.startHandshake cfg provided
      some { st with notices := st.notices ++ [n] }
    else some (State.sendNotice { st with notices := st.notices ++ [n] } st.notices.length n)
  | .proceed k provided => do
    let r ← st.requests[k]?
    if cfg.handshakeEnabled ∧ r.business ∧ r.id = none ∧ r.outcomes.isEmpty then
      match st.handshake with
      | .completed => some (st.sendRequest k r provided)
      | .failed error => some (st.settle k (.error error))
      | _ => none
    else none
  | .proceedNotify j => do
    let n ← st.notices[j]?
    if n.waiting then
      match st.handshake with
      | .completed => some (st.sendNotice j n)
      | .failed error =>
        some { st with notices := st.notices.set j { n with waiting := false, failure := some error } }
      | _ => none
    else none
  | .incoming message => some (st.handleMessage message)
  | .timeout k => do
    let r ← st.requests[k]?
    let id ← r.id
    if k ∈ st.timers then
      let st := st.clearTimeout k
      if st.pending.has (pendingKey id) then
        some (State.settle { st with pending := st.pending.delete (pendingKey id) } k
          (.error (operationTimeout id r.method (r.deadline cfg))))
      else some st
    else none
  | .sendFailed k error => do
    let r ← st.requests[k]?
    let id ← r.id
    if k ∈ st.sending then
      some (State.rejectPending { st with sending := st.sending.filter (· ≠ k) } id error)
    else none
  | .sent k => if k ∈ st.sending then some { st with sending := st.sending.filter (· ≠ k) } else none
  | .handshakeThen =>
    match st.handshake with
    | .sent k => do
      let r ← st.requests[k]?
      let o ← r.outcomes.head?
      some (st.handshakeThen cfg o)
    | _ => none
  | .handshakeCatch =>
    match st.handshake with
    | .failing error => some (st.handshakeCatch error)
    | _ => none
  | .clearPending error => some (st.clearPending (closedFailure error))
  | .close error => some (st.close (closedFailure error))
  | .dispose error => some (st.close (disposedFailure error))

/-- The ids that a client may be given: none where it counts itself, and otherwise no id of a request that is still
pending or being sent.  An id that the step does not need is any such id. -/
def Op.Allowed (st : State) : Op → Prop
  | .request _ _ _ provided | .handshake provided | .notify _ _ provided | .proceed _ provided =>
    provided.isSome = cfg.idFactory ∧ ∀ id ∈ provided, st.pending.get (pendingKey id) = none ∧
      ∀ k ∈ st.sending, st.keyOf k ≠ some (pendingKey id)
  | _ => True

def Step (st : State) (op : Op) (st' : State) : Prop :=
  op.Allowed cfg st ∧ perform cfg st op = some st'

end Wrenyard.Control
