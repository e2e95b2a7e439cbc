import Wrenyard.Js.Json

/-!
# Route state

The in-memory route health of one gateway process.  A fault scope blocks requests until its `until`; a completion is
fenced by the generations of the scopes that were captured when its request was admitted.

Instants are milliseconds since the epoch.  The timers of the store are not part of its state: a timer that fires is
`RouteStateStore.timer`, for whichever key and at whichever instant.
-/

namespace Wrenyard.Gateway

open Js

/-- Milliseconds since the epoch. -/
abbrev Instant := Nat

inductive GatewayRouteState where
  | rateLimited
  | quotaExhausted
  | authFailed
  | accessDenied
  | modelUnavailable
deriving DecidableEq

abbrev RouteFaultKind := GatewayRouteState

inductive Scope where
  | provider
  | pool
  | route
deriving DecidableEq

def Scope.text : Scope → JsString
  | provider => js "provider"
  | pool => js "pool"
  | route => js "route"

inductive CircuitPhase where
  | closed
  | opened
deriving DecidableEq

/-- The route health a caller reads. -/
structure RouteStatus where
  state : GatewayRouteState
  until_ : Instant
  faultKind : RouteFaultKind
  phase : CircuitPhase
  resets : Bool
deriving DecidableEq

/-- The generations of the scopes that applied when a call started. -/
structure RouteGuard where
  generations : OMap JsString Nat
deriving DecidableEq

inductive Admission where
  | admitRoute (guard : RouteGuard)
  | blocked (status : RouteStatus)
deriving DecidableEq

structure Block where
  publicModel : JsString
  provider : JsString
  scope : Scope
  quotaPoolId : Option JsString
  state : GatewayRouteState
  faultKind : RouteFaultKind
  phase : CircuitPhase
  generation : Nat
  failures : Nat
  until_ : Instant
  status : Nat
  resets : Bool
  credential : Option JsString
deriving DecidableEq

structure MarkableFailure where
  state : GatewayRouteState
  scope : Option Scope
  quotaPoolId : Option JsString
  until_ : Option JsString
  faultKind : Option RouteFaultKind

def nativeFailureStatus (failure : MarkableFailure) : Nat :=
  match failure.faultKind.getD failure.state with
  | .rateLimited => 429
  | .quotaExhausted => 402
  | .authFailed => 401
  | .accessDenied => 403
  | .modelUnavailable => 404

def ROUTE_COOLDOWN_BASE_MS : Nat := 60000
def MAX_ROUTE_COOLDOWN_MS : Nat := 60 * 60000
def MAX_GENERATION_TOMBSTONES : Nat := 4096

/-- A value of `Math.random()`, in steps of `2 ^ -53`. -/
abbrev Draw := Fin (2 ^ 53)

/-- The parameters of the store, and what it takes from the platform: the reading of a date and the hash. -/
structure RouteConfig where
  pools : JsString → JsString → List JsString
  effectivePools : Option (JsString → JsString → List JsString)
  /-- `resetInstant` of a text, in whole milliseconds. -/
  resetInstant : JsString → Option Instant
  fingerprint : JsString → JsString

def RouteConfig.admissionPools (c : RouteConfig) (provider model : JsString) : List JsString :=
  match c.effectivePools with
  | some effectivePools => effectivePools provider model
  | none => c.pools provider model

structure RouteStateStore where
  blocks : OMap JsString Block
  generations : OMap JsString Nat
  sequence : Nat
  retiredFloor : Nat
deriving DecidableEq

def scopeKey (provider : JsString) (scope : Scope) (tag : JsString) : JsString :=
  Json.stringify (.arr [.str provider, .str scope.text, .str tag])

def providerKey (provider : JsString) : JsString := scopeKey provider .provider []

def publicModelOf (provider model : JsString) : JsString := provider ++ js "/" ++ model

def applicableKeys (c : RouteConfig) (provider model : JsString) : List JsString :=
  providerKey provider :: scopeKey provider .route model :: (c.pools provider model).map (scopeKey provider .pool)

structure FaultScope where
  key : JsString
  scope : Scope
  pool : Option JsString

def declaredScope (failure : MarkableFailure) : Scope :=
  match failure.state with
  | .authFailed => .provider
  | .modelUnavailable => .route
  | _ => failure.scope.getD .pool

def claimedPool (c : RouteConfig) (provider model : JsString) (failure : MarkableFailure) : Option JsString :=
  let bound := c.pools provider model
  let named := match failure.quotaPoolId with
    | some quotaPoolId => if quotaPoolId = [] then bound else bound.filter fun pool => pool = quotaPoolId
    | none => bound
  match declaredScope failure, named with
  | .pool, [pool] => some pool
  | _, _ => none

def scopeFor (c : RouteConfig) (provider model : JsString) (failure : MarkableFailure) : FaultScope :=
  let declared := declaredScope failure
  let pool := claimedPool c provider model failure
  let scope := if declared = .pool ∧ pool.getD [] = [] then .route else declared
  { key := scopeKey provider scope (pool.getD (if scope = .route then model else [])), scope := scope, pool := pool }

def Block.reads (block : Block) (provider model : JsString) (pools : List JsString) : Bool :=
  block.provider == provider &&
    match block.scope with
    | .provider => true
    | .route => block.publicModel == publicModelOf provider model
    | .pool => match block.quotaPoolId with
      | some pool => pools.contains pool
      | none => false

/-- An admission reads the block of its provider, of its own public model and of its quota pools, and no other. -/
theorem Block.reads_iff {block : Block} {provider model : JsString} {pools : List JsString} :
    block.reads provider model pools = true ↔ block.provider = provider ∧
      (block.scope = .provider ∨ (block.scope = .route ∧ block.publicModel = publicModelOf provider model) ∨
        (block.scope = .pool ∧ ∃ pool ∈ pools, block.quotaPoolId = some pool)) := by
  unfold Block.reads
  rw [Bool.and_eq_true, beq_iff_eq]
  refine and_congr_right fun _ => ?_
  cases block.scope with
  | provider => simp
  | route => simp
  | pool => cases block.quotaPoolId <;> simp

namespace RouteStateStore

def empty : RouteStateStore := ⟨[], [], 0, 0⟩

def advanceGeneration (s : RouteStateStore) (key : JsString) : RouteStateStore :=
  { s with
    sequence := s.sequence + 1
    generations := OMap.set (OMap.delete s.generations key) key (s.sequence + 1) }

/-- The loop of `pruneGenerations` over the entries that are left. -/
def pruneLoop (limit : Nat) : List (JsString × Nat) → RouteStateStore → RouteStateStore
  | [], s => s
  | (key, generation) :: rest, s =>
    if s.generations.length ≤ limit then s
    else if s.blocks.has key then pruneLoop limit rest s
    else pruneLoop limit rest
      { s with generations := s.generations.delete key, retiredFloor := max s.retiredFloor generation }

def pruneGenerations (s : RouteStateStore) : RouteStateStore :=
  let limit := s.blocks.length + MAX_GENERATION_TOMBSTONES
  if s.generations.length ≤ limit then s else pruneLoop limit s.generations s

def remove (s : RouteStateStore) (key : JsString) : RouteStateStore :=
  let s := s.advanceGeneration key
  { s with blocks := s.blocks.delete key }.pruneGenerations

def current (s : RouteStateStore) (key : JsString) : Nat := (s.generations.get key).getD s.retiredFloor

/-- End a block whose `until` passed. -/
def expireIfDue (s : RouteStateStore) (now : Instant) (key : JsString) (block : Block) : RouteStateStore :=
  if block.phase ≠ .opened ∨ now < block.until_ then s
  else if block.resets then s.remove key
  else { s with blocks := s.blocks.set key { block with phase := .closed } }

def timer (s : RouteStateStore) (now : Instant) (key : JsString) : RouteStateStore :=
  match s.blocks.get key with
  | none => s
  | some block => if block.until_ ≤ now then s.expireIfDue now key block else s

/-- The loop of `applying` over the entries that are left. -/
def applyingLoop (now : Instant) (provider model : JsString) (pools : List JsString) (withExpired : Bool) :
    List (JsString × Block) → RouteStateStore → List (JsString × Block) × RouteStateStore
  | [], s => ([], s)
  | (key, block) :: rest, s =>
    if block.provider ≠ provider then applyingLoop now provider model pools withExpired rest s
    else
      let s := s.expireIfDue now key block
      let (result, after) := applyingLoop now provider model pools withExpired rest s
      match s.blocks.get key with
      | none => (result, after)
      | some block =>
        if (withExpired || block.phase == .opened) && block.reads provider model pools then
          ((key, block) :: result, after)
        else (result, after)

def applying (c : RouteConfig) (s : RouteStateStore) (now : Instant) (provider model : JsString)
    (withExpired : Bool) :
    List (JsString × Block) × RouteStateStore :=
  applyingLoop now provider model (c.admissionPools provider model) withExpired s.blocks s

def statusOf (block : Block) (until_ : Instant) : RouteStatus :=
  ⟨block.state, until_, block.faultKind, block.phase, block.resets⟩

/-- The most recently generated block; ties resolve to the last one seen. -/
def newest (first : Block) (blocks : List Block) : Block :=
  blocks.foldl (fun latest block => if latest.generation ≤ block.generation then block else latest) first

/-- The availability across the blocking scopes: the newest fault, blocked until the latest `until`. -/
def project : List (JsString × Block) → Option RouteStatus
  | [] => none
  | entry :: rest =>
    let blocks := (entry :: rest).map Prod.snd
    some (statusOf (newest entry.2 blocks) ((blocks.map Block.until_).foldl max 0))

def status (c : RouteConfig) (s : RouteStateStore) (now : Instant) (provider model : JsString) :
    Option RouteStatus × RouteStateStore :=
  let (applying, s) := s.applying c now provider model false
  (project applying, s)

def capture (c : RouteConfig) (s : RouteStateStore) (provider model : JsString) : RouteGuard :=
  ⟨(applicableKeys c provider model).foldl
    (fun generations key => OMap.set generations key ((s.generations.get key).getD s.sequence)) []⟩

def admitRoute (c : RouteConfig) (s : RouteStateStore) (now : Instant) (provider model : JsString) :
    Admission × RouteStateStore :=
  let (applying, s) := s.applying c now provider model false
  match project applying with
  | none => (.admitRoute (s.capture c provider model), s)
  | some status => (.blocked status, s)

def backoffMs (random : Draw) (failures : Nat) : Nat :=
  let delay := min (ROUTE_COOLDOWN_BASE_MS * 2 ^ (failures - 1)) MAX_ROUTE_COOLDOWN_MS
  delay + random.val * delay / (4 * 2 ^ 53)

def stale (s : RouteStateStore) (key provider : JsString) (guard : RouteGuard) : Bool :=
  (guard.generations.get key).getD 0 < s.current key ||
    (guard.generations.get (providerKey provider)).getD 0 < s.current (providerKey provider)

def faultBlock (c : RouteConfig) (now : Instant) (random : Draw) (provider model : JsString)
    (failure : MarkableFailure)
    (status : Nat) (credential : JsString) (previous : Option Block) (generation : Nat) : Block :=
  let scope := scopeFor c provider model failure
  let bound := failure.until_.bind c.resetInstant
  let failures := (previous.map Block.failures).getD 0 + 1
  { publicModel := publicModelOf provider model
    provider := provider
    scope := scope.scope
    quotaPoolId := scope.pool.filter fun pool => pool ≠ []
    state := failure.state
    faultKind := failure.faultKind.getD failure.state
    phase := .opened
    generation := generation
    failures := failures
    until_ := match bound with
      | none => now + backoffMs random failures
      | some bound => max (now + 1) bound
    status := status
    resets := bound.isSome
    credential := if failure.state = .authFailed then some (c.fingerprint credential) else none }

def mark (c : RouteConfig) (s : RouteStateStore) (now : Instant) (random : Draw) (provider model : JsString)
    (failure : MarkableFailure) (status : Nat) (credential : JsString) (guard : Option RouteGuard) :
    Option RouteStatus × RouteStateStore :=
  let key := (scopeFor c provider model failure).key
  let previous := s.blocks.get key
  if guard.any (s.stale key provider) then (previous.map fun block => statusOf block block.until_, s)
  else
    let s := s.advanceGeneration key
    let block := faultBlock c now random provider model failure status credential previous s.sequence
    (some (statusOf block block.until_), { s with blocks := s.blocks.set key block }.pruneGenerations)

def reportNativeRouteFault (c : RouteConfig) (s : RouteStateStore) (now : Instant) (random : Draw)
    (provider model : JsString) (failure : MarkableFailure) (guard : Option RouteGuard) :
    Option RouteStatus × RouteStateStore :=
  s.mark c now random provider model failure (nativeFailureStatus failure) [] guard

def seen (s : RouteStateStore) (guard : Option RouteGuard) (key : JsString) : Bool :=
  guard.all fun guard => guard.generations.get key == s.generations.get key

def success (c : RouteConfig) (s : RouteStateStore) (now : Instant) (provider model : JsString)
    (guard : Option RouteGuard) : RouteStateStore :=
  let (applying, s) := s.applying c now provider model true
  applying.foldl (fun s entry => if s.seen guard entry.1 then s.remove entry.1 else s) s

def observeCredential (c : RouteConfig) (s : RouteStateStore) (provider value : JsString) : RouteStateStore :=
  let current := c.fingerprint value
  s.blocks.foldl (fun s entry =>
    if entry.2.provider = provider ∧ entry.2.credential.any (· ≠ current) then s.remove entry.1 else s) s

def clearProvider (s : RouteStateStore) (provider : JsString) : RouteStateStore :=
  let s := s.advanceGeneration (providerKey provider)
  (s.blocks.foldl (fun s entry => if entry.2.provider = provider then s.remove entry.1 else s) s).pruneGenerations

end RouteStateStore

end Wrenyard.Gateway
