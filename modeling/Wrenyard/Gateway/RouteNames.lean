import Wrenyard.Gateway.RouteCircuit
import Wrenyard.Gateway.RouteFence

/-!
# The names of routes

The gateway's own entry points normalise a model string before they reach the store: `m:cc` and `m` are one route.
`reportNativeRouteFault` does not, so a fault of a client-qualified string may be recorded under a scope that no one
reads.
-/

namespace Wrenyard.Gateway

open Js Transition

def PUBLIC_CLIENT_KEYS : List JsString :=
  [js "cc", js "cb", js "codex", js "cur", js "gk", js "dsh", js "oc", js "pi", js "kc"]

def inheritedNames : List JsString :=
  [js "constructor", js "__defineGetter__", js "__defineSetter__", js "hasOwnProperty", js "__lookupGetter__",
    js "__lookupSetter__", js "isPrototypeOf", js "propertyIsEnumerable", js "toString", js "valueOf", js "__proto__",
    js "toLocaleString"]

def bareModelId (model : JsString) : JsString :=
  match lastIndexOf model 58 with
  | none => model
  | some colon =>
    if colon = 0 then model
    else if PUBLIC_CLIENT_KEYS.contains (model.drop (colon + 1)) ||
      inheritedNames.contains (model.drop (colon + 1)) then
      model.take colon
    else model

structure RouteKey where
  provider : JsString
  model : JsString

def splitModel (publicModel : JsString) : Option RouteKey :=
  match indexOf publicModel 47 with
  | none => none
  | some separator =>
    if separator = 0 then none else some ⟨publicModel.take separator, publicModel.drop (separator + 1)⟩

def routeModel (model : JsString) : JsString := bareModelId model

/-- The providers of a catalog with the ids of their models. -/
abbrev GatewayCatalog := List (JsString × List JsString)

def gatewayRouteKey (catalog : GatewayCatalog) (identity : JsString) : Option RouteKey :=
  match splitModel identity with
  | some qualified => some ⟨qualified.provider, routeModel qualified.model⟩
  | none =>
    if trim identity = [] then none
    else
      match catalog.filter fun provider => provider.2.contains (routeModel identity) with
      | [provider] => some ⟨provider.1, routeModel identity⟩
      | _ => none

def routeStatus (c : RouteConfig) (catalog : GatewayCatalog) (s : RouteStateStore) (now : Instant)
    (publicModel : JsString) : Option RouteStatus :=
  match gatewayRouteKey catalog publicModel with
  | none => none
  | some key => (s.status c now key.provider key.model).1

def admitRoute (c : RouteConfig) (s : RouteStateStore) (now : Instant) (provider model : JsString) :
    Admission × RouteStateStore := s.admitRoute c now provider (routeModel model)

def completeRouteSuccess (c : RouteConfig) (s : RouteStateStore) (now : Instant) (provider model : JsString)
    (guard : Option RouteGuard) : RouteStateStore := s.success c now provider (routeModel model) guard

def reportNativeRouteFault (c : RouteConfig) (s : RouteStateStore) (now : Instant) (random : Draw)
    (provider model : JsString) (failure : MarkableFailure) (guard : Option RouteGuard) : RouteStateStore :=
  (s.reportNativeRouteFault c now random provider model failure guard).2

variable {c : RouteConfig} {catalog : GatewayCatalog} {provider model : JsString} {failure : MarkableFailure}

structure Reports (c : RouteConfig) (catalog : GatewayCatalog) (provider model : JsString) (failure : MarkableFailure)
    (until_ : Instant) (w : RouteWorld) : Prop where
  admission : ∃ status, (admitRoute c w.store w.now provider model).1 = .blocked status ∧ until_ ≤ status.until_ ∧
    status.state = failure.state ∧ status.faultKind = failure.faultKind.getD failure.state
  status : ∀ publicModel, splitModel publicModel = some ⟨provider, model⟩ →
    ∃ status, routeStatus c catalog w.store w.now publicModel = some status ∧ until_ ≤ status.until_ ∧
      status.state = failure.state ∧ status.faultKind = failure.faultKind.getD failure.state

/-- A fault that a native caller reports for a route, with the guard its admission was given, is the fault of that
route for every caller: they are refused until it ends, and a success admitted after the fault clears it. -/
def SameRoute (c : RouteConfig) (catalog : GatewayCatalog) (provider model : JsString)
    (failure : MarkableFailure) : Prop :=
  ∀ (w₀ w₁ w₂ w₃ : RouteWorld) (guard : RouteGuard) (tr : List RouteLabel) (random : Draw), RouteReached c w₀ →
    RouteStep c w₀ (.admitRoute provider (routeModel model), .admission (.admitRoute guard)) w₁ →
      Run (RouteStep c) w₁ tr w₂ →
    -- the report is not overtaken
    w₂.store.stale (scopeFor c provider model failure).key provider guard = false →
    w₃ = { w₂ with
      store := reportNativeRouteFault c w₂.store w₂.now random provider model failure (some guard) } →
    ∃ until_, w₂.now < until_ ∧
      (∀ tr w, Run (fun w e w' => RouteStep c w e w' ∧ Quiet w e.1 w') w₃ tr w → w.now < until_ →
        Reports c catalog provider model failure until_ w ∧
          Reports c catalog provider (routeModel model) failure until_ w) ∧
      ∀ tr₄ w₄ tr₅ w₅ key block, Run (RouteStep c) w₃ tr₄ w₄ → Run (RouteStep c) w₄ tr₅ w₅ →
        w₃.store.sequence = block.generation →
        (completeRouteSuccess c w₅.store w₅.now provider model
          (some (w₄.store.capture c provider (routeModel model)))).blocks.get key ≠ some block

def readsFault (c : RouteConfig) (provider model : JsString) (failure : MarkableFailure) (reader : JsString) : Bool :=
  match (scopeFor c provider model failure).scope with
  | .provider => true
  | .route => publicModelOf provider model == publicModelOf provider reader
  | .pool => (c.admissionPools provider reader).contains ((scopeFor c provider model failure).pool.getD [])

structure Named (c : RouteConfig) (provider model : JsString) (failure : MarkableFailure) : Prop where
  captured : (scopeFor c provider model failure).key ∈ applicableKeys c provider (routeModel model)
  reads : readsFault c provider model failure (routeModel model) = true
  readsBare : readsFault c provider model failure (routeModel (routeModel model)) = true

private theorem pool_of_scope (h : (scopeFor c provider model failure).scope = .pool) :
    ∃ pool, (scopeFor c provider model failure).pool = some pool ∧ pool ≠ [] := by
  unfold scopeFor at h ⊢
  simp only at h ⊢
  split at h
  · cases h
  rename_i hpool
  rw [h] at hpool
  cases hclaimed : claimedPool c provider model failure <;> rw [hclaimed] at hpool
  case none => exact absurd ⟨rfl, rfl⟩ hpool
  case some pool =>
    refine ⟨pool, rfl, ?_⟩
    rintro rfl
    exact hpool ⟨rfl, rfl⟩

theorem reads_faultBlock {now : Instant} {random : Draw} {status : Nat} {credential : JsString}
    {previous : Option Block}
    {generation : Nat} (reader : JsString) :
    (RouteStateStore.faultBlock c now random provider model failure status credential previous generation).reads
      provider reader (c.admissionPools provider reader) = readsFault c provider model failure reader := by
  unfold Block.reads readsFault RouteStateStore.faultBlock
  simp only [beq_self_eq_true, Bool.true_and]
  cases hscope : (scopeFor c provider model failure).scope with
  | provider => rfl
  | route => rfl
  | pool =>
    obtain ⟨pool, hpool, hne⟩ := pool_of_scope hscope
    rw [hpool]
    simp [hne, Option.filter]

/-- A fault of a route's own scope is read under the normalised string where that is the string itself. -/
theorem named_route_iff (hscope : (scopeFor c provider model failure).scope = .route)
    (hpool : (scopeFor c provider model failure).pool = none) :
    Named c provider model failure ↔ routeModel model = model := by
  have hreads : ∀ reader, readsFault c provider model failure reader = true ↔ model = reader := by
    intro reader
    unfold readsFault publicModelOf
    rw [hscope]
    simp
  have hkey : (scopeFor c provider model failure).key = scopeKey provider .route model := by
    unfold scopeFor at hscope hpool ⊢
    simp only at hscope hpool ⊢
    rw [hpool] at hscope ⊢
    rw [hscope]
    rfl
  constructor
  · intro h
    exact ((hreads _).mp h.reads).symm
  · intro h
    refine ⟨?_, (hreads _).mpr h.symm, (hreads _).mpr (by rw [h, h])⟩
    rw [hkey, h]
    exact List.mem_cons_of_mem _ (List.mem_cons_self ..)

/-! ### A fault that is read -/

variable {w₀ w₁ w₂ w₃ w : RouteWorld} {tr : List RouteLabel} {guard : RouteGuard} {random : Draw}

theorem lt_until_faultBlock {now : Instant} {status : Nat} {credential : JsString} {previous : Option Block}
    {generation : Nat} :
    now < (RouteStateStore.faultBlock c now random provider model failure status credential previous
      generation).until_ := by
  have hbackoff : ∀ failures, 0 < RouteStateStore.backoffMs random failures := by
    intro failures
    have hpos : 0 < 2 ^ (failures - 1) := Nat.two_pow_pos _
    have hdelay : 0 < min (ROUTE_COOLDOWN_BASE_MS * 2 ^ (failures - 1)) MAX_ROUTE_COOLDOWN_MS :=
      lt_min (Nat.mul_pos (by decide) hpos) (by decide)
    exact Nat.lt_of_lt_of_le hdelay (Nat.le_add_right _ _)
  unfold RouteStateStore.faultBlock
  cases failure.until_.bind c.resetInstant with
  | none => exact Nat.lt_add_of_pos_right (hbackoff _)
  | some bound => exact Nat.lt_of_lt_of_le (Nat.lt_succ_self now) (Nat.le_max_left _ _)

private theorem newest_spec (blocks : List Block) (first : Block) :
    (RouteStateStore.newest first blocks = first ∨ RouteStateStore.newest first blocks ∈ blocks) ∧
      first.generation ≤ (RouteStateStore.newest first blocks).generation ∧
      ∀ block ∈ blocks, block.generation ≤ (RouteStateStore.newest first blocks).generation := by
  unfold RouteStateStore.newest
  induction blocks generalizing first with
  | nil => exact ⟨Or.inl rfl, Nat.le_refl _, (by rintro _ ⟨⟩)⟩
  | cons block blocks ih =>
    rw [List.foldl_cons]
    split
    · rename_i hle
      obtain ⟨hmem, hfirst, hall⟩ := ih block
      refine ⟨Or.inr ?_, hle.trans hfirst, ?_⟩
      · rcases hmem with heq | hmem
        · rw [heq]
          exact List.mem_cons_self ..
        · exact List.mem_cons_of_mem _ hmem
      · intro block' hb
        rcases List.mem_cons.mp hb with rfl | hb
        · exact hfirst
        · exact hall block' hb
    · rename_i hlt
      obtain ⟨hmem, hfirst, hall⟩ := ih first
      refine ⟨hmem.imp id (List.mem_cons_of_mem _), hfirst, ?_⟩
      intro block' hb
      rcases List.mem_cons.mp hb with rfl | hb
      · exact (Nat.le_of_not_le hlt).trans hfirst
      · exact hall block' hb

variable {block : Block}

private theorem project_newest {entries : List (JsString × Block)} {key : JsString} (hmem : (key, block) ∈ entries)
    (hnewest : ∀ entry ∈ entries, block.generation ≤ entry.2.generation → entry.2 = block) :
    ∃ status, RouteStateStore.project entries = some status ∧ block.until_ ≤ status.until_ ∧ status.state =
    block.state ∧ status.faultKind = block.faultKind := by
  cases hproject : RouteStateStore.project entries with
  | none =>
    cases entries with
    | nil => cases hmem
    | cons entry rest => cases hproject
  | some status =>
    refine ⟨status, rfl, (project_eq_some hproject).2 _ hmem, ?_⟩
    cases entries with
    | nil => cases hmem
    | cons entry rest =>
      unfold RouteStateStore.project at hproject
      rw [Option.some.injEq] at hproject
      obtain ⟨hnew, -, hall⟩ := newest_spec ((entry :: rest).map Prod.snd) entry.2
      have hle := hall block (List.mem_map_of_mem (f := Prod.snd) hmem)
      have heq : RouteStateStore.newest entry.2 ((entry :: rest).map Prod.snd) = block := by
        have hin : RouteStateStore.newest entry.2 ((entry :: rest).map Prod.snd) ∈ (entry :: rest).map Prod.snd := by
          rcases hnew with hnew | hnew
          · rw [hnew]
            exact List.mem_cons_self ..
          · exact hnew
        rw [List.mem_map] at hin
        obtain ⟨entry', he, heq⟩ := hin
        rw [← heq] at hle ⊢
        exact hnewest entry' he hle
      rw [← hproject, heq]
      exact ⟨rfl, rfl⟩

private theorem report_step {request : Nat} (hguard : w₂.guards[request]? = some guard)
    (hw₃ : w₃ = { w₂ with
      store := reportNativeRouteFault c w₂.store w₂.now random provider model failure (some guard) }) :
    ∃ o, RouteStep c w₂ (.mark random provider model failure (nativeFailureStatus failure) [] (some request),
      o) w₃ := by
  refine ⟨.status (w₂.store.mark c w₂.now random provider model failure (nativeFailureStatus failure) []
    (some guard)).1, ?_⟩
  unfold RouteStep StepOf routeStep RouteWorld.guardOf
  simp only [hguard, Option.map_some]
  rw [hw₃]
  rfl

/-- What the gateway's report leaves, where it is not overtaken. -/
structure Reported (c : RouteConfig) (provider model : JsString) (failure : MarkableFailure) (block : Block)
    (w₂ w₃ : RouteWorld) : Prop where
  reached : RouteReached c w₃
  recorded : ∃ faults, Recorded c w₃ faults ∧ faults (scopeFor c provider model failure).key = some block
  now : w₃.now = w₂.now
  until_ : w₂.now < block.until_
  state : block.state = failure.state ∧ block.faultKind = failure.faultKind.getD failure.state
  generation : block.generation = w₃.store.sequence
  reads : ∀ reader, block.reads provider reader (c.admissionPools provider reader) =
    readsFault c provider model failure reader
  get : w₃.store.blocks.get (scopeFor c provider model failure).key = some block
  newest : ∀ key block', w₃.store.blocks.get key = some block' → block.generation ≤ block'.generation →
    key = (scopeFor c provider model failure).key ∧ block' = block

theorem reported (hw₂ : RouteReached c w₂) {request : Nat} (hguard : w₂.guards[request]? = some guard)
    (hfresh : w₂.store.stale (scopeFor c provider model failure).key provider guard = false)
    (hw₃ : w₃ = { w₂ with
      store := reportNativeRouteFault c w₂.store w₂.now random provider model failure (some guard) }) :
    ∃ block, Reported c provider model failure block w₂ w₃ := by
  obtain ⟨o, hstep⟩ := report_step hguard hw₃
  have hvalid := valid_reached hw₂
  have hany : (some guard).any (w₂.store.stale (scopeFor c provider model failure).key provider) = false := hfresh
  have hget := RouteStateStore.get_mark w₂.now random (nativeFailureStatus failure) [] hvalid hany
  have hsequence := RouteStateStore.sequence_mark w₂.now random (nativeFailureStatus failure) [] hvalid hany
  have hne := RouteStateStore.mark_ne w₂.now random (nativeFailureStatus failure) [] hvalid hany
  have hstore : w₃.store = (w₂.store.mark c w₂.now random provider model failure (nativeFailureStatus failure) []
    (some guard)).2 := by
    rw [hw₃]
    rfl
  rw [← hstore] at hget hsequence hne
  have hkey := hget (scopeFor c provider model failure).key
  rw [if_pos rfl] at hkey
  obtain ⟨faults, hrecorded⟩ := recorded_of_reached hw₂
  refine ⟨_, reached_step hw₂ hstep, ⟨_, hrecorded.fault hstep rfl hne hkey, Function.update_self ..⟩, by rw [hw₃],
    lt_until_faultBlock, ⟨rfl, rfl⟩, hsequence.symm, fun reader => reads_faultBlock reader, hkey, ?_⟩
  intro key block' hb hle
  rw [hget] at hb
  split at hb
  · rename_i hk
    exact ⟨hk.symm, (Option.some.inj hb).symm⟩
  -- any other block has a generation that was drawn before
  have hdrawn := hvalid.toValidFor.get_le (hvalid.generation_eq hb)
  change w₂.store.sequence + 1 ≤ block'.generation at hle
  omega

theorem reports_of_reads (h : Reported c provider model failure block w₂ w₃)
    (hrun : Run (fun w e w' => RouteStep c w e w' ∧ Quiet w e.1 w') w₃ tr w) (hlt : w.now < block.until_)
    {reader : JsString} (hreads : readsFault c provider model failure (routeModel reader) = true) :
    Reports c catalog provider reader failure block.until_ w := by
  obtain ⟨faults, hrecorded, hfault⟩ := h.recorded
  have hrecorded' := recorded_quiet_run hrecorded hrun
  have hw := valid_reached hrecorded'.reached
  have hmirrors := mirrors_of_recorded hrecorded'
  have hnow : w₃.now ≤ w.now := now_le_run (hrun.mono fun _ _ _ hstep => hstep.1)
  have hmem := (mem_applying_iff (c := c) hmirrors hw).mpr ⟨hfault, (h.reads _).trans hreads, hlt⟩
  obtain ⟨status, hproject, huntil, hstate, hkind⟩ := project_newest hmem fun entry he hle => by
    obtain ⟨hfault', -, hlt'⟩ := (mem_applying_iff hmirrors hw).mp he
    have hlive := (mirrors_of_recorded hrecorded).live _ _ hfault' (hnow.trans_lt hlt')
    exact (h.newest _ _ hlive hle).2
  rw [h.state.1] at hstate
  rw [h.state.2] at hkind
  refine ⟨⟨status, admit_eq_blocked.mpr hproject, huntil, hstate, hkind⟩, ?_⟩
  intro publicModel hsplit
  refine ⟨status, ?_, huntil, hstate, hkind⟩
  unfold routeStatus gatewayRouteKey
  rw [hsplit]
  exact hproject

theorem cleared_of_captured {block' : Block} {key : JsString} {tr₄ tr₅ : List RouteLabel} {w₄ w₅ : RouteWorld}
    (h : Reported c provider model failure block w₂ w₃) (hnamed : Named c provider model failure)
    (hrun₄ : Run (RouteStep c) w₃ tr₄ w₄) (hrun₅ : Run (RouteStep c) w₄ tr₅ w₅)
    (hgen : w₃.store.sequence = block'.generation) :
    (completeRouteSuccess c w₅.store w₅.now provider model
      (some (w₄.store.capture c provider (routeModel model)))).blocks.get key ≠ some block' := by
  intro hb
  have hw₃ := valid_reached h.reached
  have hw₄ := valid_run hrun₄ hw₃
  have hw₅ := valid_run hrun₅ hw₄
  unfold completeRouteSuccess at hb
  -- the block is the fault's, and was there when the guard was captured
  have hsince : ∀ {w : RouteWorld}, w.store.Valid → w₃.store.sequence ≤ w.store.sequence →
      w.store.Evolves (w₅.store.success c w₅.now provider (routeModel model)
        (some (w₄.store.capture c provider (routeModel model)))) →
      ∃ before, w.store.blocks.get key = some before ∧ block'.Continues before := by
    intro w hw hle hevolves
    rcases hevolves.kept key block' hb with hbefore | hlt
    · exact hbefore
    · omega
  have hevolves₅ : w₅.store.Evolves (w₅.store.success c w₅.now provider (routeModel model)
      (some (w₄.store.capture c provider (routeModel model)))) := RouteStateStore.evolves_success hw₅
  have hevolves₄ := (evolves_run hrun₅ hw₄).trans hevolves₅
  obtain ⟨before₃, hb₃, hcont₃⟩ := hsince hw₃ (Nat.le_refl _) ((evolves_run hrun₄ hw₃).trans hevolves₄)
  obtain ⟨before₄, hb₄, hcont₄⟩ := hsince hw₄ (evolves_run hrun₄ hw₃).sequence hevolves₄
  obtain ⟨rfl, rfl⟩ := h.newest key before₃ hb₃ (by rw [h.generation, hgen, hcont₃.fields.2.1])
  -- so the guard holds its generation, and the success drops it
  rw [RouteStateStore.get_success hw₅] at hb
  split at hb
  · cases hb
  rename_i hkept
  refine hkept ⟨⟨block', hb, ?_⟩, ?_⟩
  · rw [hcont₃.fields.2.2.2.2, h.reads]
    exact hnamed.reads
  · rw [RouteStateStore.seen, Option.all_some, get_capture, if_pos hnamed.captured, hw₄.generation_eq hb₄,
      (hw₅.applying true).generation_eq hb, hcont₄.fields.2.1, Option.getD_some]
    exact beq_self_eq_true _

/-- A route that is named alike for all its callers is the same for all of them. -/
private theorem sameRoute_of_named (hnamed : Named c provider model failure) :
    SameRoute c catalog provider model failure := by
  intro w₀ w₁ w₂ w₃ guard tr random hw₀ hpass hrun hfresh hw₃
  have hadmits : ∃ request : Nat, w₁.guards[request]? = some guard := by
    unfold RouteStep StepOf routeStep at hpass
    simp only at hpass
    split at hpass <;> cases hpass
    exact ⟨w₀.guards.length, by simp⟩
  obtain ⟨request, hguard⟩ := hadmits
  have hlt : request < w₁.guards.length := (List.getElem?_eq_some_iff.mp hguard).1
  rw [← guard_run hrun hlt] at hguard
  obtain ⟨block, hreported⟩ := reported (reached_run (reached_step hw₀ hpass) hrun) hguard hfresh hw₃
  refine ⟨block.until_, hreported.until_, fun tr w hquiet hlt => ⟨?_, ?_⟩, ?_⟩
  · exact reports_of_reads hreported hquiet hlt hnamed.reads
  · exact reports_of_reads hreported hquiet hlt hnamed.readsBare
  · intro tr₄ w₄ tr₅ w₅ key block' hrun₄ hrun₅ hgen
    exact cleared_of_captured hreported hnamed hrun₄ hrun₅ hgen

private theorem reported_fresh (c : RouteConfig) (provider model : JsString) (failure : MarkableFailure) :
    ∃ guard w₁ w₃ block,
      RouteStep c ⟨.empty, 0, []⟩ (.admitRoute provider (routeModel model), .admission (.admitRoute guard)) w₁ ∧
      w₁.store.stale (scopeFor c provider model failure).key provider guard = false ∧
      w₃ = { w₁ with store := reportNativeRouteFault c w₁.store w₁.now 0 provider model failure (some guard) } ∧
      Reported c provider model failure block w₁ w₃ ∧
      ∀ key block', w₃.store.blocks.get key = some block' → block' = block := by
  refine ⟨RouteStateStore.empty.capture c provider (routeModel model),
    ⟨.empty, 0, [RouteStateStore.empty.capture c provider (routeModel model)]⟩, ?_⟩
  have hreached : RouteReached c ⟨.empty, 0, []⟩ := ⟨0, [], Run.nil _⟩
  have hstep : RouteStep c ⟨.empty, 0, []⟩ (.admitRoute provider (routeModel model),
      .admission (.admitRoute (RouteStateStore.empty.capture c provider (routeModel model))))
      ⟨.empty, 0, [RouteStateStore.empty.capture c provider (routeModel model)]⟩ := rfl
  have hfresh : RouteStateStore.empty.stale (scopeFor c provider model failure).key provider
      (RouteStateStore.empty.capture c provider (routeModel model)) = false := by
    rw [RouteStateStore.stale, Bool.or_eq_false_iff, decide_eq_false_iff_not, decide_eq_false_iff_not]
    exact ⟨Nat.not_lt_zero _, Nat.not_lt_zero _⟩
  have hguard : [RouteStateStore.empty.capture c provider (routeModel model)][0]? =
      some (RouteStateStore.empty.capture c provider (routeModel model)) := rfl
  obtain ⟨block, hreported⟩ := reported (reached_step hreached hstep) hguard hfresh rfl
  refine ⟨_, block, hstep, hfresh, rfl, hreported, ?_⟩
  intro key block' hb
  have hany : (some (RouteStateStore.empty.capture c provider (routeModel model))).any
      (RouteStateStore.empty.stale (scopeFor c provider model failure).key provider) = false := hfresh
  have hget := RouteStateStore.get_mark 0 0 (nativeFailureStatus failure) [] RouteStateStore.valid_empty hany
  have hb' := (hget key).symm.trans hb
  split at hb'
  · have hblock := (hget (scopeFor c provider model failure).key).symm.trans hreported.get
    rw [if_pos rfl] at hblock
    exact Option.some.inj (hb'.symm.trans hblock)
  · cases hb'

private theorem not_reports {until_ : Instant} (h : Reported c provider model failure block w₂ w₃)
    (honly : ∀ key block', w₃.store.blocks.get key = some block' → block' = block) {reader : JsString}
    (hreads : readsFault c provider model failure (routeModel reader) ≠ true) :
    ¬Reports c catalog provider reader failure until_ w₃ := by
  rintro ⟨⟨status, hstatus, -⟩, -⟩
  obtain ⟨⟨⟨key, block'⟩, he, -⟩, -⟩ := project_eq_some (admit_eq_blocked.mp hstatus)
  obtain ⟨faults, hrecorded, -⟩ := h.recorded
  have hmirrors := mirrors_of_recorded hrecorded
  obtain ⟨hfault, hread, hlt⟩ := (mem_applying_iff hmirrors (valid_reached h.reached)).mp he
  rw [honly key block' (hmirrors.live key block' hfault hlt), h.reads] at hread
  exact hreads hread

private theorem not_cleared (h : Reported c provider model failure block w₂ w₃)
    (hcaptured : (scopeFor c provider model failure).key ∉ applicableKeys c provider (routeModel model)) :
    (completeRouteSuccess c w₃.store w₃.now provider model
      (some (w₃.store.capture c provider (routeModel model)))).blocks.get (scopeFor c provider model failure).key =
        some block := by
  have hw₃ := valid_reached h.reached
  have hlapse : (w₃.store.applying c w₃.now provider (routeModel model) true).2.blocks.get
      (scopeFor c provider model failure).key = some block := by
    rw [RouteStateStore.get_applying hw₃, h.get, Option.bind_some, RouteStateStore.lapse,
      expired_of_lt (by rw [h.now]; exact h.until_), ite_self]
  unfold completeRouteSuccess
  rw [RouteStateStore.get_success hw₃, if_neg, hlapse]
  rintro ⟨-, hseen⟩
  rw [RouteStateStore.seen, Option.all_some, get_capture, if_neg hcaptured,
    (hw₃.applying true).generation_eq hlapse] at hseen
  cases hseen

private theorem not_sameRoute (hnamed : ¬Named c provider model failure) :
    ¬SameRoute c catalog provider model failure := by
  intro hsame
  obtain ⟨guard, w₁, w₃, block, hstep, hfresh, hw₃, hreported, honly⟩ := reported_fresh c provider model failure
  obtain ⟨until_, hlt, hreports, hclears⟩ :=
    hsame _ _ _ _ guard [] 0 ⟨0, [], Run.nil _⟩ hstep (Run.nil _) hfresh hw₃
  have hreports := hreports [] w₃ (Run.nil _) (by rw [hreported.now]; exact hlt)
  apply hnamed
  refine ⟨?_, ?_, ?_⟩
  · by_contra hcaptured
    exact hclears [] w₃ [] w₃ _ block (Run.nil _) (Run.nil _) hreported.generation.symm
      (not_cleared hreported hcaptured)
  · by_contra hreads
    exact not_reports hreported honly hreads hreports.1
  · by_contra hreads
    exact not_reports hreported honly hreads hreports.2

/-- Native and gateway callers name the same route exactly where the scope of the reported fault, which is computed
from the model string as it is given, is one that the callers of the normalised string capture and read. -/
theorem native_routes_iff (c : RouteConfig) (catalog : GatewayCatalog) (provider model : JsString)
    (failure : MarkableFailure) : SameRoute c catalog provider model failure ↔ Named c provider model failure :=
  ⟨fun hsame => by_contra fun hnamed => not_sameRoute hnamed hsame, sameRoute_of_named⟩

/-- A missing model, reported under the client-qualified string, is a fault that no one reads. -/
theorem native_routes_differ :
    ¬∀ (c : RouteConfig) (catalog : GatewayCatalog) (provider model : JsString) (failure : MarkableFailure),
      SameRoute c catalog provider model failure := by
  intro h
  refine not_sameRoute ?_ (h poollessConfig [] (js "p") (js "m:cc") missingModel)
  rw [named_route_iff (by decide) (by decide)]
  decide

end Wrenyard.Gateway
