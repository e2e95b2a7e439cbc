import Wrenyard.Routing.Resolver

/-!
# The three answers of the resolver

`resolve`, `eligible` and `diagnose` agree exactly when every candidate that the gates admit has a compiled runtime
plan, a usable speed, a tier and a reference, and takes the requested effort, and no candidate that a numeric gate
refuses throws at that effort (`surfaces_agree_iff`).
-/

namespace Wrenyard.Routing

open Js Session Gateway List

section

variable {ε ε' α β : Type}

theorem eq_some_of_orRefuse {gate : ε} {o : Option α} {a : α} (h : orRefuse gate o = .ok a) : o = some a := by
  cases o with
  | none => cases h
  | some a' => rw [Except.ok.inj h]

theorem eq_false_of_refuseIf {gate : ε} {refused : Bool} {u : Unit} (h : refuseIf refused gate = .ok u) :
    refused = false := by
  cases refused with
  | false => rfl
  | true => cases h

theorem refuseIf_mapError (refused : Bool) (gate : ε) (f : ε → ε') :
    (refuseIf refused gate).mapError f = refuseIf refused (f gate) := by
  cases refused <;> rfl

theorem bind_mapError (x : Except ε α) (k : α → Except ε β) (f : ε → ε') :
    (x >>= k).mapError f = x.mapError f >>= fun a => (k a).mapError f := by
  cases x <;> rfl

theorem bind_map (x : Except ε α) (k : α → Except ε β) {γ : Type} (f : β → γ) :
    (x >>= k).map f = x >>= fun a => (k a).map f := by
  cases x <;> rfl

theorem refuseIf_same {refused : Bool} {gate : ε} {k : Unit → Except ε α} (h : k () = .error gate) :
    refuseIf refused gate >>= k = .error gate := by
  cases refused with
  | false => exact h
  | true => rfl

@[simp] theorem orRefuse_some_bind (gate : ε) (a : α) (k : α → Except ε β) : orRefuse gate (some a) >>= k = k a := rfl

@[simp] theorem refuseIf_false_bind (gate : ε) (k : Unit → Except ε β) : refuseIf false gate >>= k = k () := rfl

theorem refuseIf_bind_ok (refused : Bool) (gate : ε) : (refuseIf refused gate >>= fun _ => .ok ()) =
    refuseIf refused gate := by
  cases refused <;> rfl

end

theorem of_guard {p : Prop} [Decidable p] {u : Unit} (h : (guard p : Option Unit) = some u) : p := by
  by_contra hno
  rw [guard, if_neg hno] at h
  cases h

section

variable {catalog : Catalog} {clientID providerID modelID : JsString} {expected : Option ReasoningEffort}
  {fast : Option Bool} {plan : DispatchPlan}

theorem Catalog.model_of_supportsFast (h : catalog.supportsFast clientID providerID modelID = true) :
    ∃ provider modelDef, catalog.provider providerID = some provider ∧
    provider.models.find? (·.id = (provider.modelAliases.get modelID).getD modelID) = some modelDef ∧
    modelDef.supportsFast = true := by
  unfold Catalog.supportsFast at h
  split at h
  · rename_i client provider hclient hprovider
    dsimp only at h
    split at h
    · cases h
    rename_i modelDef hmodel
    split at h
    · cases h
    · rename_i hfast
      exact ⟨provider, modelDef, hprovider, hmodel, by simpa using hfast⟩
  · cases h

def DispatchPlan.withEffort (plan : DispatchPlan) (effort : Option ReasoningEffort × Option JsString) :
    DispatchPlan :=
  { plan with reasoningEffort := effort.1, clientReasoningEffort := effort.2 }

theorem Catalog.resolveReasoning_without {provider : ProviderDefinition} {modelDef : ModelDefinition}
    {effort : Option ReasoningEffort × Option JsString}
    (h : catalog.resolveReasoning provider modelDef clientID expected = some effort) :
    catalog.resolveReasoning provider modelDef clientID none = some (none, none) := by
  cases expected with
  | none | some =>
    simp only [Catalog.resolveReasoning, Option.bind_eq_bind, Option.bind_eq_some_iff] at h ⊢
    obtain ⟨efforts, hefforts, -⟩ := h
    exact ⟨efforts, hefforts, rfl⟩

theorem Catalog.aliased_of_find {provider : ProviderDefinition} {modelDef : ModelDefinition} {id : JsString}
    (hprovider : catalog.provider providerID = some provider)
    (hmodel : provider.models.find? (·.id = id) = some modelDef) : provider.modelAliases.get id = none := by
  have hid : modelDef.id = id := by simpa using List.find?_some hmodel
  rw [← hid]
  exact catalog.aliases provider (mem_of_find?_eq_some hprovider) modelDef (mem_of_find?_eq_some hmodel)

theorem Catalog.resolveRun_spec (h : catalog.resolveRun clientID providerID modelID expected fast = some plan) :
    (plan.client = clientID ∧ plan.provider = providerID) ∧
    (∃ provider modelDef, catalog.provider providerID = some provider ∧
      plan.model = (provider.modelAliases.get modelID).getD modelID ∧
      provider.models.find? (·.id = plan.model) = some modelDef ∧ (fast = some true → modelDef.supportsFast = true)) ∧
    ∃ bare effort, catalog.resolveRun clientID providerID modelID none fast = some bare ∧
    plan = bare.withEffort effort := by
  unfold Catalog.resolveRun at h ⊢
  simp only [Option.bind_eq_bind, Option.bind_eq_some_iff] at h ⊢
  obtain ⟨client, hclient, provider, hprovider, modelDef, hmodel, _, hclients, _, hsome, h⟩ := h
  have hfastModel (hfast : fast = none ∨ catalog.supportsFast clientID providerID
      ((provider.modelAliases.get modelID).getD modelID) = true) : fast = some true →
        modelDef.supportsFast = true := by
    rintro rfl
    rcases hfast with hno | hfast
    · cases hno
    obtain ⟨provider', modelDef', hprovider', hmodel', hfast⟩ := Catalog.model_of_supportsFast hfast
    cases hprovider.symm.trans hprovider'
    rw [Catalog.aliased_of_find hprovider hmodel] at hmodel'
    cases hmodel.symm.trans hmodel'
    exact hfast
  split at h
  · rename_i hnative
    simp only [Option.bind_eq_some_iff] at h
    obtain ⟨_, hguard, effort, heffort, hplan⟩ := h
    cases hplan
    refine ⟨⟨rfl, rfl⟩, ⟨provider, modelDef, hprovider, rfl, hmodel, hfastModel (of_guard hguard)⟩, ?_⟩
    refine ⟨⟨clientID, providerID, _, true, none, _, none, none, fast⟩, effort,
      ⟨client, hclient, provider, hprovider, modelDef, hmodel, (), hclients, (), hsome, ?_⟩, rfl⟩
    rw [if_pos hnative]
    simp only [Option.bind_eq_some_iff]
    exact ⟨(), hguard, (none, none), Catalog.resolveReasoning_without heffort, rfl⟩
  · rename_i hgateway
    simp only [Option.bind_eq_some_iff] at h
    obtain ⟨_, hserved, protocol, hprotocol, _, hguard, effort, heffort, hplan⟩ := h
    cases hplan
    refine ⟨⟨rfl, rfl⟩, ⟨provider, modelDef, hprovider, rfl, hmodel, hfastModel (of_guard hguard)⟩, ?_⟩
    refine ⟨⟨clientID, providerID, _, false, some protocol, false, none, none, fast⟩, effort,
      ⟨client, hclient, provider, hprovider, modelDef, hmodel, (), hclients, (), hsome, ?_⟩, rfl⟩
    rw [if_neg hgateway]
    simp only [Option.bind_eq_some_iff]
    exact ⟨(), hserved, protocol, hprotocol, (), hguard, (none, none), Catalog.resolveReasoning_without heffort, rfl⟩

end

structure Canonical (catalog : Catalog) (candidate : DispatchCandidate) : Prop where
  registered : ∀ provider, catalog.provider candidate.provider = some provider →
    provider.modelAliases.get candidate.model = none
  named : formatRunSyntax ⟨candidate.client, candidate.provider, candidate.model⟩ = some candidate.profileId

theorem canonical_of_mem {catalog : Catalog} {env : DispatchEnv} {candidate : DispatchCandidate}
    (h : candidate ∈ catalog.enumerateTaskCandidates env) : Canonical catalog candidate := by
  simp only [Catalog.enumerateTaskCandidates, Comparator.mem_sort, mem_flatMap, mem_filterMap,
    Option.bind_eq_bind, Option.bind_eq_some_iff] at h
  obtain ⟨provider, -, model, -, client, -, plan, hplan, profileId, hname, hcandidate⟩ := h
  cases hcandidate
  obtain ⟨⟨-, hprovider⟩, ⟨provider', modelDef, hprovider', -, hmodel, -⟩, -⟩ := Catalog.resolveRun_spec hplan
  refine ⟨fun provider'' hprovider'' => ?_, hname⟩
  rw [hprovider] at hprovider''
  cases hprovider'.symm.trans hprovider''
  exact Catalog.aliased_of_find hprovider' hmodel

theorem Canonical.profileId_eq {catalog : Catalog} {candidate other : DispatchCandidate}
    (h : Canonical catalog candidate)
    (h' : Canonical catalog other) (hclient : other.client = candidate.client)
    (hprovider : other.provider = candidate.provider)
    (hmodel : other.model = candidate.model) : other.profileId = candidate.profileId := by
  have hnamed := h'.named
  rw [hclient, hprovider, hmodel, h.named] at hnamed
  exact (Option.some.inj hnamed).symm

section

variable {catalog : Catalog} {env : DispatchEnv} {requirements : TaskDispatchRequirements}
  {localSpeed : List LocalSpeedSample} {candidate : DispatchCandidate} {entry : DispatchResolution}

theorem candidateEntry_spec (h : ConstrainedDispatcher.candidateEntry catalog env requirements localSpeed candidate =
    .ok entry) :
    catalog.resolveRun candidate.client candidate.provider candidate.model none requirements.fast = some entry.plan ∧
    ∃ provider, catalog.provider entry.plan.provider = some provider ∧
      explicitFreeAutoEligibility env provider entry.model
        (catalog.confirmedFreeSupply provider.id entry.model.id) = true := by
  simp only [ConstrainedDispatcher.candidateEntry, Checks.bind_eq_ok] at h
  obtain ⟨_, -, _, -, _, -, _, -, plan, hplan, provider, hprovider, modelDef, hmodel, _, -, _, -, _, -, _,
      -, _, hfree,
    _, -, _, -, _, -, _, -, _, -, hentry⟩ := h
  cases hentry
  refine ⟨eq_some_of_orRefuse hplan, provider, eq_some_of_orRefuse hprovider, ?_⟩
  simpa using eq_false_of_refuseIf hfree

def Gate.code : Gate → TaskResolutionFailureCode
  | .contextWindow => .contextWindow
  | .intelligence => .intelligenceRequirement
  | .price => .priceLimit
  | .speed => .speedRequirement
  | _ => .noAvailableProvider

def replayedCodes (catalog : Catalog) (env : DispatchEnv) (requirements : TaskDispatchRequirements)
    (localSpeed : List LocalSpeedSample) (candidate : DispatchCandidate) : Except TaskResolutionFailureCode Unit :=
  (replayGates catalog env localSpeed candidate requirements).mapError (·.code)

def gateCodes (catalog : Catalog) (env : DispatchEnv) (requirements : TaskDispatchRequirements)
    (localSpeed : List LocalSpeedSample) (candidate : DispatchCandidate) : Except TaskResolutionFailureCode Unit :=
  ((ConstrainedDispatcher.candidateEntry catalog env requirements localSpeed candidate).mapError Gate.code).map
    fun _ => ()

theorem replayedCodes_of_effort
    (heffort : catalog.resolveRun candidate.client candidate.provider candidate.model
      requirements.expectedReasoningEffort requirements.fast = none) :
    replayedCodes catalog env requirements localSpeed candidate = .error .noAvailableProvider := by
  simp only [replayedCodes, replayGates, heffort, bind_mapError, refuseIf_mapError]
  exact refuseIf_same (refuseIf_same (refuseIf_same (refuseIf_same (refuseIf_same rfl))))

theorem decide_filter_ne_nil {α : Type} [DecidableEq α] (l : List α) (p : α → Bool) :
    decide (l.filter (fun a => !p a) ≠ []) = !l.all p := by
  induction l with
  | nil => rfl
  | cons a l ih =>
    cases hp : p a with
    | false => simp [hp]
    | true => simpa [hp] using ih

theorem replayedCodes_eq (hcanonical : Canonical catalog candidate) {plan : DispatchPlan}
    (heffort : catalog.resolveRun candidate.client candidate.provider candidate.model
      requirements.expectedReasoningEffort requirements.fast = some plan) :
    replayedCodes catalog env requirements localSpeed candidate =
    gateCodes catalog env requirements localSpeed candidate := by
  obtain ⟨⟨-, hprovider⟩, ⟨provider, modelDef, hfound, hmodel, hmodelDef, hfast⟩, bare, effort, hbare, heq⟩ :=
    Catalog.resolveRun_spec heffort
  have hplanModel : plan.model = candidate.model := by
    rw [hmodel, hcanonical.registered provider hfound]
    rfl
  have hid : modelDef.id = candidate.model := by
    rw [← hplanModel]
    simpa using List.find?_some hmodelDef
  have hbareProvider : bare.provider = candidate.provider := by
    rw [← hprovider, heq]
    rfl
  have hbareModel : bare.model = candidate.model := by
    rw [← hplanModel, heq]
    rfl
  have hsearch : plan.supportsWebSearch = bare.supportsWebSearch := by
    rw [heq]
    rfl
  have hnofast : (requirements.fast == some true && !modelDef.supportsFast) = false := by
    cases hf : requirements.fast == some true with
    | false => rfl
    | true => simp [hfast (beq_iff_eq.mp hf)]
  rw [hplanModel] at hmodelDef
  simp only [gateCodes, replayedCodes, ConstrainedDispatcher.candidateEntry, replayGates, hbare, heffort,
    bind_mapError, bind_map,
    refuseIf_mapError, Gate.code, TaskResolutionElimination.early, TaskResolutionElimination.atGate,
    hprovider, hbareProvider, hplanModel, hbareModel, hsearch, hfound, hmodelDef, orRefuse_some_bind, hnofast,
    refuseIf_false_bind, hid, decide_filter_ne_nil]
  cases hmainstream : isMainstreamModelId candidate.model with
  | false =>
    exact (refuseIf_same (refuseIf_same (refuseIf_same (refuseIf_same (by rfl))))).trans
      (refuseIf_same (refuseIf_same (refuseIf_same (refuseIf_same (refuseIf_same (refuseIf_same (by rfl))))))).symm
  | true =>
    have hend (entry : DispatchResolution) :
        Except.map (fun _ => ()) (Except.mapError Gate.code (pure entry)) = Except.ok () := rfl
    simp only [Bool.not_true, refuseIf_false_bind, hend, refuseIf_bind_ok]

theorem code_eliminationForCandidate {code : TaskResolutionFailureCode}
    (h : replayedCodes catalog env requirements localSpeed candidate = .error code) :
    (eliminationForCandidate catalog env localSpeed candidate requirements).map (·.code) = some code := by
  unfold replayedCodes at h
  unfold eliminationForCandidate
  cases hgates : replayGates catalog env localSpeed candidate requirements <;> rw [hgates] at h
  case ok u => cases h
  case error elimination => exact congrArg some (Except.error.inj h)

theorem eliminationForCandidate_eq_none {u : Unit}
    (h : replayedCodes catalog env requirements localSpeed candidate = .ok u) :
    eliminationForCandidate catalog env localSpeed candidate requirements = none := by
  unfold replayedCodes at h
  unfold eliminationForCandidate
  cases hgates : replayGates catalog env localSpeed candidate requirements with
  | ok u => rfl
  | error elimination =>
    rw [hgates] at h
    cases h

/-! ### The winner -/

theorem byProviderModel_spec (entries : List DispatchResolution) :
    (∀ group ∈ byProviderModel entries, group.2 ≠ [] ∧ ∀ e ∈ group.2, e ∈ entries) ∧
    (entries ≠ [] → byProviderModel entries ≠ []) := by
  induction entries using List.reverseRecOn with
  | nil => exact ⟨fun group hgroup => absurd hgroup not_mem_nil, fun h => absurd rfl h⟩
  | append_singleton entries e ih =>
    obtain ⟨ih, -⟩ := ih
    have hstep : byProviderModel (entries ++ [e]) = (byProviderModel entries).set e.plan.providerModel
        (((byProviderModel entries).get e.plan.providerModel).getD [] ++ [e]) := by
      rw [byProviderModel, foldl_append]
      rfl
    rw [hstep]
    constructor
    · intro group hgroup
      rcases OMap.mem_set hgroup with rfl | hgroup
      · refine ⟨by simp, fun e' he' => ?_⟩
        rcases mem_append.mp he' with he' | he'
        · refine mem_append_left _ ?_
          cases hget : (byProviderModel entries).get e.plan.providerModel with
          | none =>
            rw [hget] at he'
            cases he'
          | some members =>
            rw [hget] at he'
            exact (ih _ (OMap.mem_of_get hget)).2 e' he'
        · exact mem_append_right _ he'
      · obtain ⟨hne, hmem⟩ := ih group hgroup
        exact ⟨hne, fun e' he' => mem_append_left _ (hmem e' he')⟩
    · intro _ hnil
      have hget := OMap.get_set (byProviderModel entries) e.plan.providerModel e.plan.providerModel
        (((byProviderModel entries).get e.plan.providerModel).getD [] ++ [e])
      rw [hnil] at hget
      simp at hget

variable (env) in
theorem representative_spec {group : List DispatchResolution} (h : group ≠ []) :
    ∃ e ∈ group, representative env group = some e := by
  unfold representative
  dsimp only
  split
  · exact Comparator.exists_head_sort h
  · rename_i hnative
    obtain ⟨e, hmem, hhead⟩ := Comparator.exists_head_sort hnative
    exact ⟨e, (mem_filter.mp hmem).1, hhead⟩

theorem resolve_spec (candidates : List DispatchCandidate) :
    ((∀ candidate ∈ candidates, ∃ gate,
        ConstrainedDispatcher.candidateEntry catalog env requirements localSpeed candidate = .error gate) →
      ConstrainedDispatcher.resolve catalog env requirements localSpeed candidates = .ok none) ∧
    ((∃ candidate ∈ candidates, ∃ entry,
        ConstrainedDispatcher.candidateEntry catalog env requirements localSpeed candidate = .ok entry) →
      ∃ candidate ∈ candidates, ∃ entry,
        ConstrainedDispatcher.candidateEntry catalog env requirements localSpeed candidate = .ok entry ∧
        ConstrainedDispatcher.resolve catalog env requirements localSpeed candidates =
          (ConstrainedDispatcher.applyEffort catalog requirements entry).map some) := by
  unfold ConstrainedDispatcher.resolve
  dsimp only
  generalize heligible : candidates.filterMap (fun candidate =>
    (ConstrainedDispatcher.candidateEntry catalog env requirements localSpeed candidate).toOption) = eligible
  generalize hcollapsed : (byProviderModel eligible).filterMap (fun group => representative env group.2) = collapsed
  constructor
  · intro hnone
    have hnil : eligible = [] := by
      rw [← heligible, filterMap_eq_nil_iff]
      intro candidate hmem
      obtain ⟨gate, hgate⟩ := hnone candidate hmem
      rw [hgate]
      rfl
    subst hnil
    subst hcollapsed
    rfl
  · rintro ⟨candidate, hmem, entry, hpass⟩
    have hne : eligible ≠ [] := by
      rw [← heligible, Ne, filterMap_eq_nil_iff]
      intro hall
      have := hall candidate hmem
      rw [hpass] at this
      cases this
    obtain ⟨hgroups, hsome⟩ := byProviderModel_spec eligible
    have hcollapsedNe : collapsed ≠ [] := by
      rw [← hcollapsed, Ne, filterMap_eq_nil_iff]
      intro hall
      cases hfirst : byProviderModel eligible with
      | nil => exact hsome hne hfirst
      | cons group groups =>
        have hgroup : group ∈ byProviderModel eligible := by
          rw [hfirst]
          exact mem_cons_self ..
        obtain ⟨e, -, he⟩ := representative_spec env (hgroups group hgroup).1
        rw [hall group hgroup] at he
        cases he
    obtain ⟨winner, hwinner, hhead⟩ := Comparator.exists_head_sort (c := compareEntries env requirements) hcollapsedNe
    have helig : winner ∈ eligible := by
      rw [← hcollapsed, mem_filterMap] at hwinner
      obtain ⟨group, hgroup, hrepresentative⟩ := hwinner
      obtain ⟨hgroupNe, hmembers⟩ := hgroups group hgroup
      obtain ⟨e, he, heq⟩ := representative_spec env hgroupNe
      rw [hrepresentative] at heq
      rw [Option.some.inj heq]
      exact hmembers e he
    rw [← heligible, mem_filterMap] at helig
    obtain ⟨other, hother, hentry⟩ := helig
    refine ⟨other, hother, winner, ?_, ?_⟩
    · cases hadmitted :
        ConstrainedDispatcher.candidateEntry catalog env requirements localSpeed other <;> rw [hadmitted] at hentry
      case error gate => cases hentry
      case ok entry' => rw [Option.some.inj hentry]
    · rw [hhead]

theorem applyEffort_spec (hcanonical : Canonical catalog candidate)
    (hpass : ConstrainedDispatcher.candidateEntry catalog env requirements localSpeed candidate = .ok entry) :
    ConstrainedDispatcher.applyEffort catalog requirements entry =
      orRefuse () ((catalog.resolveRun candidate.client candidate.provider candidate.model
        requirements.expectedReasoningEffort requirements.fast).map fun plan => { entry with plan := plan }) := by
  obtain ⟨hbare, -⟩ := candidateEntry_spec hpass
  obtain ⟨⟨hclient, hprovider⟩, ⟨provider, -, hfound, hmodel, -⟩, -⟩ := Catalog.resolveRun_spec hbare
  have hplanModel : entry.plan.model = candidate.model := by
    rw [hmodel, hcanonical.registered provider hfound]
    rfl
  unfold ConstrainedDispatcher.applyEffort
  split
  · rename_i hplain
    rw [Bool.and_eq_true, Option.isNone_iff_eq_none, Option.isNone_iff_eq_none] at hplain
    rw [hplain.2] at hbare
    rw [hplain.1, hplain.2, hbare]
    rfl
  · rw [hclient, hprovider, hplanModel]
    cases catalog.resolveRun candidate.client candidate.provider candidate.model requirements.expectedReasoningEffort
      requirements.fast <;> rfl

theorem laterFailure_eq_none_iff {runtimePlans : OMap JsString DispatchPlan}
    (hpass : ConstrainedDispatcher.candidateEntry catalog env requirements localSpeed candidate = .ok entry) :
    laterFailure catalog env runtimePlans candidate.profileId entry = none ↔ runtimePlans.has candidate.profileId =
    true ∧ entry.speed.tps.finite?.any (0 < ·) = true ∧ entry.model.intelligence ≠ none ∧
    routingReferencePriceOf entry.model ≠ none := by
  obtain ⟨-, provider, hprovider, hfree⟩ := candidateEntry_spec hpass
  unfold laterFailure
  rw [hprovider]
  by_cases hplan : runtimePlans.has candidate.profileId = true
  · by_cases hspeed : entry.speed.tps.finite?.any (0 < ·) = true
    · by_cases htier : entry.model.intelligence = none
      · simp [hplan, hspeed, htier]
      · by_cases hprice : routingReferencePriceOf entry.model = none
        · simp [hplan, hspeed, htier, hprice]
        · simp [hplan, hspeed, htier, hprice, hfree]
    · simp [hplan, hspeed]
  · simp [hplan]

end

section

variable {snapshot : DispatchSnapshot} {input : ResolveTaskDispatchInput} {requirements : TaskDispatchRequirements}
  {candidatePool : List DispatchCandidate} {candidate : DispatchCandidate} {entry : DispatchResolution}

def DispatchSnapshot.candidateEntry (snapshot : DispatchSnapshot) (requirements : TaskDispatchRequirements)
    (candidate : DispatchCandidate) : Except Gate DispatchResolution :=
  ConstrainedDispatcher.candidateEntry snapshot.catalog snapshot.env requirements snapshot.localSpeed candidate

def DispatchSnapshot.runAt (snapshot : DispatchSnapshot) (requirements : TaskDispatchRequirements)
    (candidate : DispatchCandidate) : Option DispatchPlan :=
  snapshot.catalog.resolveRun candidate.client candidate.provider candidate.model requirements.expectedReasoningEffort
    requirements.fast

def DispatchSnapshot.checked (snapshot : DispatchSnapshot) (input : ResolveTaskDispatchInput)
    (requirements : TaskDispatchRequirements) (candidate : DispatchCandidate) (entry : DispatchResolution)
    (plan : DispatchPlan) : Except NoEligiblePlanError TaskDispatchChoice :=
  match laterFailure snapshot.catalog snapshot.env snapshot.runtimePlans candidate.profileId entry with
  | some code => .error ⟨code⟩
  | none => .ok ⟨candidate.profileId, toResolvedDispatch (input.target.getD []) candidate.profileId plan entry.model
      entry.speed requirements⟩

theorem evaluated_refused (h : ∀ candidate ∈ candidatePool, ∃ gate, snapshot.candidateEntry requirements candidate =
    .error gate) :
    ∃ e, snapshot.evaluated input requirements candidatePool = .ok (.error e) := by
  unfold DispatchSnapshot.evaluated evaluate
  rw [(resolve_spec candidatePool).1 h]
  exact ⟨_, rfl⟩

variable (input) in
theorem evaluated_admitted (hcanonical : ∀ candidate ∈ candidatePool, Canonical snapshot.catalog candidate)
    (h : ∃ candidate ∈ candidatePool, ∃ entry, snapshot.candidateEntry requirements candidate = .ok entry) :
    ∃ candidate ∈ candidatePool, ∃ entry, snapshot.candidateEntry requirements candidate = .ok entry ∧
    snapshot.evaluated input requirements candidatePool =
    (orRefuse () (snapshot.runAt requirements candidate)).map
    (snapshot.checked input requirements candidate entry) := by
  obtain ⟨winner, hmem, entry, hpass, hresolve⟩ := (resolve_spec candidatePool).2 h
  refine ⟨winner, hmem, entry, hpass, ?_⟩
  unfold DispatchSnapshot.evaluated evaluate
  rw [hresolve, applyEffort_spec (hcanonical winner hmem) hpass]
  unfold DispatchSnapshot.runAt
  cases hrun : snapshot.catalog.resolveRun winner.client winner.provider winner.model
      requirements.expectedReasoningEffort requirements.fast with
  | none => rfl
  | some plan =>
    obtain ⟨⟨hclient, hprovider⟩, ⟨provider, -, hfound, hmodel, -⟩, -⟩ := Catalog.resolveRun_spec hrun
    rw [(hcanonical winner hmem).registered provider hfound, Option.getD_none] at hmodel
    obtain ⟨chosen, hchosen, hname⟩ : ∃ chosen, candidatePool.find? (fun candidate => candidate.client = plan.client ∧
        candidate.provider = plan.provider ∧ candidate.model = plan.model) = some chosen ∧
          chosen.profileId = winner.profileId := by
      cases hfind : candidatePool.find? (fun candidate => candidate.client = plan.client ∧
          candidate.provider = plan.provider ∧ candidate.model = plan.model) with
      | none =>
        have := List.find?_eq_none.mp hfind winner hmem
        simp [hclient, hprovider, hmodel] at this
      | some chosen =>
        have hrun' := List.find?_some hfind
        simp only [decide_eq_true_eq, hclient, hprovider, hmodel] at hrun'
        exact ⟨chosen, rfl, (hcanonical winner hmem).profileId_eq
          (hcanonical chosen (mem_of_find?_eq_some hfind)) hrun'.1 hrun'.2.1 hrun'.2.2⟩
    have hfailure : laterFailure snapshot.catalog snapshot.env snapshot.runtimePlans winner.profileId
        { entry with plan := plan } =
        laterFailure snapshot.catalog snapshot.env snapshot.runtimePlans winner.profileId entry := by
      obtain ⟨⟨-, hprovider'⟩, -⟩ := Catalog.resolveRun_spec (candidateEntry_spec hpass).1
      unfold laterFailure
      rw [hprovider, hprovider']
    simp only [Option.map_some, orRefuse, Except.map, bind, Except.bind, hchosen, pure, Except.pure, hname, hfailure,
      DispatchSnapshot.checked]
    cases laterFailure snapshot.catalog snapshot.env snapshot.runtimePlans winner.profileId entry <;> rfl

theorem evaluated_one (hcanonical : Canonical snapshot.catalog candidate)
    (hpass : snapshot.candidateEntry requirements candidate = .ok entry) :
    snapshot.evaluated input requirements [candidate] =
    (orRefuse () (snapshot.runAt requirements candidate)).map
    (snapshot.checked input requirements candidate entry) := by
  obtain ⟨winner, hmem, entry', hpass', h⟩ := evaluated_admitted input
    (show ∀ other ∈ [candidate], Canonical snapshot.catalog other from
      fun other hother => by rw [mem_singleton.mp hother]; exact hcanonical)
    ⟨candidate, mem_singleton.mpr rfl, entry, hpass⟩
  cases mem_singleton.mp hmem
  cases hpass.symm.trans hpass'
  exact h

variable (input) in
theorem evaluated_one_refused {gate : Gate} (hpass : snapshot.candidateEntry requirements candidate = .error gate) :
    ∃ e, snapshot.evaluated input requirements [candidate] = .ok (.error e) :=
  evaluated_refused fun other hother => by rw [List.mem_singleton.mp hother]; exact ⟨gate, hpass⟩

variable (input) in
theorem evaluated_empty (hcanonical : Canonical snapshot.catalog candidate) :
    ∃ outcome, snapshot.evaluated input .empty [candidate] = .ok outcome := by
  cases hpass : snapshot.candidateEntry .empty candidate with
  | error gate =>
    obtain ⟨e, he⟩ := evaluated_one_refused input hpass
    exact ⟨_, he⟩
  | ok entry =>
    rw [evaluated_one hcanonical hpass]
    have hrun : snapshot.runAt .empty candidate = some entry.plan := (candidateEntry_spec hpass).1
    rw [hrun]
    exact ⟨_, rfl⟩

end

/-! ### Agreement -/

def DispatchSnapshot.refusal (snapshot : DispatchSnapshot) (input : ResolveTaskDispatchInput)
    (candidate : DispatchCandidate) : Option TaskResolutionFailureCode :=
  match snapshot.candidateEntry input.requirements candidate with
  | .error gate => some gate.code
  | .ok entry => laterFailure snapshot.catalog snapshot.env snapshot.runtimePlans candidate.profileId entry

/-- The choices that `eligible` returns. -/
def DispatchSnapshot.choices (snapshot : DispatchSnapshot) (input : ResolveTaskDispatchInput) :
    List TaskDispatchChoice :=
  match snapshot.eligible input with
  | .ok (.ok choices) => choices
  | _ => []

def TaskDispatchDiagnosticChoice.choice (d : TaskDispatchDiagnosticChoice) : Option TaskDispatchChoice :=
  d.admitted.map fun resolved => ⟨d.exactAgentRuntime, resolved⟩

def Explains (snapshot : DispatchSnapshot) (input : ResolveTaskDispatchInput) (candidate : DispatchCandidate)
    (d : TaskDispatchDiagnosticChoice) : Prop :=
  d.exactAgentRuntime = candidate.profileId ∧
    (d.admitted = none → ∃ code, d.rejectionCode = some code ∧ snapshot.refusal input candidate = some code)

structure Agree (snapshot : DispatchSnapshot) (input : ResolveTaskDispatchInput) : Prop where
  resolves : (∃ choice, snapshot.resolve input = .ok (.ok choice)) ↔
    ∃ choices, snapshot.eligible input = .ok (.ok choices) ∧ choices ≠ []
  chosen : ∀ choice choices, snapshot.resolve input = .ok (.ok choice) → snapshot.eligible input = .ok (.ok choices) →
    choice ∈ choices
  diagnosed : ∀ candidatePool, snapshot.pool input = .ok candidatePool →
    ∃ diagnoses, snapshot.diagnose input = .ok (.ok diagnoses) ∧
      diagnoses.filterMap (·.choice) = snapshot.choices input ∧
      List.Forall₂ (Explains snapshot input) candidatePool diagnoses

/-- An admitted candidate takes the effort, has a compiled plan and declares what a dispatch reports; one that a
numeric gate refuses takes the effort. -/
structure Covered (snapshot : DispatchSnapshot) (input : ResolveTaskDispatchInput) (candidate : DispatchCandidate) :
    Prop where
  admitted : ∀ entry, snapshot.candidateEntry input.requirements candidate = .ok entry →
    (snapshot.runAt input.requirements candidate).isSome = true ∧
      snapshot.runtimePlans.has candidate.profileId = true ∧ entry.speed.tps.finite?.any (0 < ·) = true ∧
      entry.model.intelligence ≠ none ∧ routingReferencePriceOf entry.model ≠ none
  refused : ∀ gate, snapshot.candidateEntry input.requirements candidate = .error gate →
    gate.code ≠ .noAvailableProvider →
    (snapshot.runAt input.requirements candidate).isSome = true

section

variable {snapshot : DispatchSnapshot} {input : ResolveTaskDispatchInput} {candidatePool : List DispatchCandidate}
  {candidate : DispatchCandidate}

theorem canonical_of_pool (h : snapshot.pool input = .ok candidatePool) (hmem : candidate ∈ candidatePool) :
    Canonical snapshot.catalog candidate := by
  have hcandidates : candidate ∈ snapshot.catalog.enumerateTaskCandidates snapshot.env := by
    unfold DispatchSnapshot.pool selectCandidatePool at h
    split at h
    · cases h
      exact hmem
    split at h
    · cases h
      exact hmem
    dsimp only at h
    split at h <;> cases h
    exact (mem_filter.mp hmem).1
  exact canonical_of_mem hcandidates

theorem code_of_refused (hcanonical : Canonical snapshot.catalog candidate) {gate : Gate}
    (hpass : snapshot.candidateEntry input.requirements candidate = .error gate)
    (heffort : gate.code ≠ .noAvailableProvider → (snapshot.runAt input.requirements candidate).isSome = true) :
    (eliminationForCandidate snapshot.catalog snapshot.env snapshot.localSpeed candidate input.requirements).map
    (·.code) =
      some gate.code := by
  have hgates : gateCodes snapshot.catalog snapshot.env input.requirements snapshot.localSpeed candidate =
      .error gate.code := by
    unfold gateCodes
    rw [DispatchSnapshot.candidateEntry] at hpass
    rw [hpass]
    rfl
  refine code_eliminationForCandidate ?_
  cases hrun : snapshot.runAt input.requirements candidate with
  | none =>
    have hcode : gate.code = .noAvailableProvider := by
      by_contra hne
      have := heffort hne
      rw [hrun] at this
      cases this
    rw [hcode]
    exact replayedCodes_of_effort hrun
  | some plan => rw [replayedCodes_eq hcanonical hrun, hgates]

theorem Covered.evaluated (h : Covered snapshot input candidate) (hcanonical : Canonical snapshot.catalog candidate) :
    (∃ gate e, snapshot.candidateEntry input.requirements candidate = .error gate ∧
      snapshot.evaluated input input.requirements [candidate] = .ok (.error e)) ∨
    ∃ entry choice, snapshot.candidateEntry input.requirements candidate = .ok entry ∧
      snapshot.evaluated input input.requirements [candidate] = .ok (.ok choice) := by
  cases hpass : snapshot.candidateEntry input.requirements candidate with
  | error gate =>
    obtain ⟨e, he⟩ := evaluated_one_refused input hpass
    exact Or.inl ⟨gate, e, rfl, he⟩
  | ok entry =>
    obtain ⟨hrun, hchecks⟩ := h.admitted entry hpass
    obtain ⟨plan, hplan⟩ := Option.isSome_iff_exists.mp hrun
    refine Or.inr ⟨entry, ⟨candidate.profileId, toResolvedDispatch (input.target.getD []) candidate.profileId plan
      entry.model entry.speed input.requirements⟩, rfl, ?_⟩
    rw [evaluated_one hcanonical hpass, hplan]
    change Except.ok _ = _
    unfold DispatchSnapshot.checked
    rw [(laterFailure_eq_none_iff hpass).mpr hchecks]

theorem name_of_evaluated (hcanonical : Canonical snapshot.catalog candidate)
    {requirements : TaskDispatchRequirements}
    {choice : TaskDispatchChoice} (h : snapshot.evaluated input requirements [candidate] = .ok (.ok choice)) :
    choice.exactAgentRuntime = candidate.profileId := by
  cases hpass : snapshot.candidateEntry requirements candidate with
  | error gate =>
    obtain ⟨e, he⟩ := evaluated_one_refused input hpass
    rw [h] at he
    cases he
  | ok entry =>
    rw [evaluated_one hcanonical hpass] at h
    cases hrun : snapshot.runAt requirements candidate <;> rw [hrun] at h
    case none => cases h
    case some plan =>
      have hchecked : snapshot.checked input requirements candidate entry plan = .ok choice := Except.ok.inj h
      unfold DispatchSnapshot.checked at hchecked
      split at hchecked <;> cases hchecked
      rfl

def DispatchSnapshot.choiceOf (snapshot : DispatchSnapshot) (input : ResolveTaskDispatchInput)
    (candidate : DispatchCandidate) : Option TaskDispatchChoice :=
  match snapshot.evaluated input input.requirements [candidate] with
  | .ok (.ok choice) => some choice
  | _ => none

theorem filterMap_of_forall₂ {α β γ : Type} {R : α → β → Prop} {f : β → Option γ} {g : α → Option γ} {as : List α}
    {bs : List β} (h : List.Forall₂ R as bs) (hR : ∀ a ∈ as, ∀ b, R a b → f b = g a) :
    bs.filterMap f = as.filterMap g := by
  induction h with
  | nil => rfl
  | cons hab _ ih =>
    rw [filterMap_cons, filterMap_cons, hR _ (mem_cons_self ..) _ hab,
      ih fun a ha => hR a (mem_cons_of_mem _ ha)]

theorem forall₂_of_mem {α β : Type} {R S : α → β → Prop} {as : List α} {bs : List β} (h : List.Forall₂ R as bs)
    (hR : ∀ a ∈ as, ∀ b, R a b → S a b) : List.Forall₂ S as bs := by
  induction h with
  | nil => exact List.Forall₂.nil
  | cons hab _ ih =>
    exact List.Forall₂.cons (hR _ (mem_cons_self ..) _ hab) (ih fun a ha => hR a (mem_cons_of_mem _ ha))

theorem exists_mapM_ok {α β ε : Type} (f : α → Except ε β) {as : List α} (h : ∀ a ∈ as, ∃ b, f a = .ok b) :
    ∃ bs, as.mapM f = .ok bs := by
  induction as with
  | nil => exact ⟨[], rfl⟩
  | cons a as ih =>
    obtain ⟨b, hb⟩ := h a (mem_cons_self ..)
    obtain ⟨bs, hbs⟩ := ih fun a ha => h a (mem_cons_of_mem _ ha)
    exact ⟨b :: bs, Checks.mapM_eq_ok.mpr (List.Forall₂.cons hb (Checks.mapM_eq_ok.mp hbs))⟩

theorem choices_eq (hpool : snapshot.pool input = .ok candidatePool)
    (h : ∀ candidate ∈ candidatePool, ∃ outcome,
      snapshot.evaluated input input.requirements [candidate] = .ok outcome) :
    (candidatePool.filterMap (snapshot.choiceOf input) ≠ [] →
      snapshot.eligible input = .ok (.ok (candidatePool.filterMap (snapshot.choiceOf input)))) ∧
    (candidatePool.filterMap (snapshot.choiceOf input) = [] → ∃ e, snapshot.eligible input = .ok (.error e)) := by
  obtain ⟨outcomes, houtcomes⟩ := exists_mapM_ok (fun candidate : DispatchCandidate => do
      return (candidate, ← snapshot.evaluated input input.requirements [candidate])) (by
      intro candidate (hmem : candidate ∈ candidatePool)
      obtain ⟨outcome, houtcome⟩ := h candidate hmem
      exact ⟨(candidate, outcome), by rw [houtcome]; rfl⟩)
  have hchoices : outcomes.filterMap (fun outcome => outcome.2.toOption) =
      candidatePool.filterMap (snapshot.choiceOf input) := by
    refine filterMap_of_forall₂ (Checks.mapM_eq_ok.mp houtcomes) ?_
    intro candidate _ outcome houtcome
    obtain ⟨result, hresult, hpure⟩ := Checks.bind_eq_ok.mp houtcome
    cases hpure
    unfold DispatchSnapshot.choiceOf
    rw [hresult]
    cases result <;> rfl
  obtain ⟨e, heligible⟩ : ∃ e, snapshot.eligible input =
      if candidatePool.filterMap (snapshot.choiceOf input) ≠ [] then
        .ok (.ok (candidatePool.filterMap (snapshot.choiceOf input)))
      else .ok (.error e) := by
    unfold DispatchSnapshot.eligible
    rw [hpool]
    dsimp only
    rw [houtcomes, ← hchoices]
    exact ⟨_, rfl⟩
  rw [heligible]
  constructor
  · intro hne
    rw [if_pos hne]
  · intro hnil
    rw [if_neg (not_not.mpr hnil)]
    exact ⟨_, rfl⟩

theorem diagnosisOf_spec {d : TaskDispatchDiagnosticChoice} (h : snapshot.diagnosisOf input candidate = .ok d) :
    ∃ outcome, snapshot.evaluated input input.requirements [candidate] = .ok outcome ∧
      d.exactAgentRuntime = candidate.profileId ∧ d.admitted = outcome.toOption.map (·.resolved) ∧
      (d.admitted = none →
        d.rejectionCode = (eliminationForCandidate snapshot.catalog snapshot.env snapshot.localSpeed
        candidate input.requirements).map (·.code)) := by
  obtain ⟨baseline, -, h⟩ := Checks.bind_eq_ok.mp h
  obtain ⟨outcome, houtcome, h⟩ := Checks.bind_eq_ok.mp h
  cases h
  refine ⟨outcome, houtcome, rfl, rfl, ?_⟩
  cases outcome with
  | error e => exact fun _ => rfl
  | ok choice =>
    intro hno
    cases hno

theorem choice_of_diagnosis (hcanonical : Canonical snapshot.catalog candidate) {d : TaskDispatchDiagnosticChoice}
    (h : snapshot.diagnosisOf input candidate = .ok d) : d.choice = snapshot.choiceOf input candidate := by
  obtain ⟨outcome, houtcome, hname, hadmitted, -⟩ := diagnosisOf_spec h
  unfold TaskDispatchDiagnosticChoice.choice DispatchSnapshot.choiceOf
  rw [hadmitted, houtcome, hname]
  cases outcome with
  | error e => rfl
  | ok choice =>
    rw [← name_of_evaluated hcanonical houtcome]
    rfl

/-- Where no admitted candidate is uncovered, the answers agree. -/
theorem agree_of_covered (hcovered : ∀ candidatePool, snapshot.pool input = .ok candidatePool →
    ∀ candidate ∈ candidatePool, Covered snapshot input candidate) : Agree snapshot input := by
  cases hpool : snapshot.pool input with
  | error e =>
    have hresolve : snapshot.resolve input = .ok (.error e) := by
      unfold DispatchSnapshot.resolve
      rw [hpool]
    have heligible : snapshot.eligible input = .ok (.error e) := by
      unfold DispatchSnapshot.eligible
      rw [hpool]
    refine ⟨?_, ?_, ?_⟩
    · rw [hresolve, heligible]
      constructor
      · rintro ⟨choice, h⟩
        cases h
      · rintro ⟨choices, h, -⟩
        cases h
    · intro choice choices h
      rw [hresolve] at h
      cases h
    · intro candidatePool h
      rw [hpool] at h
      cases h
  | ok candidatePool =>
    have hcanonical : ∀ candidate ∈ candidatePool, Canonical snapshot.catalog candidate := fun _ hmem =>
      canonical_of_pool hpool hmem
    have hevaluated := fun candidate hmem =>
      (hcovered candidatePool hpool candidate hmem).evaluated (hcanonical candidate hmem)
    have hok : ∀ candidate ∈ candidatePool, ∃ outcome,
        snapshot.evaluated input input.requirements [candidate] = .ok outcome := by
      intro candidate hmem
      rcases hevaluated candidate hmem with ⟨_, e, -, he⟩ | ⟨_, choice, -, hchoice⟩
      · exact ⟨_, he⟩
      · exact ⟨_, hchoice⟩
    obtain ⟨hsome, hnone⟩ := choices_eq hpool hok
    generalize hchosen : candidatePool.filterMap (snapshot.choiceOf input) = chosen at hsome hnone
    have hchoices : snapshot.choices input = chosen := by
      unfold DispatchSnapshot.choices
      by_cases hnil : chosen = []
      · obtain ⟨e, he⟩ := hnone hnil
        rw [he, hnil]
      · rw [hsome hnil]
    have hresolve : (∃ choice ∈ chosen, snapshot.resolve input = .ok (.ok choice)) ∨
        (chosen = [] ∧ ∃ e, snapshot.resolve input = .ok (.error e)) := by
      unfold DispatchSnapshot.resolve
      rw [hpool]
      dsimp only
      by_cases hadmits : ∃ candidate ∈ candidatePool, ∃ entry,
        snapshot.candidateEntry input.requirements candidate = .ok entry
      · obtain ⟨winner, hmem, entry, hpass, hwinner⟩ := evaluated_admitted input hcanonical hadmits
        rw [hwinner, ← evaluated_one (hcanonical winner hmem) hpass]
        rcases hevaluated winner hmem with ⟨gate, _, hgate, -⟩ | ⟨_, choice, -, hchoice⟩
        · rw [hpass] at hgate
          cases hgate
        · refine Or.inl ⟨choice, ?_, hchoice⟩
          rw [← hchosen, mem_filterMap]
          exact ⟨winner, hmem, by rw [DispatchSnapshot.choiceOf, hchoice]⟩
      · have hrefused : ∀ candidate ∈ candidatePool, ∃ gate,
            snapshot.candidateEntry input.requirements candidate = .error gate := by
          intro candidate hmem
          cases hpass : snapshot.candidateEntry input.requirements candidate with
          | error gate => exact ⟨gate, rfl⟩
          | ok entry => exact absurd ⟨candidate, hmem, entry, hpass⟩ hadmits
        refine Or.inr ⟨?_, evaluated_refused hrefused⟩
        rw [← hchosen, filterMap_eq_nil_iff]
        intro candidate hmem
        obtain ⟨gate, hgate⟩ := hrefused candidate hmem
        obtain ⟨e, he⟩ := evaluated_one_refused input hgate
        rw [DispatchSnapshot.choiceOf, he]
    refine ⟨?_, ?_, ?_⟩
    · constructor
      · rintro ⟨choice, h⟩
        rcases hresolve with ⟨choice', hmem, -⟩ | ⟨-, e, he⟩
        · have hne : chosen ≠ [] := ne_nil_of_mem hmem
          exact ⟨chosen, hsome hne, hne⟩
        · rw [h] at he
          cases he
      · rintro ⟨choices, heligible, -⟩
        rcases hresolve with ⟨choice, -, h⟩ | ⟨hnil, -⟩
        · exact ⟨choice, h⟩
        · obtain ⟨e, he⟩ := hnone hnil
          rw [heligible] at he
          cases he
    · intro choice choices h heligible
      rcases hresolve with ⟨choice', hmem, h'⟩ | ⟨-, e, he⟩
      · cases h.symm.trans h'
        have := heligible.symm.trans (hsome (ne_nil_of_mem hmem))
        cases this
        exact hmem
      · rw [h] at he
        cases he
    · intro pool hsame
      cases hpool.symm.trans hsame
      obtain ⟨diagnoses, hdiagnoses⟩ := exists_mapM_ok (snapshot.diagnosisOf input) (by
        intro candidate (hmem : candidate ∈ candidatePool)
        obtain ⟨baseline, hbaseline⟩ := evaluated_empty input (hcanonical candidate hmem)
        obtain ⟨outcome, houtcome⟩ := hok candidate hmem
        exact ⟨_, by rw [DispatchSnapshot.diagnosisOf, hbaseline, houtcome]; rfl⟩)
      have hall := Checks.mapM_eq_ok.mp hdiagnoses
      refine ⟨diagnoses, ?_, ?_, ?_⟩
      · unfold DispatchSnapshot.diagnose
        rw [hpool]
        dsimp only
        rw [hdiagnoses]
        rfl
      · rw [hchoices, ← hchosen]
        exact filterMap_of_forall₂ hall fun candidate hmem d hd => choice_of_diagnosis (hcanonical candidate hmem) hd
      · refine forall₂_of_mem hall fun candidate hmem d hd => ?_
        obtain ⟨outcome, houtcome, hname, hadmitted, hcode⟩ := diagnosisOf_spec hd
        refine ⟨hname, fun hno => ?_⟩
        rcases hevaluated candidate hmem with ⟨gate, e, hgate, -⟩ | ⟨_, choice, -, hchoice⟩
        · refine ⟨gate.code, ?_, ?_⟩
          · rw [hcode hno]
            exact code_of_refused (hcanonical candidate hmem) hgate
              ((hcovered candidatePool hpool candidate hmem).refused gate hgate)
          · rw [DispatchSnapshot.refusal, hgate]
        · cases houtcome.symm.trans hchoice
          rw [hadmitted] at hno
          cases hno

theorem exists_of_forall₂ {α β : Type} {R S : α → β → Prop} {as : List α} {bs : List β} (h : List.Forall₂ R as bs)
    (h' : List.Forall₂ S as bs) {a : α} (ha : a ∈ as) : ∃ b, R a b ∧ S a b := by
  induction h with
  | nil => cases ha
  | cons hab _ ih =>
    cases h' with
    | cons hab' h' =>
      rcases mem_cons.mp ha with rfl | ha
      · exact ⟨_, hab, hab'⟩
      · exact ih h' ha

/-- Where the answers agree, every candidate of the pool is covered. -/
theorem Agree.covered (h : Agree snapshot input) (hpool : snapshot.pool input = .ok candidatePool)
    (hmem : candidate ∈ candidatePool) : Covered snapshot input candidate := by
  have hcanonical := canonical_of_pool hpool hmem
  obtain ⟨diagnoses, hdiagnose, -, hexplains⟩ := h.diagnosed candidatePool hpool
  unfold DispatchSnapshot.diagnose at hdiagnose
  rw [hpool] at hdiagnose
  obtain ⟨diagnoses', hdiagnoses, hpure⟩ := Checks.bind_eq_ok.mp hdiagnose
  cases hpure
  obtain ⟨d, hd, -, hexplained⟩ := exists_of_forall₂ (Checks.mapM_eq_ok.mp hdiagnoses) hexplains hmem
  obtain ⟨outcome, houtcome, -, hadmitted, hcode⟩ := diagnosisOf_spec hd
  constructor
  · intro entry hpass
    rw [evaluated_one hcanonical hpass] at houtcome
    cases hrun : snapshot.runAt input.requirements candidate <;> rw [hrun] at houtcome
    case none => cases houtcome
    case some plan =>
      refine ⟨rfl, (laterFailure_eq_none_iff hpass).mp ?_⟩
      have hchecked : snapshot.checked input input.requirements candidate entry plan = outcome :=
          Except.ok.inj houtcome
      by_contra hfailure
      obtain ⟨failure, hfailure⟩ := Option.ne_none_iff_exists'.mp hfailure
      rw [DispatchSnapshot.checked, hfailure] at hchecked
      have hno : d.admitted = none := by
        rw [hadmitted, ← hchecked]
        rfl
      obtain ⟨code, hrejected, -⟩ := hexplained hno
      have hgates : gateCodes snapshot.catalog snapshot.env input.requirements snapshot.localSpeed candidate =
          .ok () := by
        rw [DispatchSnapshot.candidateEntry] at hpass
        rw [gateCodes, hpass]
        rfl
      rw [hcode hno, eliminationForCandidate_eq_none ((replayedCodes_eq hcanonical hrun).trans hgates)] at hrejected
      cases hrejected
  · intro gate hgate hne
    by_contra hrun
    rw [Bool.not_eq_true, Option.isSome_eq_false_iff, Option.isNone_iff_eq_none] at hrun
    obtain ⟨e, he⟩ := evaluated_one_refused input hgate
    cases houtcome.symm.trans he
    obtain ⟨code, hrejected, hrefusal⟩ := hexplained hadmitted
    rw [DispatchSnapshot.refusal, hgate] at hrefusal
    rw [hcode hadmitted, code_eliminationForCandidate (replayedCodes_of_effort hrun)] at hrejected
    exact hne ((Option.some.inj hrefusal).trans (Option.some.inj hrejected).symm)

end

/-- The three answers agree exactly when every candidate of the pool is covered. -/
theorem surfaces_agree_iff (snapshot : DispatchSnapshot) (input : ResolveTaskDispatchInput) : Agree snapshot input ↔
    ∀ candidatePool, snapshot.pool input = .ok candidatePool →
    ∀ candidate ∈ candidatePool, Covered snapshot input candidate :=
  ⟨fun h _ hpool _ hmem => h.covered hpool hmem, agree_of_covered⟩

def offeredModel (price : ℚ) : ModelDefinition where
  id := js "kimi-k3"
  upstreamId := none
  contextWindow := none
  supportsFast := false
  intelligence := some .high
  reasoningEfforts := [.high]
  maxOutputTokens := none
  capabilities := none
  supportedClients := none
  speed := .finite 50
  pricing := some ⟨.finite 0, .finite 1, .finite price⟩
  free := false
  protocols := [.openaiChat]

def offering (id : JsString) (price : ℚ) : ProviderDefinition where
  id := id
  models := [offeredModel price]
  nativeClients := []
  modelAliases := []
  modelSpeedOverrides := []
  modelSpeedMeasurements := []
  reasoningEffortMappings := []
  fastMapping := none

def grokClient : ClientDefinition where
  id := js "grok"
  nativeProvider := none
  gatewayProtocols := [.openaiChat]
  forwardsGatewayReasoningEffort := true
  unsupportedGatewayProviders := []
  taskCapable := true
  supportsNativeWebSearch := false
  supportsNativeFast := false

/-- `p` and `q` offer one model, `p` at half the price of `q`. -/
def twoOffers : Catalog where
  providersByID := [offering (js "p") 1, offering (js "q") 2]
  clientsByID := [grokClient]
  aliases := by
    intro provider hprovider model _
    rcases List.mem_cons.mp hprovider with rfl | hprovider
    · rfl
    · cases List.mem_singleton.mp hprovider
      rfl

/-- No credential of `p` is available, so that only the plan of `q` is compiled. -/
def withoutCredential : DispatchSnapshot where
  catalog := twoOffers
  env := ⟨fun _ _ => 0, fun _ => .nan, 0⟩
  runtimePlans :=
    [(js "q/kimi-k3:gk", ⟨js "grok", js "q", js "kimi-k3", false, some .openaiChat, false, none, none, none⟩)]
  localSpeed := []

def answerOf {α : Type} (answer : MayThrow (Except NoEligiblePlanError α)) : Option α :=
  answer.toOption.bind (·.toOption)

theorem eq_ok_of_answerOf {α : Type} {answer : MayThrow (Except NoEligiblePlanError α)} {a : α}
    (h : answerOf answer = some a) : answer = .ok (.ok a) := by
  rcases answer with _ | (_ | a')
  · cases h
  · cases h
  · cases h
    rfl

set_option maxRecDepth 4000 in
/-- `resolve` selects the cheaper offer and fails, while `eligible` returns the other one, and the diagnosis of the
cheaper one is neither admitted nor rejected. -/
theorem not_surfaces_agree : ¬ Agree withoutCredential ⟨.empty, none⟩ ∧
    answerOf (withoutCredential.resolve ⟨.empty, none⟩) = none ∧
    (answerOf (withoutCredential.eligible ⟨.empty, none⟩)).map List.length = some 1 ∧
    (answerOf (withoutCredential.diagnose ⟨.empty, none⟩)).any (fun diagnoses =>
      diagnoses.any fun d => d.admitted.isNone && d.rejectionCode.isNone) = true := by
  have hresolve : answerOf (withoutCredential.resolve ⟨.empty, none⟩) = none := by decide
  have heligible : (answerOf (withoutCredential.eligible ⟨.empty, none⟩)).map List.length = some 1 := by decide
  refine ⟨fun hagree => ?_, hresolve, heligible, by decide⟩
  obtain ⟨choices, hchoices, hlength⟩ := Option.map_eq_some_iff.mp heligible
  obtain ⟨choice, hchoice⟩ := hagree.resolves.mpr ⟨choices, eq_ok_of_answerOf hchoices, by
    rintro rfl
    cases hlength⟩
  rw [hchoice] at hresolve
  cases hresolve

end Wrenyard.Routing
