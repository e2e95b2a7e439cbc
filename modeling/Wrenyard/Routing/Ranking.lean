import Mathlib.Tactic.Ring
import Wrenyard.Js.KeyOrder
import Wrenyard.Lib.Comparator
import Wrenyard.Routing.Candidate

/-!
# Automatic ranking

The entries of a task become candidate inputs under one selection context; the accepted candidates are ranked by tier,
score and identity.  Without a configured price cap the cap is the highest reference price of the entries themselves.

The ranking is a function of the set of entries: their order does not matter, and which other entries there are
changes neither whether an entry is ranked nor its place among the others.  With a derived cap this rests on the
prices of the catalog, which are validated to be non-negative: such a cap never cuts an entry.
-/

namespace Wrenyard.Routing

open Js List

inductive IntelligenceTier where
  | low
  | mid
  | high
  | premium

/-- `INTELLIGENCE_ORDER`. -/
def IntelligenceTier.order : IntelligenceTier → ℚ
  | low => 0
  | mid => 1
  | high => 2
  | premium => 3

def IntelligenceTier.ofName (name : JsString) : Option IntelligenceTier :=
  if name = js "low" then some low
  else if name = js "mid" then some mid
  else if name = js "high" then some high
  else if name = js "premium" then some premium
  else none

structure FreeSupplyFact where
  source : JsString
  ruleId : JsString

structure ModelRoutingEntry where
  provider : JsString
  model : JsString
  exactAgentRuntime : JsString
  intelligence : JsString
  outputUsdPerMillion : Option Number
  effectiveTps : Number
  freeSupply : Option FreeSupplyFact

structure DeepSeekAutomaticPricing where
  safetyOutputUsdPerM : Number
  marginalPrice : MarginalPriceEvidence

structure ProviderQuotaPool where
  quotaPoolId : JsString
  kind : QuotaPoolKind
  routingDiscountRate : Option Number
  usageUnknown : Bool

structure ProviderQuotaBinding where
  pools : List ProviderQuotaPool
  ne_nil : pools ≠ []

structure AutoRoutingQuotaSnapshotEntry where
  providerId : JsString
  modelId : JsString
  quotaPoolIds : List JsString
  requiredQuota : List RequiredQuotaConstraint

structure AutomaticSelectionContext where
  snapshotId : JsString
  nowMs : Number
  timeoutMs : Number
  snapshot : Option (List AutoRoutingQuotaSnapshotEntry)
  capUsdPerM : Number
  minimumTps : Number
  expectedTps : Number
  intelligenceMinRank : Number
  intelligenceExpectedRank : Option Number

/-- `effectiveRoutingCap`. -/
def effectiveRoutingCap (references : List (Option Number)) (caps : List Number) : Number :=
  if caps ≠ [] then Number.minOf caps
  else
    let finite := references.filterMap fun value => value.bind Number.finite?
    if finite ≠ [] then Number.maxOf (finite.map Number.finite) else .finite 0

def requiredQuotaForBinding (providerId : JsString) : Option ProviderQuotaBinding → List RequiredQuotaConstraint
  | none => [⟨providerId ++ js "/usage", none, none, none, none, false, false⟩]
  | some bucket => bucket.pools.map fun pool =>
    ⟨pool.quotaPoolId, none, none, if pool.kind = .balance then some .balance
      else none, none, pool.usageUnknown, false⟩

section

/- The provider metadata: `findProviderQuotaBindingForSupply` and `CHATGPT_CREDITS_POOL`. -/
variable (binding : JsString → JsString → Bool → Option ProviderQuotaBinding) (creditsPool : ProviderQuotaPool)

def snapshotEntryOf (context : AutomaticSelectionContext) (entry : ModelRoutingEntry) :
    Option AutoRoutingQuotaSnapshotEntry :=
  context.snapshot.bind fun entries =>
    (entries.find? fun e => e.providerId == entry.provider && e.modelId == entry.model).or
      (entries.find? fun e => e.providerId == entry.provider && e.modelId == js "*")

/-- The required quota of a candidate: the snapshot is authoritative, except over the pool of a confirmed-free
supply. -/
def requiredQuotaOf (entry : ModelRoutingEntry) (quotaEntry : Option AutoRoutingQuotaSnapshotEntry) :
    List RequiredQuotaConstraint :=
  let declared := requiredQuotaForBinding entry.provider (binding entry.provider entry.model entry.freeSupply.isSome)
  match quotaEntry.map (·.requiredQuota) with
  | none => declared
  | some required =>
    if entry.freeSupply.isSome then
      if required.any fun constraint => some constraint.id == declared.head?.map (·.id) then required else declared
    else required

def discountRateOf (entry : ModelRoutingEntry) (quotaEntry : Option AutoRoutingQuotaSnapshotEntry) : Number :=
  let boundPools := ((binding entry.provider entry.model entry.freeSupply.isSome).map (·.pools)).getD []
  let effectivePools : List ProviderQuotaPool := match quotaEntry.map (·.quotaPoolIds) with
    | none => boundPools
    | some ids => ids.filterMap fun id =>
      (boundPools.find? (·.quotaPoolId == id)).or (if id = creditsPool.quotaPoolId then some creditsPool else none)
  if effectivePools.isEmpty then .finite 1
  else Number.maxOf (effectivePools.map fun pool =>
    if pool.kind = .balance then .finite 1 else pool.routingDiscountRate.getD (.finite 1))

def referenceOf (entry : ModelRoutingEntry) (deepSeekPricing : Option DeepSeekAutomaticPricing) : Option Number :=
  ((deepSeekPricing.map (·.safetyOutputUsdPerM)).or entry.outputUsdPerMillion).or
    (if entry.freeSupply.isSome then some (.finite 0) else none)

def toAutomaticCandidateInput (entry : ModelRoutingEntry) (context : AutomaticSelectionContext)
    (deepSeekPricing : Option DeepSeekAutomaticPricing) : Option CandidateInput := do
  let tier ← IntelligenceTier.ofName entry.intelligence
  let reference ← (← referenceOf entry deepSeekPricing).finite?
  let quotaEntry := snapshotEntryOf context entry
  pure
    { snapshotId := context.snapshotId
      canonicalId := entry.exactAgentRuntime
      nowMs := context.nowMs
      referenceUsdPerM := .finite reference
      quotaPoolDiscountRate := some (discountRateOf binding creditsPool entry quotaEntry)
      effectiveCapUsdPerM := context.capUsdPerM
      timeoutMs := context.timeoutMs
      minimumTps := context.minimumTps
      effectiveTps := entry.effectiveTps
      expectedTps := some context.expectedTps
      intelligenceRank := .finite tier.order
      intelligenceMinRank := context.intelligenceMinRank
      intelligenceExpectedRank := context.intelligenceExpectedRank
      requiredQuota := requiredQuotaOf binding entry quotaEntry
      marginalPrice := deepSeekPricing.map (·.marginalPrice)
      confirmedFreeSupply := entry.freeSupply.map fun fact =>
        ⟨js "confirmed_free", context.nowMs, context.nowMs.add context.timeoutMs, fact.source, fact.ruleId⟩ }

end

structure ExcludedCandidate where
  snapshotId : JsString
  canonicalId : JsString
  reason : ExcludedReason
  detail : Option Message

structure RankedCandidate extends CandidateAssessment where
  rank : Nat

structure AutoRoutingResult where
  ranked : List RankedCandidate
  excluded : List ExcludedCandidate

/-- `compareLex`. -/
def compareLex (a b : JsString) : ℚ := if a < b then -1 else if b < a then 1 else 0

def collect (weights : ScoreWeights) :
    Option (JsString × Number) → List CandidateInput → List CandidateAssessment × List ExcludedCandidate
  | _, [] => ([], [])
  | context, input :: inputs =>
    match CandidateEvaluator.evaluate input weights with
    | .ok assessment =>
      let context' := context.getD (input.snapshotId, input.nowMs)
      let (accepted, excluded) := collect weights (some context') inputs
      if (input.snapshotId, input.nowMs) ≠ context' then
        let expected := match context'.2 with
          | .finite now => [.text (js "expected snapshotId=" ++ context'.1 ++ js ", nowMs="), .number now]
          | _ => []
        (accepted, ⟨assessment.snapshotId, assessment.canonicalId, .snapshotContextMismatch,
          some expected⟩ :: excluded)
      else (assessment :: accepted, excluded)
    | .error rejection =>
      let (accepted, excluded) := collect weights context inputs
      (accepted, ⟨input.snapshotId, input.canonicalId, rejection.reason, rejection.detail⟩ :: excluded)

def compareExcluded : ExcludedCandidate → ExcludedCandidate → ℚ :=
  Comparator.then_ (fun a b => compareLex a.canonicalId b.canonicalId) fun a b => compareLex a.snapshotId b.snapshotId

def compareRanked : CandidateAssessment → CandidateAssessment → ℚ :=
  Comparator.then_ (fun a b => a.tier.severity - b.tier.severity) <|
    Comparator.then_ (fun a b => b.score - a.score) <|
      Comparator.then_ (fun a b => compareLex a.canonicalId b.canonicalId) fun a b =>
        compareLex a.snapshotId b.snapshotId

def noteShortfall : List CandidateAssessment → List CandidateAssessment
  | [] => []
  | selected :: rest =>
    (if selected.intelligenceShortfall > 0 then
      { selected with notes := selected.notes ++ [js "intelligence_below_expected"] }
    else selected) :: rest

/-- `toRankedCandidate` of each, with its place. -/
def toRankedCandidates (assessments : List CandidateAssessment) : List RankedCandidate :=
  assessments.zipIdx.map fun x => { x.1 with rank := x.2 + 1 }

/-- `AutoRouter.rank`. -/
def AutoRouter.rank (inputs : List CandidateInput) (weights : Option RawScoreWeights) :
    Except Message AutoRoutingResult := do
  let effectiveWeights ← validateScoreWeights (weights.getD SCORE_WEIGHTS)
  let (accepted, excluded) := collect effectiveWeights none inputs
  pure
    { ranked := toRankedCandidates (noteShortfall (Comparator.sort compareRanked accepted))
      excluded := Comparator.sort compareExcluded excluded }

structure AutomaticTaskRequirements where
  minimumTps : Option Number
  expectedTps : Option Number
  intelligenceMin : Option IntelligenceTier
  intelligenceExpected : Option IntelligenceTier
  maxOutputUsdPerMillion : Option Number

structure AutomaticTaskRankingParams where
  snapshotId : JsString
  snapshot : Option (List AutoRoutingQuotaSnapshotEntry)
  nowMs : Number
  timeoutMs : Number
  requirements : AutomaticTaskRequirements

structure AutomaticTaskRoutingWeights where
  price : Number
  speed : Number
  quota : Number
  intelligence : Number

structure AutomaticTaskRankingResult where
  inputs : List CandidateInput
  ranked : AutoRoutingResult
  unscorableIds : List JsString
  capUsdPerM : Number

def finiteOrDefault (value : Option Number) (fallback : ℚ) : Number :=
  .finite ((value.bind Number.finite?).getD fallback)

/-- A missing expectation is `mid`, or the hard minimum where that is higher. -/
def expectedRankOf (requirements : AutomaticTaskRequirements) : ℚ :=
  match requirements.intelligenceExpected with
  | some tier => tier.order
  | none =>
    match requirements.intelligenceMin with
    | some minTier => if IntelligenceTier.mid.order < minTier.order then minTier.order else IntelligenceTier.mid.order
    | none => IntelligenceTier.mid.order

def capOf (params : AutomaticTaskRankingParams) (deepSeekPricing : JsString → Option DeepSeekAutomaticPricing)
    (entries : List ModelRoutingEntry) : Number :=
  effectiveRoutingCap
    (entries.map fun entry =>
      ((deepSeekPricing entry.exactAgentRuntime).map (·.safetyOutputUsdPerM)).or entry.outputUsdPerMillion)
    params.requirements.maxOutputUsdPerMillion.toList

def contextOf (params : AutomaticTaskRankingParams) (capUsdPerM : Number) : AutomaticSelectionContext where
  snapshotId := params.snapshotId
  nowMs := params.nowMs
  timeoutMs := params.timeoutMs
  snapshot := params.snapshot
  capUsdPerM := capUsdPerM
  minimumTps := finiteOrDefault params.requirements.minimumTps 0
  expectedTps := finiteOrDefault params.requirements.expectedTps 0
  intelligenceMinRank := .finite ((params.requirements.intelligenceMin.map IntelligenceTier.order).getD 0)
  intelligenceExpectedRank := some (.finite (expectedRankOf params.requirements))

section

variable (binding : JsString → JsString → Bool → Option ProviderQuotaBinding) (creditsPool : ProviderQuotaPool)

def rankAutomaticTaskCandidates (entries : List ModelRoutingEntry) (params : AutomaticTaskRankingParams)
    (routingWeights : Option AutomaticTaskRoutingWeights)
    (deepSeekPricing : JsString → Option DeepSeekAutomaticPricing) : Except Message AutomaticTaskRankingResult := do
  let capUsdPerM := capOf params deepSeekPricing entries
  let inputOf (entry : ModelRoutingEntry) : Option CandidateInput :=
    toAutomaticCandidateInput binding creditsPool entry (contextOf params capUsdPerM)
      (deepSeekPricing entry.exactAgentRuntime)
  let inputs := entries.filterMap inputOf
  let ranked ← AutoRouter.rank inputs (routingWeights.map fun w => ⟨w.price, w.speed, w.quota, w.intelligence⟩)
  pure
    { inputs, ranked, capUsdPerM
      unscorableIds := (entries.filter fun entry => (inputOf entry).isNone).map (·.exactAgentRuntime) }

end

variable {a b : JsString}

private theorem compareLex_nonpos : compareLex a b ≤ 0 ↔ a ≤ b := by
  unfold compareLex
  split
  · rename_i hab
    exact iff_of_true (by norm_num) (List.le_of_lt hab)
  split
  · rename_i hba
    exact iff_of_false (by norm_num) (not_not_intro hba)
  · rename_i hba
    exact iff_of_true le_rfl hba

private theorem compareLex_nonneg : 0 ≤ compareLex a b ↔ b ≤ a := by
  unfold compareLex
  split
  · rename_i hab
    exact iff_of_false (by norm_num) (not_not_intro hab)
  · rename_i hab
    refine iff_of_true ?_ hab
    split <;> norm_num

private theorem lawful_compareLex : Comparator.Lawful compareLex where
  swap a b := by rw [compareLex_nonpos, compareLex_nonneg]
  trans a b d hab hbd := by
    rw [compareLex_nonpos] at hab hbd ⊢
    exact List.le_trans hab hbd

private theorem eq_of_compareLex (h : compareLex a b = 0) : a = b :=
  List.le_antisymm (compareLex_nonpos.mp h.le) (compareLex_nonneg.mp h.ge)

theorem lawful_compareExcluded : Comparator.Lawful compareExcluded :=
  (lawful_compareLex.comap ExcludedCandidate.canonicalId).then_ (lawful_compareLex.comap ExcludedCandidate.snapshotId)

theorem lawful_compareRanked : Comparator.Lawful compareRanked := by
  have hscore : Comparator.Lawful fun a b : CandidateAssessment => b.score - a.score := by
    have h := Comparator.lawful_sub fun a : CandidateAssessment => -a.score
    have heq : (fun a b : CandidateAssessment => -a.score - -b.score) = fun a b => b.score - a.score := by
      funext a b
      ring
    rwa [heq] at h
  exact (Comparator.lawful_sub _).then_ (hscore.then_
    ((lawful_compareLex.comap CandidateAssessment.canonicalId).then_
      (lawful_compareLex.comap CandidateAssessment.snapshotId)))

theorem canonicalId_of_compareRanked {a b : CandidateAssessment} (h : compareRanked a b = 0) :
    a.canonicalId = b.canonicalId := by
  have h2 := (Comparator.then_eq_zero_iff.mp (Comparator.then_eq_zero_iff.mp h).2).2
  exact eq_of_compareLex (Comparator.then_eq_zero_iff.mp h2).1

private theorem foldl_max_finite (l : List ℚ) (a : ℚ) :
    ∃ c, (l.map Number.finite).foldl Number.max (.finite a) = .finite c ∧ c ∈ a :: l ∧ ∀ q ∈ a :: l, q ≤ c := by
  induction l generalizing a with
  | nil => exact ⟨a, rfl, mem_singleton_self a, fun q hq => (mem_singleton.mp hq).le⟩
  | cons b l ih =>
    have hmax : Number.max (.finite a) (.finite b) = .finite (max a b) := by
      show (if decide (a ≤ b) = true then Number.finite b else Number.finite a) = _
      by_cases hab : a ≤ b
      · rw [if_pos (decide_eq_true hab), max_eq_right hab]
      · rw [if_neg (by simpa using hab), max_eq_left (le_of_not_ge hab)]
    obtain ⟨c, hc, hmem, hle⟩ := ih (max a b)
    have hab : max a b ≤ c := hle _ mem_cons_self
    refine ⟨c, ?_, ?_, ?_⟩
    · rw [map_cons, foldl_cons, hmax]
      exact hc
    · rcases mem_cons.mp hmem with rfl | hmem
      · rcases max_choice a b with h | h <;> rw [h] <;> simp
      · exact mem_cons_of_mem _ (mem_cons_of_mem _ hmem)
    · intro q hq
      rcases mem_cons.mp hq with rfl | hq
      · exact (le_max_left _ _).trans hab
      · rcases mem_cons.mp hq with rfl | hq
        · exact (le_max_right _ _).trans hab
        · exact hle q (mem_cons_of_mem _ hq)

private theorem maxOf_finite {l : List ℚ} (hl : l ≠ []) :
    ∃ c ∈ l, Number.maxOf (l.map Number.finite) = .finite c ∧ ∀ q ∈ l, q ≤ c := by
  cases l with
  | nil => exact absurd rfl hl
  | cons a l =>
    obtain ⟨c, hc, hmem, hle⟩ := foldl_max_finite l a
    exact ⟨c, hmem, hc, hle⟩

def finiteReferences (deepSeekPricing : JsString → Option DeepSeekAutomaticPricing)
    (entries : List ModelRoutingEntry) :
    List ℚ :=
  entries.filterMap fun entry =>
    (((deepSeekPricing entry.exactAgentRuntime).map (·.safetyOutputUsdPerM)).or entry.outputUsdPerMillion).bind
      Number.finite?

/-- The prices of the catalog and of the tariffs are not negative. -/
def ValidatedPrices (deepSeekPricing : JsString → Option DeepSeekAutomaticPricing)
    (entries : List ModelRoutingEntry) : Prop :=
  ∀ q ∈ finiteReferences deepSeekPricing entries, 0 ≤ q

variable {params : AutomaticTaskRankingParams} {deepSeekPricing : JsString → Option DeepSeekAutomaticPricing}
  {entries entries' : List ModelRoutingEntry}

private theorem capOf_configured {cap : Number} (h : params.requirements.maxOutputUsdPerMillion = some cap)
    (entries : List ModelRoutingEntry) : capOf params deepSeekPricing entries = Number.minOf [cap] := by
  unfold capOf effectiveRoutingCap
  rw [h]
  rfl

private theorem capOf_derived (h : params.requirements.maxOutputUsdPerMillion = none)
    (entries : List ModelRoutingEntry) :
    capOf params deepSeekPricing entries =
      if finiteReferences deepSeekPricing entries ≠ [] then
        Number.maxOf ((finiteReferences deepSeekPricing entries).map Number.finite)
      else .finite 0 := by
  unfold capOf effectiveRoutingCap finiteReferences
  rw [h, filterMap_map]
  rfl

/-- The order of the entries does not change the cap. -/
private theorem capOf_perm (h : entries.Perm entries') :
    capOf params deepSeekPricing entries = capOf params deepSeekPricing entries' := by
  cases hcap : params.requirements.maxOutputUsdPerMillion with
  | some cap => rw [capOf_configured hcap, capOf_configured hcap]
  | none =>
    have hperm : (finiteReferences deepSeekPricing entries).Perm (finiteReferences deepSeekPricing entries') :=
      h.filterMap _
    rw [capOf_derived hcap, capOf_derived hcap]
    by_cases hnil : finiteReferences deepSeekPricing entries = []
    · have hnil' : finiteReferences deepSeekPricing entries' = [] := by
        rw [hnil] at hperm
        exact hperm.nil_eq.symm
      rw [hnil, hnil']
    have hnil' : finiteReferences deepSeekPricing entries' ≠ [] := by
      intro h'
      rw [h'] at hperm
      exact hnil hperm.eq_nil
    obtain ⟨c, hmem, hc, hle⟩ := maxOf_finite hnil
    obtain ⟨c', hmem', hc', hle'⟩ := maxOf_finite hnil'
    rw [if_pos hnil, if_pos hnil', hc, hc',
      le_antisymm (hle' c (hperm.mem_iff.mp hmem)) (hle c' (hperm.mem_iff.mpr hmem'))]

private theorem capOf_bounds (h : params.requirements.maxOutputUsdPerMillion = none)
    (hprices : ValidatedPrices deepSeekPricing entries) : ∃ c, capOf params deepSeekPricing entries = .finite c ∧ 0 ≤
    c ∧ ∀ q ∈ finiteReferences deepSeekPricing entries, q ≤ c := by
  rw [capOf_derived h]
  by_cases hnil : finiteReferences deepSeekPricing entries = []
  · rw [hnil]
    exact ⟨0, rfl, le_rfl, by simp⟩
  · obtain ⟨c, hmem, hc, hle⟩ := maxOf_finite hnil
    rw [if_pos hnil]
    exact ⟨c, hc, hprices c hmem, hle⟩

def excludedOf (weights : ScoreWeights) (input : CandidateInput) : Option ExcludedCandidate :=
  match CandidateEvaluator.evaluate input weights with
  | .ok _ => none
  | .error rejection => some ⟨input.snapshotId, input.canonicalId, rejection.reason, rejection.detail⟩

private theorem collect_same {weights : ScoreWeights} {snapshotId : JsString} {nowMs : Number}
    {inputs : List CandidateInput}
    (h : ∀ input ∈ inputs, input.snapshotId = snapshotId ∧ input.nowMs = nowMs) {context : Option (JsString × Number)}
    (hcontext : ∀ x ∈ context, x = (snapshotId, nowMs)) :
    collect weights context inputs =
      (inputs.filterMap fun input => (CandidateEvaluator.evaluate input weights).toOption,
        inputs.filterMap (excludedOf weights)) := by
  induction inputs generalizing context with
  | nil => rfl
  | cons input inputs ih =>
    obtain ⟨hid, hnow⟩ := h input mem_cons_self
    have hrest : ∀ x ∈ inputs, x.snapshotId = snapshotId ∧ x.nowMs = nowMs :=
      fun x hx => h x (mem_cons_of_mem _ hx)
    rw [collect, filterMap_cons, filterMap_cons, excludedOf]
    cases CandidateEvaluator.evaluate input weights with
    | error rejection =>
      rw [ih hrest hcontext]
      rfl
    | ok assessment =>
      have hctx : context.getD (input.snapshotId, input.nowMs) = (input.snapshotId, input.nowMs) := by
        cases context with
        | none => rfl
        | some x => rw [Option.getD_some, hcontext x rfl, hid, hnow]
      dsimp only
      rw [hctx, ih hrest (by simp [hid, hnow])]
      simp [Except.toOption]

section

variable (binding : JsString → JsString → Bool → Option ProviderQuotaBinding) (creditsPool : ProviderQuotaPool)
  (params : AutomaticTaskRankingParams) (deepSeekPricing : JsString → Option DeepSeekAutomaticPricing)

def inputOf (cap : Number) (entry : ModelRoutingEntry) : Option CandidateInput :=
  toAutomaticCandidateInput binding creditsPool entry (contextOf params cap) (deepSeekPricing entry.exactAgentRuntime)

def acceptedEntry (weights : ScoreWeights) (cap : Number) (entry : ModelRoutingEntry) : Option CandidateAssessment :=
  (inputOf binding creditsPool params deepSeekPricing cap entry).bind fun input =>
    (CandidateEvaluator.evaluate input weights).toOption

def excludedEntry (weights : ScoreWeights) (cap : Number) (entry : ModelRoutingEntry) : Option ExcludedCandidate :=
  (inputOf binding creditsPool params deepSeekPricing cap entry).bind (excludedOf weights)

def rankingUnder (weights : ScoreWeights) (cap : Number) (entries : List ModelRoutingEntry) : AutoRoutingResult where
  ranked := toRankedCandidates (noteShortfall (Comparator.sort compareRanked
    (entries.filterMap (acceptedEntry binding creditsPool params deepSeekPricing weights cap))))
  excluded := Comparator.sort compareExcluded
    (entries.filterMap (excludedEntry binding creditsPool params deepSeekPricing weights cap))

end

variable {binding : JsString → JsString → Bool → Option ProviderQuotaBinding} {creditsPool : ProviderQuotaPool}
  {weights : ScoreWeights} {cap cap' : Number} {entry : ModelRoutingEntry}

private theorem inputOf_spec {input : CandidateInput}
    (h : inputOf binding creditsPool params deepSeekPricing cap entry = some input) : input.snapshotId =
    params.snapshotId ∧ input.nowMs = params.nowMs ∧ input.canonicalId = entry.exactAgentRuntime ∧
    ∃ r, input.referenceUsdPerM = .finite r ∧
    (referenceOf entry (deepSeekPricing entry.exactAgentRuntime)).bind Number.finite? = some r := by
  obtain ⟨tier, -, h⟩ := Option.bind_eq_some_iff.mp h
  obtain ⟨reference, hreference, h⟩ := Option.bind_eq_some_iff.mp h
  obtain ⟨r, hr, h⟩ := Option.bind_eq_some_iff.mp h
  cases h
  refine ⟨rfl, rfl, rfl, r, rfl, ?_⟩
  rw [hreference]
  exact hr

private theorem inputOf_withCap : inputOf binding creditsPool params deepSeekPricing cap' entry =
    (inputOf binding creditsPool params deepSeekPricing cap entry).map (·.withCap cap') := by
  unfold inputOf toAutomaticCandidateInput
  cases IntelligenceTier.ofName entry.intelligence with
  | none => rfl
  | some tier =>
    cases referenceOf entry (deepSeekPricing entry.exactAgentRuntime) with
    | none => rfl
    | some reference =>
      cases hfinite : reference.finite? <;> simp [hfinite, CandidateInput.withCap, contextOf, snapshotEntryOf]

private theorem acceptedEntry_id {assessment : CandidateAssessment}
    (h : acceptedEntry binding creditsPool params deepSeekPricing weights cap entry = some assessment) :
    assessment.canonicalId = entry.exactAgentRuntime := by
  obtain ⟨input, hinput, h⟩ := Option.bind_eq_some_iff.mp h
  cases heval : CandidateEvaluator.evaluate input weights <;> rw [heval] at h
  case error e => cases h
  case ok a =>
    cases h
    rw [(CandidateEvaluator.identity_of_ok heval).2, (inputOf_spec hinput).2.2.1]

private theorem excludedEntry_id {excluded : ExcludedCandidate}
    (h : excludedEntry binding creditsPool params deepSeekPricing weights cap entry = some excluded) :
    excluded.canonicalId = entry.exactAgentRuntime := by
  obtain ⟨input, hinput, h⟩ := Option.bind_eq_some_iff.mp h
  unfold excludedOf at h
  split at h <;> cases h
  exact (inputOf_spec hinput).2.2.1

private theorem reference_cases (hentry : entry ∈ entries) {r : ℚ}
    (h : (referenceOf entry (deepSeekPricing entry.exactAgentRuntime)).bind Number.finite? = some r) :
    r ∈ finiteReferences deepSeekPricing entries ∨ r = 0 := by
  unfold referenceOf at h
  cases hprice : ((deepSeekPricing entry.exactAgentRuntime).map
    (·.safetyOutputUsdPerM)).or entry.outputUsdPerMillion <;> rw [hprice] at h
  case some price =>
    left
    refine mem_filterMap.mpr ⟨entry, hentry, ?_⟩
    rw [hprice]
    exact h
  case none =>
    right
    by_cases hfree : entry.freeSupply.isSome = true
    · rw [if_pos hfree] at h
      cases h
      rfl
    · rw [if_neg hfree] at h
      cases h

private theorem acceptedEntry_cap {c c' : ℚ} (hentry : entry ∈ entries) (h0 : 0 ≤ c) (h0' : 0 ≤ c')
    (hc : ∀ q ∈ finiteReferences deepSeekPricing entries, q ≤ c)
    (hc' : ∀ q ∈ finiteReferences deepSeekPricing entries, q ≤ c') :
    acceptedEntry binding creditsPool params deepSeekPricing weights (.finite c) entry =
    acceptedEntry binding creditsPool params deepSeekPricing weights (.finite c') entry := by
  unfold acceptedEntry
  cases hinput : inputOf binding creditsPool params deepSeekPricing (.finite c) entry with
  | none =>
    rw [@inputOf_withCap params deepSeekPricing binding creditsPool (.finite c) (.finite c') entry, hinput]
    rfl
  | some input =>
    obtain ⟨-, -, -, r, hr, hreference⟩ := inputOf_spec hinput
    have hself : input.withCap (.finite c) = input := by
      have h := @inputOf_withCap params deepSeekPricing binding creditsPool (.finite c) (.finite c) entry
      rw [hinput] at h
      exact (Option.some.inj h).symm
    have hle : r ≤ c := (reference_cases hentry hreference).elim (hc r) fun h => h ▸ h0
    have hle' : r ≤ c' := (reference_cases hentry hreference).elim (hc' r) fun h => h ▸ h0'
    rw [@inputOf_withCap params deepSeekPricing binding creditsPool (.finite c) (.finite c') entry, hinput,
      Option.map_some,
      Option.bind_some, Option.bind_some, ← CandidateEvaluator.evaluate_withCap hr h0 h0' hle hle', hself]

variable (hids : (entries.map (·.exactAgentRuntime)).Nodup)
include hids

private theorem inj_of_ids {e e' : ModelRoutingEntry} (he : e ∈ entries)
    (he' : e' ∈ entries) (h : e.exactAgentRuntime = e'.exactAgentRuntime) : e = e' :=
  List.inj_on_of_nodup_map hids he he' h

private theorem separates_accepted :
    Comparator.Separates compareRanked
      (entries.filterMap (acceptedEntry binding creditsPool params deepSeekPricing weights cap)) := by
  intro a ha b hb h
  obtain ⟨e, he, hea⟩ := mem_filterMap.mp ha
  obtain ⟨e', he', hea'⟩ := mem_filterMap.mp hb
  have hid := canonicalId_of_compareRanked h
  rw [acceptedEntry_id hea, acceptedEntry_id hea'] at hid
  have heq := inj_of_ids hids he he' hid
  subst heq
  exact Option.some.inj (hea.symm.trans hea')

private theorem separates_excluded :
    Comparator.Separates compareExcluded
      (entries.filterMap (excludedEntry binding creditsPool params deepSeekPricing weights cap)) := by
  intro a ha b hb h
  obtain ⟨e, he, hea⟩ := mem_filterMap.mp ha
  obtain ⟨e', he', hea'⟩ := mem_filterMap.mp hb
  have hid : a.canonicalId = b.canonicalId := eq_of_compareLex (Comparator.then_eq_zero_iff.mp h).1
  rw [excludedEntry_id hea, excludedEntry_id hea'] at hid
  have heq := inj_of_ids hids he he' hid
  subst heq
  exact Option.some.inj (hea.symm.trans hea')

omit hids

/-! ### The ranking of a set of entries -/

private theorem rankAutomatic_eq (routingWeights : Option AutomaticTaskRoutingWeights) :
    (rankAutomaticTaskCandidates binding creditsPool entries params routingWeights deepSeekPricing).map (·.ranked) =
      (validateScoreWeights ((routingWeights.map fun w => (⟨w.price, w.speed, w.quota, w.intelligence⟩ :
        RawScoreWeights)).getD SCORE_WEIGHTS)).map fun weights =>
          rankingUnder binding creditsPool params deepSeekPricing weights
          (capOf params deepSeekPricing entries) entries := by
  unfold rankAutomaticTaskCandidates AutoRouter.rank
  cases validateScoreWeights ((routingWeights.map fun w => (⟨w.price, w.speed, w.quota, w.intelligence⟩ :
      RawScoreWeights)).getD SCORE_WEIGHTS) with
  | error e => rfl
  | ok weights =>
    have hsame : ∀ input ∈ entries.filterMap (inputOf binding creditsPool params deepSeekPricing
        (capOf params deepSeekPricing entries)), input.snapshotId = params.snapshotId ∧
          input.nowMs = params.nowMs := by
      intro input hinput
      obtain ⟨e, -, he⟩ := mem_filterMap.mp hinput
      exact ⟨(inputOf_spec he).1, (inputOf_spec he).2.1⟩
    have hcollect := @collect_same weights _ _ _ hsame none (by simp)
    rw [filterMap_filterMap, filterMap_filterMap] at hcollect
    show Except.ok (AutoRoutingResult.mk
      (toRankedCandidates (noteShortfall (Comparator.sort compareRanked (collect weights none (entries.filterMap
        (inputOf binding creditsPool params deepSeekPricing (capOf params deepSeekPricing entries)))).1)))
      (Comparator.sort compareExcluded (collect weights none (entries.filterMap
        (inputOf binding creditsPool params deepSeekPricing (capOf params deepSeekPricing entries)))).2)) = _
    rw [hcollect]
    rfl

def AutoRoutingResult.rankedIds (result : AutoRoutingResult) : List JsString := result.ranked.map (·.canonicalId)

private theorem rankedIds_rankingUnder :
    (rankingUnder binding creditsPool params deepSeekPricing weights cap entries).rankedIds =
      (Comparator.sort compareRanked
        (entries.filterMap (acceptedEntry binding creditsPool params deepSeekPricing weights cap))).map
        (·.canonicalId) := by
  have hnumber (l : List CandidateAssessment) : (toRankedCandidates l).map (·.canonicalId) =
      l.map (·.canonicalId) := by
    unfold toRankedCandidates
    rw [map_map]
    have h := congrArg (List.map CandidateAssessment.canonicalId) (zipIdx_map_fst 0 l)
    rw [map_map] at h
    exact h
  have hnote (l : List CandidateAssessment) : (noteShortfall l).map (·.canonicalId) = l.map (·.canonicalId) := by
    cases l with
    | nil => rfl
    | cons a l =>
      rw [noteShortfall, map_cons, map_cons]
      split <;> rfl
  unfold AutoRoutingResult.rankedIds rankingUnder
  rw [hnumber, hnote]

variable {others : List ModelRoutingEntry}

private theorem perm_filter_ids (hids : (entries.map (·.exactAgentRuntime)).Nodup)
    (hothers : (others.map (·.exactAgentRuntime)).Nodup) (hsub : ∀ e ∈ others, e ∈ entries) :
    others.Perm (entries.filter fun e => decide (e.exactAgentRuntime ∈ others.map (·.exactAgentRuntime))) := by
  refine (perm_ext_iff_of_nodup hothers.of_map (hids.of_map.filter _)).mpr fun e => ?_
  rw [mem_filter, decide_eq_true_iff]
  constructor
  · intro he
    exact ⟨hsub e he, mem_map_of_mem he⟩
  · rintro ⟨he, hmem⟩
    obtain ⟨e', he', hid⟩ := mem_map.mp hmem
    rw [← inj_of_ids hids (hsub e' he') he hid]
    exact he'

/-- Among fewer entries the same ones are ranked, in the same order. -/
private theorem rankedIds_restrict (hids : (entries.map (·.exactAgentRuntime)).Nodup)
    (hothers : (others.map (·.exactAgentRuntime)).Nodup) (hsub : ∀ e ∈ others, e ∈ entries)
    (hcap : ∀ e ∈ others, acceptedEntry binding creditsPool params deepSeekPricing weights cap' e =
      acceptedEntry binding creditsPool params deepSeekPricing weights cap e) :
    (rankingUnder binding creditsPool params deepSeekPricing weights cap' others).rankedIds =
      (rankingUnder binding creditsPool params deepSeekPricing weights cap entries).rankedIds.filter
        fun id => decide (id ∈ others.map (·.exactAgentRuntime)) := by
  have hperm : (others.filterMap (acceptedEntry binding creditsPool params deepSeekPricing weights cap)).Perm
      ((entries.filterMap (acceptedEntry binding creditsPool params deepSeekPricing weights cap)).filter
        fun a => decide (a.canonicalId ∈ others.map (·.exactAgentRuntime))) := by
    have h := (perm_filter_ids hids hothers hsub).filterMap
      (acceptedEntry binding creditsPool params deepSeekPricing weights cap)
    rw [filterMap_filter] at h
    rw [filter_filterMap]
    refine h.trans (List.Perm.of_eq (filterMap_congr fun e _ => ?_))
    cases he : acceptedEntry binding creditsPool params deepSeekPricing weights cap e with
    | none => simp
    | some a => rw [Option.filter_some, acceptedEntry_id he]
  have hseparates := @separates_accepted params deepSeekPricing entries binding creditsPool weights cap hids
  rw [rankedIds_rankingUnder, rankedIds_rankingUnder, filterMap_congr hcap, filter_map,
    Comparator.filter_sort lawful_compareRanked hseparates]
  exact congrArg _ (Comparator.sort_eq_of_perm lawful_compareRanked (separates_accepted hothers) hperm)

/-- The caps of two lists of entries accept the entries of both alike. -/
private theorem acceptedEntry_capOf
    (hprices : params.requirements.maxOutputUsdPerMillion = none → ValidatedPrices deepSeekPricing entries)
    (hsub : ∀ e ∈ others, e ∈ entries) :
    ∀ e ∈ others,
      acceptedEntry binding creditsPool params deepSeekPricing weights (capOf params deepSeekPricing others) e =
        acceptedEntry binding creditsPool params deepSeekPricing weights
        (capOf params deepSeekPricing entries) e := by
  intro e he
  cases hmax : params.requirements.maxOutputUsdPerMillion with
  | some cap => rw [capOf_configured hmax, capOf_configured hmax]
  | none =>
    have hrefs : ∀ q ∈ finiteReferences deepSeekPricing others, q ∈ finiteReferences deepSeekPricing entries := by
      intro q hq
      obtain ⟨x, hx, hfinite⟩ := mem_filterMap.mp hq
      exact mem_filterMap.mpr ⟨x, hsub x hx, hfinite⟩
    obtain ⟨c, hc, h0, hle⟩ := capOf_bounds hmax (hprices hmax)
    obtain ⟨c', hc', h0', hle'⟩ := capOf_bounds hmax fun q hq => hprices hmax q (hrefs q hq)
    rw [hc, hc']
    exact acceptedEntry_cap he h0' h0 hle' fun q hq => hle q (hrefs q hq)

/-- The ranking is a function of the set of entries: it does not depend on their order, and with fewer or more entries
the same ones are ranked among those that remain, in the same order.  Where the cap is derived from the entries, their
prices are those of the catalog, which are not negative. -/
theorem ranking_of_entry_set (binding : JsString → JsString → Bool → Option ProviderQuotaBinding)
    (creditsPool : ProviderQuotaPool) (params : AutomaticTaskRankingParams)
    (routingWeights : Option AutomaticTaskRoutingWeights)
    (deepSeekPricing : JsString → Option DeepSeekAutomaticPricing)
    {entries : List ModelRoutingEntry} (hids : (entries.map (·.exactAgentRuntime)).Nodup) :
    (∀ entries', entries.Perm entries' →
      (rankAutomaticTaskCandidates binding creditsPool entries' params routingWeights deepSeekPricing).map
      (·.ranked) =
        (rankAutomaticTaskCandidates binding creditsPool entries params routingWeights deepSeekPricing).map
        (·.ranked)) ∧
      ((params.requirements.maxOutputUsdPerMillion = none → ValidatedPrices deepSeekPricing entries) →
        ∀ others, (others.map (·.exactAgentRuntime)).Nodup → (∀ e ∈ others, e ∈ entries) →
          (rankAutomaticTaskCandidates binding creditsPool others params routingWeights deepSeekPricing).map
              (·.ranked.rankedIds) =
            (rankAutomaticTaskCandidates binding creditsPool entries params routingWeights deepSeekPricing).map
              fun result => result.ranked.rankedIds.filter fun id =>
              decide (id ∈ others.map (·.exactAgentRuntime))) := by
  constructor
  · intro entries' hperm
    have hids' : (entries'.map (·.exactAgentRuntime)).Nodup := (hperm.map _).nodup_iff.mp hids
    rw [rankAutomatic_eq, rankAutomatic_eq, ← capOf_perm hperm]
    congr 1
    funext weights
    unfold rankingUnder
    rw [Comparator.sort_eq_of_perm lawful_compareRanked (separates_accepted hids') (hperm.symm.filterMap _),
      Comparator.sort_eq_of_perm lawful_compareExcluded (separates_excluded hids') (hperm.symm.filterMap _)]
  · intro hprices others hothers hsub
    have hmap {α β γ : Type} (x : Except Message α) (f : α → β) (g : β → γ) :
        x.map (fun a => g (f a)) = (x.map f).map g := by
      cases x <;> rfl
    refine (hmap _ AutomaticTaskRankingResult.ranked AutoRoutingResult.rankedIds).trans ?_
    refine Eq.trans ?_ (hmap _ AutomaticTaskRankingResult.ranked fun result : AutoRoutingResult =>
      result.rankedIds.filter fun id => decide (id ∈ others.map (·.exactAgentRuntime))).symm
    rw [rankAutomatic_eq, rankAutomatic_eq, ← hmap, ← hmap]
    congr 1
    funext weights
    exact rankedIds_restrict hids hothers hsub (acceptedEntry_capOf hprices hsub)

def pricedEntry (id : JsString) (price : ℚ) : ModelRoutingEntry where
  provider := js "p"
  model := id
  exactAgentRuntime := id
  intelligence := js "mid"
  outputUsdPerMillion := some (.finite price)
  effectiveTps := .finite 50
  freeSupply := none

def plainParams : AutomaticTaskRankingParams where
  snapshotId := js "s"
  snapshot := none
  nowMs := .finite 0
  timeoutMs := .finite 60000
  requirements := ⟨none, none, none, none, none⟩

theorem ranking_of_entry_set_two :
    let binding : JsString → JsString → Bool → Option ProviderQuotaBinding := fun _ _ _ => none
    let credits : ProviderQuotaPool := ⟨js "chatgpt/credits", .balance, some (.finite 1), false⟩
    let rank (entries : List ModelRoutingEntry) :=
      rankAutomaticTaskCandidates binding credits entries plainParams none fun _ => none
    (rank [pricedEntry (js "b") 3, pricedEntry (js "a") 2]).map (·.ranked) =
        (rank [pricedEntry (js "a") 2, pricedEntry (js "b") 3]).map (·.ranked) ∧
      (rank [pricedEntry (js "a") 2]).map (·.ranked.rankedIds) =
        (rank [pricedEntry (js "a") 2, pricedEntry (js "b") 3]).map
          fun result => result.ranked.rankedIds.filter fun id => decide (id ∈ [js "a"]) := by
  intro binding credits rank
  have hprices : ValidatedPrices (fun _ => none) [pricedEntry (js "a") 2, pricedEntry (js "b") 3] := by
    intro q hq
    have hq' : q ∈ [(2 : ℚ), 3] := hq
    simp only [List.mem_cons, List.not_mem_nil, or_false] at hq'
    rcases hq' with rfl | rfl <;> norm_num
  have h := ranking_of_entry_set binding credits plainParams none (fun _ => none)
    (show ([pricedEntry (js "a") 2, pricedEntry (js "b") 3].map (·.exactAgentRuntime)).Nodup by decide)
  exact ⟨h.1 _ (List.Perm.swap _ _ _), h.2 (fun _ => hprices) [pricedEntry (js "a") 2] (by decide) (by simp)⟩

end Wrenyard.Routing
