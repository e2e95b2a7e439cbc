import Mathlib.Tactic.NormNum
import Wrenyard.Lib.Checks
import Wrenyard.Routing.Quota

/-!
# Evaluation of one candidate

A candidate passes a row of admission gates, in the order of the source; then its supply evidence is read and its
score computed.  A gate that passes returns the number it checked together with what it checked.
-/

namespace Wrenyard.Routing

open Js

inductive MessagePart where
  | text (s : JsString)
  | number (q : ℚ)

abbrev Message := List MessagePart

def SCORE_WEIGHTS_SUM_TOLERANCE : ℚ := 1 / 1000000000

structure ScoreWeights where
  P : ℚ
  S : ℚ
  Q : ℚ
  I : ℚ
  unit : ∀ w ∈ [P, S, Q, I], 0 ≤ w ∧ w ≤ 1
  sum : |P + S + Q + I - 1| ≤ SCORE_WEIGHTS_SUM_TOLERANCE

structure RawScoreWeights where
  P : Number
  S : Number
  Q : Number
  I : Number

/-- `SCORE_WEIGHTS`. -/
def SCORE_WEIGHTS : RawScoreWeights := ⟨.finite (4 / 10), .finite (3 / 10), .finite (2 / 10), .finite (1 / 10)⟩

def weightValue (key : JsString) (value : Number) : Except Message { w : ℚ // 0 ≤ w ∧ w ≤ 1 } :=
  match value.finite? with
  | none => throw [.text (js "invalid score weights: " ++ key ++ js " must be a finite number")]
  | some w =>
    if h : 0 ≤ w ∧ w ≤ 1 then pure ⟨w, h⟩
    else throw [.text (js "invalid score weights: " ++ key ++ js " must be within [0, 1]")]

def validateScoreWeights (weights : RawScoreWeights) : Except Message ScoreWeights := do
  let P ← weightValue (js "P") weights.P
  let S ← weightValue (js "S") weights.S
  let Q ← weightValue (js "Q") weights.Q
  let I ← weightValue (js "I") weights.I
  if h : |P.1 + S.1 + Q.1 + I.1 - 1| ≤ SCORE_WEIGHTS_SUM_TOLERANCE then
    pure ⟨P.1, S.1, Q.1, I.1, by simp [P.2, S.2, Q.2, I.2], h⟩
  else
    throw [.text (js "invalid score weights: values must sum to 1 (got "), .number (P.1 + S.1 + Q.1 + I.1),
      .text (js ")")]

structure MarginalPriceEvidence where
  usdPerM : Number
  appliesFromMs : Number
  appliesUntilMs : Number
  source : JsString
  ruleId : JsString
  worstApplicable : JsString

structure ConfirmedFreeSupplyEvidence where
  kind : JsString
  appliesFromMs : Number
  appliesUntilMs : Number
  source : JsString
  ruleId : JsString

structure CandidateInput where
  snapshotId : JsString
  canonicalId : JsString
  nowMs : Number
  referenceUsdPerM : Number
  quotaPoolDiscountRate : Option Number
  effectiveCapUsdPerM : Number
  timeoutMs : Number
  minimumTps : Number
  effectiveTps : Number
  expectedTps : Option Number
  intelligenceRank : Number
  intelligenceMinRank : Number
  intelligenceExpectedRank : Option Number
  requiredQuota : List RequiredQuotaConstraint
  marginalPrice : Option MarginalPriceEvidence
  confirmedFreeSupply : Option ConfirmedFreeSupplyEvidence

def snapshotConstraint (constraint : RequiredQuotaConstraint) : RequiredQuotaConstraint :=
  if constraint.kind = some .balance then { constraint with evidence := none }
  else { constraint with kind := none, balance := none }

def snapshotCandidate (input : CandidateInput) : CandidateInput :=
  { input with requiredQuota := input.requiredQuota.map snapshotConstraint }

inductive ExcludedReason where
  | invalidCandidate
  | invalidNow
  | invalidTimeout
  | invalidReferencePrice
  | invalidCap
  | referenceAboveCap
  | invalidSpeed
  | speedBelowMinimum
  | invalidIntelligence
  | intelligenceOutOfRange
  | quotaExhausted
  | marginalAboveReference
  | snapshotContextMismatch

structure Rejection where
  reason : ExcludedReason
  detail : Option Message

def Rejection.because (reason : ExcludedReason) (detail : JsString) : Rejection := ⟨reason, some [.text detail]⟩

def checkIdentity (snapshotId canonicalId : JsString) : Except Rejection Unit :=
  if snapshotId = [] then throw (.because .invalidCandidate (js "snapshotId must be a nonempty string"))
  else if canonicalId = [] then throw (.because .invalidCandidate (js "canonicalId must be a nonempty string"))
  else pure ()

def checkNow (nowMs : Number) : Except Rejection ℚ :=
  match nowMs.finite? with
  | none => throw (.because .invalidNow (js "nowMs must be finite"))
  | some now => pure now

def checkTimeout (timeoutMs : Number) : Except Rejection { t : ℚ // 0 < t } :=
  match timeoutMs.finite? with
  | none => throw (.because .invalidTimeout (js "timeoutMs must be a finite positive duration"))
  | some t =>
    if h : 0 < t then pure ⟨t, h⟩
    else throw (.because .invalidTimeout (js "timeoutMs must be a finite positive duration"))

def checkReference (referenceUsdPerM : Number) : Except Rejection { r : ℚ // 0 ≤ r } :=
  match referenceUsdPerM.finite? with
  | none => throw (.because .invalidReferencePrice (js "reference price must be finite and non-negative"))
  | some r =>
    if h : 0 ≤ r then pure ⟨r, h⟩
    else throw (.because .invalidReferencePrice (js "reference price must be finite and non-negative"))

def checkRate (rate : Option Number) : Except Rejection { q : ℚ // 0 < q ∧ q ≤ 1 } :=
  let invalid := Rejection.because .invalidReferencePrice
    (js "quota pool discount rate must be a finite number greater than 0 and at most 1")
  match rate with
  | none => pure ⟨1, by norm_num⟩
  | some value =>
    match value.finite? with
    | none => throw invalid
    | some q => if h : 0 < q ∧ q ≤ 1 then pure ⟨q, h⟩ else throw invalid

def checkCap (effectiveCapUsdPerM : Number) : Except Rejection { c : ℚ // 0 ≤ c } :=
  match effectiveCapUsdPerM.finite? with
  | none => throw (.because .invalidCap (js "effective cap must be finite and non-negative"))
  | some c =>
    if h : 0 ≤ c then pure ⟨c, h⟩ else throw
      (.because .invalidCap (js "effective cap must be finite and non-negative"))

def checkSpeed (minimumTps effectiveTps : Number) (expectedTps : Option Number) : Except Rejection (ℚ × Option ℚ) :=
  match minimumTps.finite?, effectiveTps.finite? with
  | some minimum, some effective =>
    if minimum < 0 ∨ effective < 0 then
      throw (.because .invalidSpeed (js "speed numbers must be finite and non-negative"))
    else
      let admitted (expected : Option ℚ) : Except Rejection (ℚ × Option ℚ) :=
        if effective < minimum then
          throw (.because .speedBelowMinimum (js "effective TPS is below the minimum TPS"))
        else pure (effective, expected)
      let invalid := Rejection.because .invalidSpeed (js "expected TPS is not a finite non-negative number")
      match expectedTps with
      | none => admitted none
      | some value =>
        match value.finite? with
        | none => throw invalid
        | some expected => if expected < 0 then throw invalid else admitted (some expected)
  | _, _ => throw (.because .invalidSpeed (js "speed numbers must be finite and non-negative"))

def checkIntelligence (rank minRank : Number) (expectedRank : Option Number) : Except Rejection (ℤ × Option ℤ) :=
  let invalid := Rejection.because .invalidIntelligence (js "intelligence ranks must be integers in [0, 3]")
  match rank.integer?, minRank.integer? with
  | some rank, some minRank =>
    if minRank < 0 ∨ minRank > 3 then throw invalid
    else if rank < minRank ∨ rank > 3 then
      throw (.because .intelligenceOutOfRange (js "intelligence rank is below the minimum or outside [0, 3]"))
    else
      let invalidExpected := Rejection.because .invalidIntelligence
        (js "intelligence expected rank must be an integer in [0, 3] at or above the minimum")
      match expectedRank with
      | none => pure (rank, none)
      | some value =>
        match value.integer? with
        | none => throw invalidExpected
        | some expected =>
          if expected < 0 ∨ expected > 3 ∨ expected < minRank then throw invalidExpected
          else pure (rank, some expected)
  | _, _ => throw invalid

inductive SupplyClass where
  | confirmedFree
  | standard
deriving DecidableEq

structure SupplyAssessment where
  notes : List JsString
  supplyClass : SupplyClass
  confirmedFreeSupplyApplied : Bool
  confirmedFreeSupplyEvidence : Option (JsString × JsString)
  routingPriceUsdPerM : ℚ
  marginalApplied : Bool
  headroom : ℚ

def freeSupply (now timeout : ℚ) : Option ConfirmedFreeSupplyEvidence → List JsString × Option (JsString × JsString)
  | none => ([], none)
  | some evidence =>
    match evidence.appliesFromMs.finite?, evidence.appliesUntilMs.finite? with
    | some from_, some until_ =>
      if evidence.kind = js "confirmed_free" ∧ from_ ≤ until_ ∧ evidence.source ≠ [] ∧ evidence.ruleId ≠ [] then
        if from_ > now ∨ until_ < now + timeout then
          ([js "confirmed_free_supply_interval_does_not_cover_timeout_horizon"], none)
        else ([js "confirmed_free_supply_applied"], some (evidence.source, evidence.ruleId))
      else ([js "confirmed_free_supply_evidence_invalid_ignored"], none)
    | _, _ => ([js "confirmed_free_supply_evidence_invalid_ignored"], none)

def marginalSupply (now timeout reference : ℚ) :
    Option MarginalPriceEvidence → Except Rejection (List JsString × Option ℚ)
  | none => pure ([], none)
  | some evidence =>
    match evidence.usdPerM.finite?, evidence.appliesFromMs.finite?, evidence.appliesUntilMs.finite? with
    | some usdPerM, some from_, some until_ =>
      if 0 ≤ usdPerM ∧ from_ ≤ until_ ∧ evidence.source ≠ [] ∧ evidence.ruleId ≠ []
          ∧ evidence.worstApplicable = js "worst_applicable" then
        if from_ > now ∨ until_ < now + timeout then
          pure ([js "marginal_interval_does_not_cover_timeout_horizon"], none)
        else if usdPerM > reference then
          throw ⟨.marginalAboveReference, some [.text (js "marginal usdPerM="), .number usdPerM,
            .text (js " exceeds the reference "), .number reference]⟩
        else pure ([js "marginal_price_applied"], some usdPerM)
      else pure ([js "marginal_evidence_invalid_ignored"], none)
    | _, _, _ => pure ([js "marginal_evidence_invalid_ignored"], none)

/-- `SupplyEvidencePolicy.assess`.  A confirmed-free candidate routes at the price 0 and passes the cap. -/
def SupplyEvidencePolicy.assess (marginalPrice : Option MarginalPriceEvidence)
    (confirmedFreeSupply : Option ConfirmedFreeSupplyEvidence) (now timeout reference rate cap : ℚ)
    (quota : QuotaAssessment) : Except Rejection SupplyAssessment := do
  let (freeNotes, freeEvidence) := freeSupply now timeout confirmedFreeSupply
  let applied := freeEvidence.isSome
  let discountNotes := if !applied && decide (rate < 1) then [js "quota_pool_discount_applied"] else []
  let (marginalNotes, marginal) ←
    if applied then pure ([], none) else marginalSupply now timeout reference marginalPrice
  if !applied && decide (reference * rate > cap) then
    throw (.because .referenceAboveCap (js "effective routing price exceeds the effective cap"))
  let freeEvidenceMissing :=
    decide (quota.constraints ≠ []) && quota.constraints.all fun constraint => constraint.evidenceStatus != .measured
  pure
    { notes := freeNotes ++ discountNotes ++ marginalNotes
      supplyClass := if applied then .confirmedFree else .standard
      confirmedFreeSupplyApplied := applied
      confirmedFreeSupplyEvidence := freeEvidence
      routingPriceUsdPerM := if applied then 0 else marginal.getD reference * rate
      marginalApplied := marginal.isSome
      headroom := if applied && freeEvidenceMissing then 1 else quota.headroom.getD ZERO_QUOTA_HEADROOM }

/-- `PRICE_FACTOR_ANCHORS`. -/
def PRICE_FACTOR_ANCHORS : List (ℚ × ℚ) :=
  [(0, 1), (5 / 10, 85 / 100), (1, 75 / 100), (2, 60 / 100), (6, 35 / 100), (30, 5 / 100), (50, 0)]

def SPEED_SATURATION_BASE_TPS : ℚ := 100

def clamp01 (value : ℚ) : ℚ := if value ≤ 0 then 0 else if value ≥ 1 then 1 else value

/-- The factor on the first segment between two anchors that the price lies in. -/
def interpolateBetween (price : ℚ) : List (ℚ × ℚ) → ℚ
  | (p0, v0) :: (p1, v1) :: rest =>
    if p0 ≤ price ∧ price ≤ p1 then v0 + (price - p0) / (p1 - p0) * (v1 - v0)
    else interpolateBetween price ((p1, v1) :: rest)
  | _ => 0

def interpolatePriceFactor (price : ℚ) : ℚ :=
  if price ≤ 0 then 1
  else if price ≥ 50 then 0
  else interpolateBetween price PRICE_FACTOR_ANCHORS

structure CandidateScore where
  quotaQuality : ℚ
  priceFactor : ℚ
  speedFactor : ℚ
  intelligenceFactor : ℚ
  intelligenceShortfall : ℤ
  score : ℚ

/-- `CandidateScorer.score`. -/
def CandidateScorer.score (effectiveTps : ℚ) (expectedTps : Option ℚ) (rank : ℤ) (expectedRank : Option ℤ)
    (supply : SupplyAssessment) (weights : ScoreWeights) : CandidateScore :=
  let quotaQuality := clamp01 supply.headroom
  let priceFactor :=
    if supply.supplyClass = .confirmedFree then 1 else interpolatePriceFactor supply.routingPriceUsdPerM
  let speedFactor := clamp01 (effectiveTps / (SPEED_SATURATION_BASE_TPS + expectedTps.getD 0))
  let intelligenceFactor : ℚ :=
    match expectedRank with
    | some expected =>
      let d : ℚ := ((rank - expected : ℤ) : ℚ)
      max 0 (1 - if d ≥ 0 then 1 / 10 * d else 1 / 4 * -d)
    | none => clamp01 ((rank : ℚ) / 3)
  { quotaQuality, priceFactor, speedFactor, intelligenceFactor
    intelligenceShortfall := match expectedRank with
      | some expected => max 0 (expected - rank)
      | none => 0
    score := weights.P * priceFactor + weights.S * speedFactor + weights.Q * quotaQuality +
      weights.I * intelligenceFactor }

structure CandidateAssessment where
  snapshotId : JsString
  canonicalId : JsString
  tier : QuotaState
  referenceUsdPerM : ℚ
  routingPriceUsdPerM : ℚ
  marginalApplied : Bool
  supplyClass : SupplyClass
  confirmedFreeSupplyApplied : Bool
  confirmedFreeSupplyEvidence : Option (JsString × JsString)
  headroom : ℚ
  quotaQuality : ℚ
  priceFactor : ℚ
  speedFactor : ℚ
  intelligenceFactor : ℚ
  intelligenceShortfall : ℤ
  score : ℚ
  weights : ScoreWeights
  coverageComplete : Bool
  quota : QuotaAssessment
  notes : List JsString

def quotaExhaustedDetail (ids : List JsString) : JsString :=
  let joined := (ids.intersperse (js ",")).flatten
  js "exhausted constraints: " ++ if joined = [] then js "(none)" else joined

/-- `CandidateEvaluator.evaluate`, with weights that were validated before. -/
def CandidateEvaluator.evaluate (input : CandidateInput) (weights : ScoreWeights) :
    Except Rejection CandidateAssessment := do
  let candidate := snapshotCandidate input
  checkIdentity candidate.snapshotId candidate.canonicalId
  let now ← checkNow candidate.nowMs
  let timeout ← checkTimeout candidate.timeoutMs
  let reference ← checkReference candidate.referenceUsdPerM
  let rate ← checkRate candidate.quotaPoolDiscountRate
  let cap ← checkCap candidate.effectiveCapUsdPerM
  let (effectiveTps, expectedTps) ← checkSpeed candidate.minimumTps candidate.effectiveTps candidate.expectedTps
  let (rank, expectedRank) ←
    checkIntelligence candidate.intelligenceRank candidate.intelligenceMinRank candidate.intelligenceExpectedRank
  let quota := assessRequiredQuota candidate.nowMs candidate.requiredQuota false
  if quota.state = .exhausted then
    throw (.because .quotaExhausted (quotaExhaustedDetail quota.exhaustedConstraintIds))
  let supply ← SupplyEvidencePolicy.assess candidate.marginalPrice candidate.confirmedFreeSupply now timeout.1
    reference.1 rate.1 cap.1 quota
  let assessed :=
    if supply.confirmedFreeSupplyApplied then assessRequiredQuota candidate.nowMs candidate.requiredQuota true
      else quota
  let scored := CandidateScorer.score effectiveTps expectedTps rank expectedRank supply weights
  pure
    { snapshotId := candidate.snapshotId
      canonicalId := candidate.canonicalId
      tier := assessed.state
      referenceUsdPerM := reference.1
      routingPriceUsdPerM := supply.routingPriceUsdPerM
      marginalApplied := supply.marginalApplied
      supplyClass := supply.supplyClass
      confirmedFreeSupplyApplied := supply.confirmedFreeSupplyApplied
      confirmedFreeSupplyEvidence := supply.confirmedFreeSupplyEvidence
      headroom := supply.headroom
      quotaQuality := scored.quotaQuality
      priceFactor := scored.priceFactor
      speedFactor := scored.speedFactor
      intelligenceFactor := scored.intelligenceFactor
      intelligenceShortfall := scored.intelligenceShortfall
      score := scored.score
      weights := weights
      coverageComplete := assessed.coverageComplete
      quota := assessed
      notes := supply.notes }

private theorem checkReference_finite {r : ℚ} {r' : { r : ℚ // 0 ≤ r }} (h : checkReference (.finite r) = .ok r') :
    r'.1 = r := by
  have h' : (if h : 0 ≤ r then pure ⟨r, h⟩
      else throw (.because .invalidReferencePrice (js "reference price must be finite and non-negative")) :
      Except Rejection { r : ℚ // 0 ≤ r }) = .ok r' := h
  by_cases h0 : 0 ≤ r
  · rw [dif_pos h0] at h'
    cases h'
    rfl
  · rw [dif_neg h0] at h'
    cases h'

private theorem checkCap_finite {c : ℚ} (h : 0 ≤ c) : checkCap (.finite c) = .ok ⟨c, h⟩ := dif_pos h

theorem SupplyEvidencePolicy.assess_cap {reference rate c c' : ℚ} (hreference : 0 ≤ reference) (hrate : rate ≤ 1)
    (hc : reference ≤ c) (hc' : reference ≤ c') (marginalPrice : Option MarginalPriceEvidence)
    (confirmedFreeSupply : Option ConfirmedFreeSupplyEvidence) (now timeout : ℚ) (quota : QuotaAssessment) :
    assess marginalPrice confirmedFreeSupply now timeout reference rate c quota =
    assess marginalPrice confirmedFreeSupply now timeout reference rate c' quota := by
  have hprice : reference * rate ≤ reference := mul_le_of_le_one_right hreference hrate
  have hcut : decide (reference * rate > c) = false := decide_eq_false (not_lt.mpr (hprice.trans hc))
  have hcut' : decide (reference * rate > c') = false := decide_eq_false (not_lt.mpr (hprice.trans hc'))
  unfold assess
  rw [hcut, hcut']

def CandidateInput.withCap (input : CandidateInput) (cap : Number) : CandidateInput :=
  { input with effectiveCapUsdPerM := cap }

namespace CandidateEvaluator

theorem identity_of_ok {input : CandidateInput} {weights : ScoreWeights} {assessment : CandidateAssessment}
    (h : evaluate input weights = .ok assessment) :
    assessment.snapshotId = input.snapshotId ∧ assessment.canonicalId = input.canonicalId := by
  obtain ⟨-, -, h⟩ := Checks.bind_eq_ok.mp h
  obtain ⟨now, -, h⟩ := Checks.bind_eq_ok.mp h
  obtain ⟨timeout, -, h⟩ := Checks.bind_eq_ok.mp h
  obtain ⟨reference, -, h⟩ := Checks.bind_eq_ok.mp h
  obtain ⟨rate, -, h⟩ := Checks.bind_eq_ok.mp h
  obtain ⟨cap, -, h⟩ := Checks.bind_eq_ok.mp h
  obtain ⟨⟨effectiveTps, expectedTps⟩, -, h⟩ := Checks.bind_eq_ok.mp h
  obtain ⟨⟨rank, expectedRank⟩, -, h⟩ := Checks.bind_eq_ok.mp h
  dsimp only at h
  split at h
  · cases h
  · obtain ⟨supply, -, h⟩ := Checks.bind_eq_ok.mp h
    cases h
    exact ⟨rfl, rfl⟩

theorem evaluate_withCap {input : CandidateInput} {r c c' : ℚ} (hr : input.referenceUsdPerM = .finite r)
    (h0 : 0 ≤ c) (h0' : 0 ≤ c') (hc : r ≤ c) (hc' : r ≤ c') (weights : ScoreWeights) :
    evaluate (input.withCap (.finite c)) weights = evaluate (input.withCap (.finite c')) weights := by
  refine Checks.bind_congr_ok rfl fun _ _ => Checks.bind_congr_ok rfl fun now _ => Checks.bind_congr_ok rfl
    fun timeout _ =>
    Checks.bind_congr_ok rfl fun reference hreference => Checks.bind_congr_ok rfl fun rate _ => ?_
  have href : reference.1 = r := by
    refine checkReference_finite ?_
    rw [← hr]
    exact hreference
  have hcap : checkCap (snapshotCandidate (input.withCap (.finite c))).effectiveCapUsdPerM = .ok ⟨c, h0⟩ :=
    checkCap_finite h0
  have hcap' : checkCap (snapshotCandidate (input.withCap (.finite c'))).effectiveCapUsdPerM = .ok ⟨c', h0'⟩ :=
    checkCap_finite h0'
  rw [hcap, hcap']
  refine @Checks.bind_congr_ok _ _ _ (checkSpeed input.minimumTps input.effectiveTps input.expectedTps) _ _ _ rfl
    fun speed _ => Checks.bind_congr_ok rfl fun ranks _ => if_congr Iff.rfl rfl ?_
  refine Checks.bind_congr_ok ?_ fun _ _ => rfl
  rw [← href] at hc hc'
  exact SupplyEvidencePolicy.assess_cap reference.2 rate.2.2 hc hc' _ _ _ _ _

end CandidateEvaluator

end Wrenyard.Routing
