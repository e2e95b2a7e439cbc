import Mathlib.Algebra.Order.Ring.Rat
import Wrenyard.Js.Text

/-!
# Quota state of a route

The required quota constraints of a route are assessed one by one, by their numbers and by how these were obtained;
the worst state wins.

A number is exact: a rational, or one of the values that are not finite.  Every check against `isFiniteNumber` is a
match on `Number.finite?`, so that arithmetic is only done on rationals.
-/

namespace Wrenyard.Routing

open Js

inductive Number where
  | finite (q : ℚ)
  | infinite (negative : Bool)
  | nan
deriving DecidableEq

namespace Number

/-- `isFiniteNumber`, with the number. -/
def finite? : Number → Option ℚ
  | finite q => some q
  | _ => none

/-- `Number.isInteger`, with the number. -/
def integer? : Number → Option ℤ
  | finite q => if q.den = 1 then some q.num else none
  | _ => none

/-- `a <= b`. -/
def le : Number → Number → Bool
  | finite a, finite b => decide (a ≤ b)
  | nan, _ => false
  | _, nan => false
  | infinite true, _ => true
  | _, infinite false => true
  | _, _ => false

def add : Number → Number → Number
  | finite a, finite b => finite (a + b)
  | nan, _ => nan
  | _, nan => nan
  | infinite a, infinite b => if a = b then infinite a else nan
  | infinite a, _ => infinite a
  | _, infinite b => infinite b

/-- `Math.max` of two numbers. -/
def max : Number → Number → Number
  | nan, _ => nan
  | _, nan => nan
  | a, b => if le a b then b else a

/-- `Math.min` of two numbers. -/
def min : Number → Number → Number
  | nan, _ => nan
  | _, nan => nan
  | a, b => if le a b then a else b

/-- `Math.max(...numbers)`. -/
def maxOf (numbers : List Number) : Number := numbers.foldl max (infinite true)

/-- `Math.min(...numbers)`. -/
def minOf (numbers : List Number) : Number := numbers.foldl min (infinite false)

end Number

def ZERO_QUOTA_HEADROOM : ℚ := 0

def FULL_CYCLE_HEADROOM_WEIGHT : ℚ := 1 / 2

def FULL_CYCLE_RESET_WEIGHT : ℚ := 1 / 2

def QUOTA_INSUFFICIENT_REMAINING : ℚ := 1 / 10

def ROLLING_ABUNDANT_REMAINING : ℚ := 8 / 10

def QUOTA_EVIDENCE_GRACE_MS : ℚ := 30 * 60000

inductive QuotaState where
  | abundant
  | sufficient
  | insufficient
  | exhausted
deriving DecidableEq

/-- `STATE_SEVERITY`. -/
def QuotaState.severity : QuotaState → ℚ
  | abundant => 0
  | sufficient => 1
  | insufficient => 2
  | exhausted => 3

inductive QuotaEvidenceStatus where
  | measured
  | unknownByDesign
  | notObtained
deriving DecidableEq

structure QuotaEvidence where
  remainingPercent : Number
  observedAtMs : Number
  validForMs : Number
  replenishmentKind : JsString
  resetAtMs : Option Number
  windowMs : Option Number

structure BalanceEvidence where
  amount : Option JsString
  availability : Option JsString
  observedAtMs : Number
  validForMs : Number

inductive QuotaPoolKind where
  | quota
  | balance
deriving DecidableEq

structure RequiredQuotaConstraint where
  id : JsString
  evidence : Option QuotaEvidence
  balance : Option BalanceEvidence
  kind : Option QuotaPoolKind
  evidenceStatus : Option QuotaEvidenceStatus
  usageUnknown : Bool
  observedExhausted : Bool

inductive ConstraintRejectCode where
  | invalidNow
  | remainingPercentNotFinite
  | remainingPercentOutOfRange
  | observationTimeNotFinite
  | futureObservation
  | invalidFreshnessWindow
  | staleObservation
  | invalidReplenishmentKind
  | invalidResetTime
  | invalidCycleDuration
  | resetHorizonBeyondDuration
deriving DecidableEq

structure MeasuredAssessment where
  state : QuotaState
  headroom : Option ℚ
  rejectCode : Option ConstraintRejectCode

/-- Unusable evidence ranks as insufficient. -/
def rejected (rejectCode : ConstraintRejectCode) : MeasuredAssessment := ⟨.insufficient, none, some rejectCode⟩

/-- The amount of a balance: `/^[+-]?\d+(?:\.\d+)?$/`, as a number. -/
def amountValue (amount : JsString) : Option ℚ :=
  let negative := amount.head? == some 45
  let body := if negative || amount.head? == some 43 then amount.tail else amount
  let whole := body.takeWhile isDigit
  let fraction := match body.dropWhile isDigit with
    | [] => some []
    | point :: digits => if point = 46 ∧ digits ≠ [] ∧ digits.all isDigit then some digits else none
  if whole = [] then none
  else fraction.map fun digits =>
    (if negative then -1 else 1) * ((digitsValue (whole ++ digits) : ℚ) / 10 ^ digits.length)

def measuredBalance (nowMs : Number) : Option BalanceEvidence → MeasuredAssessment
  | none => ⟨.insufficient, none, none⟩
  | some balance =>
    match nowMs.finite? with
    | none => rejected .invalidNow
    | some now =>
      match balance.observedAtMs.finite? with
      | none => rejected .observationTimeNotFinite
      | some observedAt =>
        if observedAt > now then rejected .futureObservation
        -- unavailability and an amount that is used up are never relaxed by age
        else if balance.availability = some (js "unavailable") then ⟨.exhausted, some 0, none⟩
        else if ((balance.amount.bind amountValue).any fun value => decide (value ≤ 0))
          then ⟨.exhausted, some 0, none⟩
        else
          match balance.validForMs.finite? with
          | none => rejected .invalidFreshnessWindow
          | some validFor =>
            if validFor ≤ 0 then rejected .invalidFreshnessWindow
            else if now - observedAt > validFor then rejected .staleObservation
            else ⟨.insufficient, none, none⟩

def rollingBands (remainingRatio : ℚ) : MeasuredAssessment :=
  if remainingRatio ≥ ROLLING_ABUNDANT_REMAINING then
    ⟨.abundant, some (FULL_CYCLE_HEADROOM_WEIGHT * remainingRatio), none⟩
  else if remainingRatio ≤ QUOTA_INSUFFICIENT_REMAINING then
    ⟨.insufficient, some (FULL_CYCLE_HEADROOM_WEIGHT * remainingRatio), none⟩
  else ⟨.sufficient, none, none⟩

/-- A window that is replenished as a whole: the share that is left against the share of the cycle that is left. -/
def fullCycle (now remainingRatio : ℚ) (evidence : QuotaEvidence) : MeasuredAssessment :=
  match evidence.resetAtMs.bind Number.finite? with
  | none => rejected .invalidResetTime
  | some resetAt =>
    if resetAt ≤ now then rejected .invalidResetTime
    else
      match evidence.windowMs.bind Number.finite? with
      | none => rejected .invalidCycleDuration
      | some window =>
        if window ≤ 0 then rejected .invalidCycleDuration
        else
          let resetHorizon := resetAt - now
          if resetHorizon ≤ 0 ∨ resetHorizon > window then rejected .resetHorizonBeyondDuration
          else
            let expectedRemaining := resetHorizon / window
            let paceTerm := min 1 (max 0 ((remainingRatio - expectedRemaining) / (1 / 10)))
            let headroom := FULL_CYCLE_HEADROOM_WEIGHT * remainingRatio + FULL_CYCLE_RESET_WEIGHT * paceTerm
            let state :=
              if remainingRatio ≥ expectedRemaining then .abundant
              else if remainingRatio ≤ QUOTA_INSUFFICIENT_REMAINING then .insufficient
              else .sufficient
            ⟨state, some headroom, none⟩

def measuredWindow (nowMs : Number) : Option QuotaEvidence → MeasuredAssessment
  | none => ⟨.insufficient, none, none⟩
  | some evidence =>
    match nowMs.finite? with
    | none => rejected .invalidNow
    | some now =>
      match evidence.remainingPercent.finite? with
      | none => rejected .remainingPercentNotFinite
      | some remainingPercent =>
        if remainingPercent < 0 ∨ remainingPercent > 100 then rejected .remainingPercentOutOfRange
        else if remainingPercent / 100 = 0 then ⟨.exhausted, some 0, none⟩
        else
          match evidence.observedAtMs.finite? with
          | none => rejected .observationTimeNotFinite
          | some observedAt =>
            if observedAt > now then rejected .futureObservation
            else
              match evidence.validForMs.finite? with
              | none => rejected .invalidFreshnessWindow
              | some validFor =>
                if validFor ≤ 0 then rejected .invalidFreshnessWindow
                else if now - observedAt > validFor then rejected .staleObservation
                else if evidence.replenishmentKind = js "full_cycle"
                  then fullCycle now (remainingPercent / 100) evidence
                else if evidence.replenishmentKind = js "rolling_partial" ∨
                  evidence.replenishmentKind = js "unknown" then
                  rollingBands (remainingPercent / 100)
                else rejected .invalidReplenishmentKind

def measuredAssessment (nowMs : Number) (constraint : RequiredQuotaConstraint) : MeasuredAssessment :=
  if constraint.kind = some .balance ∨ constraint.balance.isSome then measuredBalance nowMs constraint.balance
  else measuredWindow nowMs constraint.evidence

def evidenceStatusOf (constraint : RequiredQuotaConstraint) : QuotaEvidenceStatus :=
  if constraint.usageUnknown then .unknownByDesign
  else
    match constraint.evidenceStatus with
    | some status => status
    | none => if constraint.evidence.isSome ∨ constraint.balance.isSome then .measured else .notObtained

structure ConstraintAssessment where
  id : JsString
  state : QuotaState
  evidenceStatus : QuotaEvidenceStatus
  headroom : Option ℚ
  rejectCode : Option ConstraintRejectCode

def assessConstraint (nowMs : Number) (constraint : RequiredQuotaConstraint) : ConstraintAssessment :=
  let evidenceStatus := evidenceStatusOf constraint
  if constraint.observedExhausted then ⟨constraint.id, .exhausted, evidenceStatus, some 0, none⟩
  else
    let measured := measuredAssessment nowMs constraint
    if evidenceStatus = .unknownByDesign then
      if measured.state = .exhausted then ⟨constraint.id, .exhausted, evidenceStatus, some 0, none⟩
      else ⟨constraint.id, .insufficient, evidenceStatus, none, none⟩
    else ⟨constraint.id, measured.state, evidenceStatus, measured.headroom, measured.rejectCode⟩

structure QuotaAssessment where
  state : QuotaState
  evidence : QuotaEvidenceStatus
  measuredAt : Option ℚ
  exhaustedConstraintIds : List JsString
  coverageComplete : Bool
  /-- The mean in exact arithmetic: the code's sum is one of doubles. -/
  headroom : Option ℚ
  constraints : List ConstraintAssessment

def worstState (states : List QuotaState) : QuotaState :=
  states.foldl (fun worst state => if state.severity > worst.severity then state else worst) .abundant

def observedAtOf (constraint : RequiredQuotaConstraint) : Option ℚ :=
  match constraint.balance with
  | some balance => balance.observedAtMs.finite?
  | none => constraint.evidence.bind fun evidence => evidence.observedAtMs.finite?

def measuredAtOf (nowMs : Number) (constraints : List RequiredQuotaConstraint) : Option ℚ :=
  constraints.foldl (fun measuredAt constraint =>
    match observedAtOf constraint with
    | none => measuredAt
    | some observedAt =>
      if (Number.finite observedAt).le nowMs && measuredAt.all fun at_ => decide (observedAt > at_)
        then some observedAt
      else measuredAt) none

def routeEvidence (assessments : List ConstraintAssessment) : QuotaEvidenceStatus :=
  if assessments.any (·.evidenceStatus == .notObtained) then .notObtained
  else if assessments.any (·.evidenceStatus == .unknownByDesign) then .unknownByDesign
  else .measured

/-- The state before a free allowance is promoted.  A reading that was not obtained keeps the last measured state for
a grace period; an exhaustion is never relaxed. -/
def measuredState (nowMs : Number) (constraints : List RequiredQuotaConstraint)
    (assessments : List ConstraintAssessment) : QuotaState :=
  let states := assessments.map (·.state)
  if routeEvidence assessments = .notObtained ∧ .exhausted ∉ states then
    match measuredAtOf nowMs constraints with
    | some measuredAt =>
      if (nowMs.add (.finite (-measuredAt))).le (.finite QUOTA_EVIDENCE_GRACE_MS) then worstState states
      else .insufficient
    | none => .insufficient
  else worstState states

def assessRequiredQuota (nowMs : Number) (constraints : List RequiredQuotaConstraint)
    (confirmedFreeSupply : Bool) : QuotaAssessment :=
  if constraints = [] then
    { state := if confirmedFreeSupply then .abundant else .sufficient, evidence := .measured, measuredAt := none,
      exhaustedConstraintIds := [], coverageComplete := false, headroom :=
        some ZERO_QUOTA_HEADROOM, constraints := [] }
  else
    let assessments := constraints.map (assessConstraint nowMs)
    let state := measuredState nowMs constraints assessments
    let codeBuddyIoa := constraints.any fun constraint =>
      constraint.id == js "codebuddy/monthly" && constraint.usageUnknown
    let state :=
      if confirmedFreeSupply ∧ state ≠ .exhausted ∧ ¬codeBuddyIoa
        ∧ ¬(constraints.any fun constraint => constraint.evidence.isSome || constraint.balance.isSome) then .abundant
      else state
    { state
      evidence := routeEvidence assessments
      measuredAt := measuredAtOf nowMs constraints
      exhaustedConstraintIds := (assessments.filter (·.state == .exhausted)).map (·.id)
      coverageComplete := assessments.all fun assessment =>
        assessment.rejectCode == none && assessment.evidenceStatus == .measured
      headroom :=
        if state = .exhausted then none
        else some ((assessments.map fun assessment => assessment.headroom.getD ZERO_QUOTA_HEADROOM).sum /
          assessments.length)
      constraints := assessments }

end Wrenyard.Routing
