import Mathlib.Algebra.Order.Field.Rat
import Mathlib.Order.Bounds.Basic
import Mathlib.Order.Interval.Set.Basic
import Mathlib.Order.WithBot
import Mathlib.Tactic.NormNum
import Wrenyard.Js.Text

/-!
# Reference prices over a horizon

The tariff has two tiers, and a horizon is charged the dearest tier that is true somewhere in it.  Which tiers occur
is found day by day from the slice of the horizon in each day (`dayPresence_iff`); a horizon of a week has both.
-/

namespace Wrenyard.Routing.DeepSeek

open Js

inductive Currency where
  | CNY | USD

inductive TierKey where
  | off_peak | peak
deriving DecidableEq

inductive Tier where
  | key (tier : TierKey) | mixed
deriving DecidableEq

inductive Basis where
  | point_in_time | closed_horizon_max
deriving DecidableEq

inductive PriceField where
  | inputCacheHitPerMillion | inputCacheMissPerMillion | outputPerMillion

def FLASH_PRICES : Currency → TierKey → PriceField → ℚ
  | .CNY, .off_peak, .inputCacheHitPerMillion => 2 / 100
  | .CNY, .off_peak, .inputCacheMissPerMillion => 1
  | .CNY, .off_peak, .outputPerMillion => 4
  | .CNY, .peak, .inputCacheHitPerMillion => 4 / 100
  | .CNY, .peak, .inputCacheMissPerMillion => 2
  | .CNY, .peak, .outputPerMillion => 8
  | .USD, .off_peak, .inputCacheHitPerMillion => 3 / 1000
  | .USD, .off_peak, .inputCacheMissPerMillion => 15 / 100
  | .USD, .off_peak, .outputPerMillion => 6 / 10
  | .USD, .peak, .inputCacheHitPerMillion => 6 / 1000
  | .USD, .peak, .inputCacheMissPerMillion => 3 / 10
  | .USD, .peak, .outputPerMillion => 12 / 10

def HOUR_MS : Nat := 3600000
def DAY_MS : Nat := 24 * HOUR_MS
def WEEK_MS : Nat := 7 * DAY_MS

def PEAK_WINDOWS : List (Nat × Nat) := [(1 * HOUR_MS, 4 * HOUR_MS), (6 * HOUR_MS, 10 * HOUR_MS)]

def utcDayOfWeek (ms : Nat) : Nat := (ms / DAY_MS + 4) % 7

def intersectsHalfOpen (rangeStartMs rangeEndMs windowStartMs windowEndMs : Nat) : Bool :=
  decide (rangeStartMs < windowEndMs) && decide (rangeEndMs ≥ windowStartMs)

structure TierPresence where
  peak : Bool
  offPeak : Bool

/-- What the body of the loop adds for one day. -/
def dayPresence (fromMs toMs day : Nat) : TierPresence :=
  let dayStartMs := day * DAY_MS
  let overlapStartMs := max fromMs dayStartMs
  let overlapEndMs := min toMs (dayStartMs + DAY_MS - 1)
  if overlapStartMs > overlapEndMs then ⟨false, false⟩
  else if utcDayOfWeek dayStartMs = 0 ∨ utcDayOfWeek dayStartMs = 6 then ⟨false, true⟩
  else
    let todStartMs := overlapStartMs - dayStartMs
    let todEndMs := overlapEndMs - dayStartMs
    ⟨PEAK_WINDOWS.any fun window => intersectsHalfOpen todStartMs todEndMs window.1 window.2,
      !PEAK_WINDOWS.any fun window => decide (todStartMs ≥ window.1) && decide (todEndMs < window.2)⟩

def tierPresenceInClosedRange (fromMs toMs : Nat) : TierPresence :=
  if toMs - fromMs ≥ WEEK_MS then ⟨true, true⟩
  else
    let days := List.range' (fromMs / DAY_MS) (toMs / DAY_MS + 1 - fromMs / DAY_MS)
    ⟨days.any fun day => (dayPresence fromMs toMs day).peak,
      days.any fun day => (dayPresence fromMs toMs day).offPeak⟩

structure ResolveInput where
  model : JsString
  currency : Currency
  at_ : Nat
  through : Option Nat

/-- A price is `-Infinity` (the bottom) where no tier applies; the ends of the window are given by their instants. -/
structure ReferencePricing where
  model : JsString
  currency : Currency
  tier : Tier
  basis : Basis
  windowStart : Nat
  windowEnd : Nat
  perMillion : PriceField → WithBot ℚ
  includesPeak : Bool
  includesOffPeak : Bool
  sources : List JsString
  checkedAt : JsString

/-- `new Date(ms).toISOString()` throws on an instant outside the range of dates. -/
def toISOString (ms : Nat) : Except JsString Nat :=
  if ms ≤ 8640000000000000 then .ok ms else .error (js "Invalid time value")

/-- The loop over the maximal rows. -/
def argmaxTier (rows : List TierKey) : Option Tier :=
  rows.foldl (fun found tier =>
    match found with
    | none => some (.key tier)
    | some found => some (if found = .key tier then found else .mixed)) none

def resolveDeepSeekReferencePricing (input : ResolveInput) : Except JsString ReferencePricing := do
  if input.model ≠ js "deepseek-flash" then
    throw (js "resolveDeepSeekReferencePricing: unsupported model \"" ++ input.model ++ js "\"")
  let throughMs := input.through.getD input.at_
  if throughMs < input.at_ then
    throw (js "resolveDeepSeekReferencePricing: \"through\" must be on or after \"at\"")
  let presence := tierPresenceInClosedRange input.at_ throughMs
  let rows := (if presence.offPeak then [TierKey.off_peak] else []) ++ if presence.peak then [.peak] else []
  let maxima (field : PriceField) : WithBot ℚ :=
    rows.foldl (fun found tier => max found (FLASH_PRICES input.currency tier field : ℚ)) ⊥
  let maximal := rows.filter fun tier =>
    [.inputCacheHitPerMillion, .inputCacheMissPerMillion, .outputPerMillion].all fun field =>
      (FLASH_PRICES input.currency tier field : WithBot ℚ) = maxima field
  let windowStart ← toISOString input.at_
  let windowEnd ← toISOString throughMs
  return {
    model := input.model
    currency := input.currency
    tier := (argmaxTier maximal).getD .mixed
    basis := if input.through.isSome then .closed_horizon_max else .point_in_time
    windowStart, windowEnd
    perMillion := maxima
    includesPeak := rows.any (· = .peak)
    includesOffPeak := rows.any (· = .off_peak)
    sources := [js "https://api-docs.deepseek.com/quick_start/pricing/"]
    checkedAt := js "2026-09-10" }

/-! ### The tiers of a horizon -/

/-- The rule of the tariff at an instant. -/
def IsPeak (t : Nat) : Prop :=
  utcDayOfWeek t ≠ 0 ∧ utcDayOfWeek t ≠ 6 ∧
    (1 * HOUR_MS ≤ t % DAY_MS ∧ t % DAY_MS < 4 * HOUR_MS ∨ 6 * HOUR_MS ≤ t % DAY_MS ∧ t % DAY_MS < 10 * HOUR_MS)

instance (t : Nat) : Decidable (IsPeak t) := inferInstanceAs (Decidable (_ ∧ _))

def Within (lo hi : Nat) (P : Nat → Prop) : Prop := ∃ t, lo ≤ t ∧ t ≤ hi ∧ P t

variable {lo hi day : Nat}

theorem day_ms : DAY_MS = 86400000 := rfl

theorem week_peak (h : hi - lo ≥ WEEK_MS) : Within lo hi IsPeak ∧ Within lo hi fun t => ¬ IsPeak t := by
  simp only [Within, IsPeak, utcDayOfWeek, WEEK_MS, DAY_MS, HOUR_MS] at *
  -- the next Thursdays at 01:00 and at 00:00
  refine ⟨⟨lo + (3600000 + 604800000 - lo % 604800000) % 604800000, ?_⟩,
    ⟨lo + (604800000 - lo % 604800000) % 604800000, ?_⟩⟩ <;> omega

theorem isPeak_day (day : Nat) {tod : Nat} (h : tod < DAY_MS) : IsPeak (day * DAY_MS + tod) ↔ (day + 4) % 7 ≠ 0 ∧
    (day + 4) % 7 ≠ 6 ∧ (3600000 ≤ tod ∧ tod < 14400000 ∨ 21600000 ≤ tod ∧ tod < 36000000) := by
  rw [IsPeak, utcDayOfWeek, Nat.mul_comm, Nat.mul_add_mod, Nat.mod_eq_of_lt h, Nat.mul_add_div (by decide),
    Nat.div_eq_of_lt h]
  rfl

/-- The slice of a horizon in a day, by the time of day. -/
theorem within_day {P Q : Nat → Prop} (hle : max lo (day * DAY_MS) ≤ min hi (day * DAY_MS + DAY_MS - 1))
    (h : ∀ {tod}, tod < DAY_MS → (P (day * DAY_MS + tod) ↔ Q tod)) :
    (Within lo hi fun t => t / DAY_MS = day ∧ P t) ↔ Within (max lo (day * DAY_MS) - day * DAY_MS)
      (min hi (day * DAY_MS + DAY_MS - 1) - day * DAY_MS) Q := by
  simp only [Within, Nat.div_eq_iff (show 0 < DAY_MS by decide)]
  generalize day * DAY_MS = start at *
  rw [day_ms] at *
  constructor
  · rintro ⟨t, hlo, hhi, hday, ht⟩
    refine ⟨t - start, by omega, by omega, (h (by omega)).1 ?_⟩
    rwa [Nat.add_sub_cancel' hday.1]
  · rintro ⟨tod, hlo, hhi, ht⟩
    exact ⟨start + tod, by omega, by omega, by omega, (h (by omega)).2 ht⟩

theorem dayPresence_iff :
    ((dayPresence lo hi day).peak = true ↔ Within lo hi fun t => t / DAY_MS = day ∧ IsPeak t) ∧
      ((dayPresence lo hi day).offPeak = true ↔ Within lo hi fun t => t / DAY_MS = day ∧ ¬ IsPeak t) := by
  have hday : utcDayOfWeek (day * DAY_MS) = (day + 4) % 7 := by rw [utcDayOfWeek, Nat.mul_div_cancel _ (by decide)]
  rw [dayPresence, hday]
  dsimp only
  split
  · simp only [Within, Nat.div_eq_iff (show 0 < DAY_MS by decide), Bool.false_eq_true, false_iff, not_exists]
    constructor <;> intro t <;> omega
  have hle : max lo (day * DAY_MS) ≤ min hi (day * DAY_MS + DAY_MS - 1) := by omega
  rw [within_day hle (isPeak_day day), within_day hle fun h => not_congr (isPeak_day day h)]
  replace hle := Nat.sub_le_sub_right hle (day * DAY_MS)
  generalize max lo (day * DAY_MS) - day * DAY_MS = first at *
  generalize min hi (day * DAY_MS + DAY_MS - 1) - day * DAY_MS = last at *
  generalize (day + 4) % 7 = weekday at *
  unfold Within
  split
  · simp only [Bool.false_eq_true, false_iff, true_iff, not_exists]
    exact ⟨fun t => by omega, first, by omega⟩
  simp only [PEAK_WINDOWS, HOUR_MS, intersectsHalfOpen, List.any_cons, List.any_nil, Bool.or_false, Bool.or_eq_true,
    Bool.and_eq_true, decide_eq_true_eq, Bool.not_eq_true', Bool.or_eq_false_iff, Bool.and_eq_false_iff,
    decide_eq_false_iff_not]
  refine ⟨⟨?_, fun ⟨t, ht⟩ => by omega⟩, ⟨fun h => ?_, fun ⟨t, ht⟩ => by omega⟩⟩
  · rintro (h | h)
    · exact ⟨max first 3600000, by omega⟩
    · exact ⟨max first 21600000, by omega⟩
  -- the first instant, or the end of the window it lies in
  · by_cases hmorning : 3600000 ≤ first ∧ first < 14400000
    · exact ⟨14400000, by omega⟩
    by_cases hlater : 21600000 ≤ first ∧ first < 36000000
    · exact ⟨36000000, by omega⟩
    · exact ⟨first, by omega⟩

theorem presence_any {presence : TierPresence → Bool} {P : Nat → Prop}
    (hday : ∀ day, presence (dayPresence lo hi day) = true ↔ Within lo hi fun t => t / DAY_MS = day ∧ P t) :
    ((List.range' (lo / DAY_MS) (hi / DAY_MS + 1 - lo / DAY_MS)).any fun day => presence (dayPresence lo hi day)) =
    true
      ↔ Within lo hi P := by
  simp only [List.any_eq_true, List.mem_range'_1, hday]
  constructor
  · rintro ⟨_, -, t, hlo, hhi, -, ht⟩
    exact ⟨t, hlo, hhi, ht⟩
  · rintro ⟨t, hlo, hhi, ht⟩
    have hfirst := Nat.div_le_div_right (c := DAY_MS) hlo
    have hlast := Nat.div_le_div_right (c := DAY_MS) hhi
    exact ⟨t / DAY_MS, by omega, t, hlo, hhi, rfl, ht⟩

theorem presence_iff (lo hi : Nat) :
    ((tierPresenceInClosedRange lo hi).peak = true ↔ Within lo hi IsPeak) ∧
      ((tierPresenceInClosedRange lo hi).offPeak = true ↔ Within lo hi fun t => ¬ IsPeak t) := by
  unfold tierPresenceInClosedRange
  split
  next hweek => exact ⟨by simpa using (week_peak hweek).1, by simpa using (week_peak hweek).2⟩
  · exact ⟨presence_any fun _ => dayPresence_iff.1, presence_any fun _ => dayPresence_iff.2⟩

/-! ### The prices -/

def flash (currency : Currency) (at_ : Nat) (through : Option Nat) : ResolveInput :=
  ⟨js "deepseek-flash", currency, at_, through⟩

variable (currency : Currency) {at_ through : Nat}

theorem off_peak_le_peak (field : PriceField) :
    FLASH_PRICES currency .off_peak field ≤ FLASH_PRICES currency .peak field := by
  cases currency <;> cases field <;> norm_num [FLASH_PRICES]

variable {currency}

theorem tier_le_tier {p q : Prop} [Decidable p] [Decidable q] (field : PriceField) (h : p → q) :
    FLASH_PRICES currency (if p then .peak else .off_peak) field ≤
      FLASH_PRICES currency (if q then .peak else .off_peak) field := by
  split_ifs with hp hq hq
  · exact le_rfl
  · exact absurd (h hp) hq
  · exact off_peak_le_peak currency field
  · exact le_rfl

/-- The peak price is the dearer one, so it is the price of every horizon with an instant of the peak. -/
theorem resolve_ok (currency : Currency) (horizon : Option Nat) (hle : at_ ≤ horizon.getD at_)
    (hdate : horizon.getD at_ ≤ 8640000000000000) :
    ∃ r, resolveDeepSeekReferencePricing (flash currency at_ horizon) = .ok r ∧
      (r.includesPeak = true ↔ Within at_ (horizon.getD at_) IsPeak) ∧
      (r.includesOffPeak = true ↔ Within at_ (horizon.getD at_) fun t => ¬ IsPeak t) ∧
      ∀ field, r.perMillion field = (FLASH_PRICES currency (if r.includesPeak then .peak
        else .off_peak) field : ℚ) := by
  obtain ⟨hpeak, hoffPeak⟩ := presence_iff at_ (horizon.getD at_)
  unfold resolveDeepSeekReferencePricing flash toISOString
  rw [← hpeak, ← hoffPeak]
  have hsome : (tierPresenceInClosedRange at_ (horizon.getD at_)).peak = true ∨
      (tierPresenceInClosedRange at_ (horizon.getD at_)).offPeak = true := by
    rw [hpeak, hoffPeak]
    by_cases hat : IsPeak at_
    · exact .inl ⟨at_, le_rfl, hle, hat⟩
    · exact .inr ⟨at_, le_rfl, hle, hat⟩
  simp only [ne_eq, not_true_eq_false, if_false, not_lt.2 hle, if_pos hdate, if_pos (hle.trans hdate)]
  refine ⟨_, rfl, ?_⟩
  generalize tierPresenceInClosedRange at_ (horizon.getD at_) = presence at hsome
  obtain ⟨_ | _, _ | _⟩ := presence <;> simp_all [off_peak_le_peak]

/-- The price a point-in-time lookup reports. -/
def PointPrice (currency : Currency) (field : PriceField) (t : Nat) (price : WithBot ℚ) : Prop :=
  ∃ r, resolveDeepSeekReferencePricing (flash currency t none) = .ok r ∧ r.perMillion field = price

theorem pointPrice_iff {field : PriceField} {t : Nat} {price : WithBot ℚ} (hdate : t ≤ 8640000000000000) :
    PointPrice currency field t price ↔
      price = (FLASH_PRICES currency (if IsPeak t then .peak else .off_peak) field : ℚ) := by
  obtain ⟨r, hr, hpeak, -, hprice⟩ := resolve_ok currency none (le_refl t) hdate
  have hat : r.includesPeak = true ↔ IsPeak t := by
    rw [hpeak]
    constructor
    · rintro ⟨t', hlo, hhi, ht'⟩
      rwa [le_antisymm hlo hhi]
    · exact fun ht => ⟨t, le_rfl, le_rfl, ht⟩
  simp only [PointPrice, hr, Except.ok.injEq, exists_eq_left', hprice, hat, eq_comm]

/-- The one-point horizon is the lookup at its point, which says so in `basis`. -/
theorem resolve_point : resolveDeepSeekReferencePricing (flash currency at_ (some at_)) =
    (resolveDeepSeekReferencePricing (flash currency at_ none)).map fun r =>
    { r with basis := .closed_horizon_max } := by
  unfold resolveDeepSeekReferencePricing flash toISOString
  simp only [ne_eq, not_true_eq_false, if_false, Option.getD_some, Option.getD_none, lt_irrefl]
  split <;> rfl

theorem worst_case_tariff (hle : at_ ≤ through) (hdate : through ≤ 8640000000000000) :
    (∃ r, resolveDeepSeekReferencePricing (flash currency at_ (some through)) = .ok r ∧
      (r.includesPeak = true ↔ Within at_ through IsPeak) ∧
      (r.includesOffPeak = true ↔ Within at_ through fun t => ¬ IsPeak t) ∧
      (∀ field, IsGreatest {price | Within at_ through (PointPrice currency field · price)} (r.perMillion field)) ∧
      ∀ at' ≤ at_, ∀ through' ≥ through, through' ≤ 8640000000000000 →
        ∃ r', resolveDeepSeekReferencePricing (flash currency at' (some through')) = .ok r' ∧
          ∀ field, r.perMillion field ≤ r'.perMillion field) ∧
    resolveDeepSeekReferencePricing (flash currency at_ (some at_)) =
      (resolveDeepSeekReferencePricing (flash currency at_ none)).map fun r =>
        { r with basis := .closed_horizon_max } := by
  refine ⟨?_, resolve_point⟩
  obtain ⟨r, hr, hpeak, hoffPeak, hprice⟩ := resolve_ok currency (some through) hle hdate
  refine ⟨r, hr, hpeak, hoffPeak, fun field => ⟨?_, ?_⟩, fun at' hat through' hthrough hdate' => ?_⟩
  · by_cases hincludes : r.includesPeak = true
    · obtain ⟨t, hlo, hhi, ht⟩ := hpeak.1 hincludes
      exact ⟨t, hlo, hhi, (pointPrice_iff (hhi.trans hdate)).2 (by rw [hprice, if_pos ht, if_pos hincludes])⟩
    · have hat : ¬ IsPeak at_ := fun hat => hincludes (hpeak.2 ⟨at_, le_rfl, hle, hat⟩)
      exact ⟨at_, le_rfl, hle, (pointPrice_iff (hle.trans hdate)).2 (by rw [hprice, if_neg hat, if_neg hincludes])⟩
  · rintro price ⟨t, hlo, hhi, ht⟩
    rw [(pointPrice_iff (hhi.trans hdate)).1 ht, hprice, WithBot.coe_le_coe]
    exact tier_le_tier field fun hpeak' => hpeak.2 ⟨t, hlo, hhi, hpeak'⟩
  · obtain ⟨r', hr', hpeak', -, hprice'⟩ := resolve_ok currency (some through')
      (hat.trans (hle.trans hthrough)) hdate'
    refine ⟨r', hr', fun field => ?_⟩
    rw [hprice, hprice', WithBot.coe_le_coe]
    refine tier_le_tier field fun hincludes => hpeak'.2 ?_
    obtain ⟨t, hlo, hhi, ht⟩ := hpeak.1 hincludes
    exact ⟨t, hat.trans hlo, hhi.trans hthrough, ht⟩

theorem worst_case_tariff_one : ∃ r, resolveDeepSeekReferencePricing (flash .USD 0 (some 3600000)) = .ok r ∧
    r.includesPeak = true := by
  obtain ⟨⟨r, hr, hpeak, -⟩, -⟩ := @worst_case_tariff .USD 0 3600000 (by decide) (by decide)
  exact ⟨r, hr, hpeak.2 ⟨3600000, by decide⟩⟩

/-- The point lookup and the horizon of its point differ, and an instant past the last date is refused. -/
theorem one_point_differs :
    resolveDeepSeekReferencePricing (flash .USD 0 (some 0)) ≠ resolveDeepSeekReferencePricing (flash .USD 0 none) ∧
      resolveDeepSeekReferencePricing (flash .USD 0 (some 8640000000000001)) = .error (js "Invalid time value") := by
  refine ⟨fun h => ?_, rfl⟩
  have hbasis : some Basis.closed_horizon_max = some .point_in_time :=
    congrArg (fun result => result.toOption.map (·.basis)) h
  cases hbasis

end Wrenyard.Routing.DeepSeek
