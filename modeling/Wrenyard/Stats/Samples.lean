import Wrenyard.Js.Json
import Wrenyard.Lib.Comparator

/-!
# Speed samples of responses

One tokenizer measurement is a token count with the windows in which the tokens were generated.  A payload is read
sample by sample: what is malformed is left out, a sample of another model or a second, different sample of one
response makes the payload invalid.  Numbers are exact.
-/

namespace Wrenyard.Stats

open Js

structure Registry where
  canonicalizeObservedProviderModelId : JsString → JsString → JsString
  hasReplayedStream : JsString → JsString → Bool

def MIN_WINDOW_MS : ℚ := 100

def MAX_FIRST_TOKEN_MS : ℚ := 600000

def rational (n : JsNumber) : ℚ :=
  let digits : Nat := n.fraction.foldl (fun m d => 10 * m + d.val) n.whole
  let magnitude : ℚ := mkRat digits (10 ^ n.fraction.length)
  if n.negative then -magnitude else magnitude

/-- `typeof value === 'number'` -/
def number? : Option Json → Option ℚ
  | some (.num n) => some (rational n)
  | _ => none

def positiveInteger? : Option Json → Option Nat
  | some (.num n) =>
    if n.negative = false ∧ n.fraction = [] ∧ 0 < n.whole ∧ n.whole ≤ maxSafeInteger then some n.whole else none
  | _ => none

def text? : Option Json → Option JsString
  | some (.str s) => if trim s = [] then none else some s
  | _ => none

structure ResponseWindow where
  firstTokenAtMs : ℚ
  completedAtMs : ℚ
deriving DecidableEq

structure ResponseSample where
  responseId : JsString
  model : JsString
  outputTokens : Nat
  windows : List ResponseWindow
  durationMs : ℚ
  firstTokenMs : Option ℚ

def parseWindow (firstTokenAtMs completedAtMs : Option Json) : Option ResponseWindow := do
  let first ← number? firstTokenAtMs
  let completed ← number? completedAtMs
  if first ≤ 0 ∨ completed ≤ first ∨ completed - first < MIN_WINDOW_MS then none else some ⟨first, completed⟩

def parseScalarWindow (firstTokenAtMs completedAtMs : Option Json) : Option (List ResponseWindow) :=
  (parseWindow firstTokenAtMs completedAtMs).map fun window => [window]

def parseWindows (previousCompletedAtMs : Option ℚ) : List Json → Option (List ResponseWindow)
  | [] => some []
  | .obj record :: entries => do
    let window ← parseWindow (OMap.get record (js "first_token_at_ms")) (OMap.get record (js "completed_at_ms"))
    if previousCompletedAtMs.any fun previous => window.firstTokenAtMs < previous then none
    else return window :: (← parseWindows (some window.completedAtMs) entries)
  | _ => none

def parseGenerationWindows : Option Json → Option (List ResponseWindow)
  | some (.arr []) => none
  | some (.arr entries) => parseWindows none entries
  | _ => none

def firstTokenLatency (requestStartedAtMs : Option Json) (windows : List ResponseWindow) : Option ℚ := do
  let started ← number? requestStartedAtMs
  let earliest ← windows.head?
  let latency := earliest.firstTokenAtMs - started
  if latency < 0 ∨ latency > MAX_FIRST_TOKEN_MS then none else some latency

section

variable (registry : Registry)

def normalizeSampleModel (provider : Option JsString) (model : JsString) : JsString :=
  let name := provider.getD []
  let bare := if name ≠ [] ∧ startsWith model (name ++ js "/") then model.drop (name.length + 1) else model
  registry.canonicalizeObservedProviderModelId name (trim bare)

inductive ParsedSample where
  | sample (s : ResponseSample)
  | mismatchedModel (responseId : JsString)

def parseResponseSample (value : Json) (dispatchModel provider : Option JsString) : Option ParsedSample :=
  match value with
  | .obj record => do
    let responseId ← text? (OMap.get record (js "response_id"))
    let model ← text? (OMap.get record (js "model"))
    let outputTokens ← positiveInteger? (OMap.get record (js "output_tokens"))
    let first := OMap.get record (js "first_token_at_ms")
    let completed := OMap.get record (js "completed_at_ms")
    let vector := OMap.get record (js "generation_windows")
    let hasScalar := first.isSome || completed.isSome
    if hasScalar = vector.isSome then none
    else
      let windows ← if vector.isSome then parseGenerationWindows vector else parseScalarWindow first completed
      let durationMs := windows.foldl (fun sum window => sum + (window.completedAtMs - window.firstTokenAtMs)) (0 : ℚ)
      if durationMs.den ≠ 1 ∨ durationMs ≤ 0 ∨ durationMs > maxSafeInteger then none
      else
        let normalized := normalizeSampleModel registry provider model
        if dispatchModel.map trim = some normalized then
          some (.sample
            { responseId := trim responseId, model := normalized, outputTokens, windows, durationMs
              firstTokenMs := firstTokenLatency (OMap.get record (js "request_started_at_ms")) windows })
        else some (.mismatchedModel (trim responseId))
  | _ => none

def sameResponseSample (a b : ResponseSample) : Bool :=
  a.responseId = b.responseId ∧ a.model = b.model ∧ a.outputTokens = b.outputTokens ∧ a.windows = b.windows

structure ResponseSamples where
  seen : OMap JsString ResponseSample
  invalid : Bool

def ResponseSamples.add (r : ResponseSamples) : ParsedSample → ResponseSamples
  | .mismatchedModel _ => { r with invalid := true }
  | .sample s =>
    match OMap.get r.seen s.responseId with
    | some previous => if sameResponseSample previous s then r else { r with invalid := true }
    | none => { r with seen := OMap.set r.seen s.responseId s }

def parseResponseSamplesRecord (record : OMap JsString Json) (dispatchModel provider : Option JsString) :
    Option ResponseSamples :=
  match OMap.get record (js "tps_samples") with
  | some (.arr values) =>
    some ((values.filterMap fun value => parseResponseSample registry value dispatchModel provider).foldl
      ResponseSamples.add ⟨[], false⟩)
  | _ => none

def parseResponseSamples (value : Option Json) (dispatchModel provider : Option JsString) : Option ResponseSamples :=
  match value with
  | some (.obj record) => parseResponseSamplesRecord registry record dispatchModel provider
  | _ => none

end

def ResponseSamples.samples (r : ResponseSamples) : List ResponseSample := r.seen.map Prod.snd

def median (values : List ℚ) : Option ℚ :=
  if values = [] then none
  else
    let sorted := Comparator.sort (fun a b => a - b) values
    let mid := sorted.length / 2
    if sorted.length % 2 = 1 then some (sorted.getD mid 0)
      else some ((sorted.getD (mid - 1) 0 + sorted.getD mid 0) / 2)

def ratePerSecond (outputTokens : Nat) (durationMs : ℚ) : Option ℚ :=
  if outputTokens = 0 ∨ outputTokens > maxSafeInteger ∨ durationMs ≤ 0 then none
  else some (1000 * outputTokens / durationMs)

end Wrenyard.Stats
