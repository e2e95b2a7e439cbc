import Wrenyard.Session.EventJson

/-!
# Model metadata, the context budget and failures of a call

What one model call knows before it is sent (`resolveModelMetadata` and `checkContextBudget` of the model-call
package) and how a failure is read (`ModelError`, `errorFactOf`, `isContextOverflowError`).

The token estimate of the messages is a number the call is given.
-/

namespace Wrenyard.Calls

open Js Session

structure GatewayModel where
  publicId : JsString
  contextWindow : Option Nat
  maxInputTokens : Option Nat
  maxOutputTokens : Option Nat
  maxTokens : Option Nat
  reasoningEfforts : Option (List ReasoningEffort)

structure ModelMetadata where
  contextWindow : Option Nat
  maxInputTokens : Option Nat
  maxOutputTokens : Option Nat
  reasoningEfforts : Option (List ReasoningEffort)

def PROVIDER_DEFAULT_REASONING : ReasoningEffort := .default

def DEFAULT_MAX_OUTPUT_TOKENS : Nat := 16384

def CONTEXT_OUTPUT_RESERVATION_CAP : Nat := 32768

def resolveModelMetadata (publicId : JsString) (models : List GatewayModel) : ModelMetadata :=
  match models.find? (·.publicId = publicId) with
  | none => ⟨none, none, none, none⟩
  | some definition =>
    { contextWindow := definition.contextWindow
      maxInputTokens := definition.maxInputTokens
      maxOutputTokens := some ((definition.maxOutputTokens <|> definition.maxTokens).getD DEFAULT_MAX_OUTPUT_TOKENS)
      reasoningEfforts := definition.reasoningEfforts }

def boundedOutputReservation (maxOutputTokens : Option Nat) : Option Nat :=
  maxOutputTokens.map (min · CONTEXT_OUTPUT_RESERVATION_CAP)

def isProviderDefaultReasoningOnly (metadata : ModelMetadata) : Bool :=
  metadata.reasoningEfforts == some [PROVIDER_DEFAULT_REASONING]

def hasSelectableReasoningEfforts (metadata : ModelMetadata) : Bool :=
  match metadata.reasoningEfforts with
  | none => false
  | some efforts => !efforts.isEmpty && !isProviderDefaultReasoningOnly metadata

def isReasoningEffortSupported (metadata : ModelMetadata) (effort : ReasoningEffort) : Bool :=
  match metadata.reasoningEfforts with
  | none => true
  | some efforts => efforts.isEmpty || isProviderDefaultReasoningOnly metadata || efforts.contains effort

structure ContextBudget where
  metadata : ModelMetadata
  estimatedInputTokens : Nat
  requestMaxOutputTokens : Option Nat
  /-- Why the call may not be sent; absent when it may. -/
  reason : Option JsString

def checkContextBudget (publicId : JsString) (estimatedInputTokens : Nat) (models : List GatewayModel)
    (requestedMaxOutputTokens : Option Nat) : ContextBudget :=
  let metadata := resolveModelMetadata publicId models
  let budget : ContextBudget := ⟨metadata, estimatedInputTokens, none, none⟩
  let sourceMax := boundedOutputReservation metadata.maxOutputTokens
  if metadata.maxInputTokens.any (· < estimatedInputTokens) then
    { budget with
      reason := some (js "Estimated input " ++ natText estimatedInputTokens ++ js " exceeds the model input limit " ++
        natText (metadata.maxInputTokens.getD 0)) }
  else
    match requestedMaxOutputTokens <|> sourceMax with
    | none => budget
    | some requested =>
      let bounded := match sourceMax with
        | none => requested
        | some sourceMax => min requested sourceMax
      match metadata.contextWindow with
      | none => { budget with requestMaxOutputTokens := some bounded }
      | some contextWindow =>
        if contextWindow ≤ estimatedInputTokens then
          { budget with
            reason := some (js "Estimated input " ++ natText estimatedInputTokens ++
              js " leaves no room in the context window " ++ natText contextWindow) }
        else { budget with requestMaxOutputTokens := some (min bounded (contextWindow - estimatedInputTokens)) }

/-- A thrown error, with the members a call reads of it; `modelError` tells an instance of `ModelError`. -/
structure Thrown where
  message : JsString
  modelError : Bool
  kind : Option ModelErrorKind
  status : Option Nat
  retryAfterMs : Option Nat
  retryAt : Option JsString
  outputStarted : Bool
  metrics : Option ModelMetrics
deriving DecidableEq

/-- `new Error(message)`. -/
def Thrown.plain (message : JsString) : Thrown := ⟨message, false, none, none, none, none, false, none⟩

/-- `new ModelError(message, { kind })`. -/
def Thrown.ofKind (kind : ModelErrorKind) (message : JsString) : Thrown :=
  ⟨message, true, some kind, none, none, none, false, none⟩

def abortError : Thrown := .ofKind .aborted (js "Model request was aborted")

def errorFactOf (error : Thrown) : SpanError :=
  match error.kind with
  | some kind => ⟨.model kind, error.status, error.retryAt, error.message⟩
  | none => ⟨.model .protocol, none, none, error.message⟩

/-- The simple case folding of the letters the patterns below are written with. -/
def foldUnit (u : UInt16) : UInt16 :=
  if 65 ≤ u ∧ u ≤ 90 then u + 32 else if u = 0x17F then 115 else if u = 0x212A then 107 else u

/-- `/(?:prompt|input|request|messages?)[^.\n]*too (?:long|large)/iu` -/
def tooLong (folded : JsString) : Bool :=
  folded.tails.any fun rest =>
    [js "prompt", js "input", js "request", js "message"].any fun word =>
      startsWith rest word &&
        [js "too long", js "too large"].any (includes ((rest.drop word.length).takeWhile fun u => u ≠ 46 ∧ u ≠ lf))

/-- One of `CONTEXT_OVERFLOW_PATTERNS` matches. -/
def overflowWording (message : JsString) : Bool :=
  let folded := message.map foldUnit
  [js "context_length", js "context length", js "context window", js "maximum context", js "context overflow",
    js "exceed the context", js "exceeds the context", js "exceed the maximum context",
      js "exceeds the maximum context",
    js "too many tokens", js "reduce the length of the message"].any (includes folded) || tooLong folded

def isContextOverflowError (error : Thrown) : Bool :=
  (error.modelError && error.kind == some .contextOverflow) ||
    (!error.message.isEmpty && (startsWith error.message (js "context_overflow:") || overflowWording error.message))

def withOverflowPrefix (error : Thrown) : JsString :=
  if startsWith error.message (js "context_overflow:") then error.message
  else if isContextOverflowError error then js "context_overflow: " ++ error.message else error.message

end Wrenyard.Calls
