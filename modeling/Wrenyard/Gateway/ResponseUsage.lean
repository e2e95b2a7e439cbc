import Wrenyard.Gateway.Sse
import Wrenyard.Js.Double
import Mathlib.Data.List.Induction

/-!
# Observing a response

`ResponseUsageObserver` reads the payloads of one response and keeps what the upstream reported: its usage, whether it
completed or failed, and the identity of its error.  Whether the observer has a verdict after a list of payloads can
be read off the payloads (`verdict_foldl`).
-/

namespace Wrenyard.Gateway

open Js

/-- A plain object. -/
abbrev Row := OMap JsString Json

def object : Json → Option Row
  | .obj members => some members
  | _ => none

/-- `object(row.key)`. -/
def child (row : Row) (key : JsString) : Option Row := (row.get key).bind object

/-- `row.key !== undefined && row.key !== null`. -/
def present (row : Row) (key : JsString) : Bool :=
  match row.get key with
  | none | some .null => false
  | some _ => true

/-- The member `key` where it is a string. -/
def textMember (row : Row) (key : JsString) : Option JsString :=
  match row.get key with
  | some (.str s) => some s
  | _ => none

/-- `count(row.key)`. -/
def count (row : Row) (key : JsString) : Option JsNumber :=
  match row.get key with
  | some (.num n) => if n.isFinite && !n.negative then some n else none
  | _ => none

/-- `n > 0`. -/
def isPositive (n : JsNumber) : Bool := !n.negative && (n.whole != 0 || n.fraction != [])

structure GatewayUsage where
  input : Option JsNumber
  output : Option JsNumber
  cachedInput : Option JsNumber
  reasoning : Option JsNumber

structure ErrorIdentity where
  type : Option JsString
  code : Option JsString

structure UsageAdapter where
  input : Row → Option JsNumber
  output : Row → Option JsNumber
  cachedInput : Row → Option JsNumber
  reasoning : Row → Option JsNumber
  usage : Row → Option Row
  terminal : Row → Bool
  sentinel : JsString → Bool
  failure : Row → Bool
  errorIdentity : Row → Option ErrorIdentity
  /-- Declared by a protocol that checks for an empty completion. -/
  emitted : Option (Row → Bool)

structure ResponseUsageObserver where
  usage : GatewayUsage
  terminal : Bool
  failed : Bool
  streamed : Bool
  outputSeen : Bool
  observedError : Option ErrorIdentity

namespace ResponseUsageObserver

def start : ResponseUsageObserver := ⟨⟨none, none, none, none⟩, false, false, false, false, none⟩

def succeeded (a : UsageAdapter) (o : ResponseUsageObserver) : Bool :=
  o.terminal && !o.failed && (a.emitted.isNone || !o.streamed || o.outputSeen || o.usage.output.any isPositive)

def failedStream (o : ResponseUsageObserver) : Bool := o.failed

def readUsage (a : UsageAdapter) (usage : GatewayUsage) (raw : Row) : GatewayUsage where
  input := (a.input raw).or usage.input
  output := (a.output raw).or usage.output
  cachedInput := (a.cachedInput raw).or usage.cachedInput
  reasoning := (a.reasoning raw).or usage.reasoning

def consumeRow (a : UsageAdapter) (o : ResponseUsageObserver) (row : Row) : ResponseUsageObserver where
  usage := match a.usage row with
    | none => o.usage
    | some raw => readUsage a o.usage raw
  terminal := o.terminal || a.terminal row
  failed := o.failed || a.failure row
  streamed := o.streamed
  outputSeen := o.outputSeen || a.emitted.any (· row)
  observedError := o.observedError.or (a.errorIdentity row)

def consume (a : UsageAdapter) (o : ResponseUsageObserver) (value : Json) : ResponseUsageObserver :=
  match object value with
  | none => o
  | some row => consumeRow a o row

def consumeEvent (a : UsageAdapter) (o : ResponseUsageObserver) (payload : JsString) : ResponseUsageObserver :=
  if a.sentinel payload then { o with streamed := true, terminal := true }
  else
    match JSON.parse payload with
    | some value => consume a { o with streamed := true } value
    | none => { o with streamed := true, failed := true }

def verdict (a : UsageAdapter) (o : ResponseUsageObserver) : Bool := o.succeeded a || o.failedStream

end ResponseUsageObserver

def recordOf (a : UsageAdapter) (payload : JsString) : Option Row :=
  if a.sentinel payload then none else (JSON.parse payload).bind object

def fails (a : UsageAdapter) (payload : JsString) : Bool :=
  (!a.sentinel payload && (JSON.parse payload).isNone) || (recordOf a payload).any a.failure

def completes (a : UsageAdapter) (payload : JsString) : Bool :=
  a.sentinel payload || (recordOf a payload).any a.terminal

def emits (a : UsageAdapter) (payload : JsString) : Bool := (recordOf a payload).any fun row => a.emitted.any (· row)

def reportedOutput (a : UsageAdapter) (payload : JsString) : Option JsNumber :=
  ((recordOf a payload).bind a.usage).bind a.output

def hasOutput (a : UsageAdapter) (payloads : List JsString) : Bool :=
  a.emitted.isNone || payloads.any (emits a) || (payloads.filterMap (reportedOutput a)).getLast?.any isPositive

def settles (a : UsageAdapter) (payloads : List JsString) : Bool :=
  payloads.any (fails a) || (payloads.any (completes a) && hasOutput a payloads)

namespace ResponseUsageObserver

variable {a : UsageAdapter}

private theorem consumeEvent_spec (o : ResponseUsageObserver) (payload : JsString) :
    (consumeEvent a o payload).failed = (o.failed || fails a payload) ∧ (consumeEvent a o payload).terminal =
    (o.terminal || completes a payload) ∧ (consumeEvent a o payload).outputSeen = (o.outputSeen || emits a payload) ∧
    (consumeEvent a o payload).streamed = true ∧ (consumeEvent a o payload).usage.output =
    (reportedOutput a payload).or o.usage.output := by
  rw [consumeEvent]
  by_cases hs : a.sentinel payload = true
  · have hrec : recordOf a payload = none := by rw [recordOf, if_pos hs]
    simp [fails, completes, emits, reportedOutput, hrec, hs]
  have hrec : recordOf a payload = (JSON.parse payload).bind object := by rw [recordOf, if_neg hs]
  rw [if_neg hs]
  cases hp : JSON.parse payload with
  | none =>
    simp [fails, completes, emits, reportedOutput, hrec, hs, hp]
  | some value =>
    have hobj : recordOf a payload = object value := by rw [hrec, hp]; rfl
    dsimp only
    rw [consume]
    cases ho : object value <;> rw [ho] at hobj
    case none => simp [fails, completes, emits, reportedOutput, hobj, hs, hp]
    case some row =>
      refine ⟨?_, ?_, ?_, rfl, ?_⟩
      · simp [consumeRow, fails, hobj, hp]
      · simp [consumeRow, completes, hobj, hs]
      · simp [consumeRow, emits, hobj]
      · rw [reportedOutput, hobj, Option.bind_some]
        cases hu : a.usage row with
        | none => simp [consumeRow, hu]
        | some raw => simp [consumeRow, hu, readUsage]

private theorem foldl_spec (payloads : List JsString) : (payloads.foldl (consumeEvent a) start).failed =
    payloads.any (fails a) ∧ (payloads.foldl (consumeEvent a) start).terminal = payloads.any (completes a) ∧
    (payloads.foldl (consumeEvent a) start).outputSeen = payloads.any (emits a) ∧
    (payloads.foldl (consumeEvent a) start).streamed = !payloads.isEmpty ∧
    (payloads.foldl (consumeEvent a) start).usage.output = (payloads.filterMap (reportedOutput a)).getLast? := by
  induction payloads using List.reverseRecOn with
  | nil => exact ⟨rfl, rfl, rfl, rfl, rfl⟩
  | append_singleton payloads payload ih =>
    obtain ⟨hf, ht, ho, -, hu⟩ := ih
    obtain ⟨hf', ht', ho', hs', hu'⟩ := consumeEvent_spec (a := a) (payloads.foldl (consumeEvent a) start) payload
    rw [List.foldl_concat]
    refine ⟨?_, ?_, ?_, ?_, ?_⟩
    · rw [hf', hf]; simp
    · rw [ht', ht]; simp
    · rw [ho', ho]; simp
    · rw [hs']; simp
    · rw [hu', hu, List.filterMap_append, List.getLast?_append]
      cases h : reportedOutput a payload <;> simp [h]

theorem verdict_foldl (payloads : List JsString) :
    (payloads.foldl (consumeEvent a) start).verdict a = settles a payloads := by
  obtain ⟨hf, ht, ho, hs, hu⟩ := foldl_spec (a := a) payloads
  rw [verdict, succeeded, failedStream, hf, ht, ho, hs, hu, settles, hasOutput]
  cases payloads with
  | nil => simp
  | cons payload payloads =>
    cases hany : (payload :: payloads).any (fails a) with
    | true => simp
    | false => simp

end ResponseUsageObserver

end Wrenyard.Gateway
