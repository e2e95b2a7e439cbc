import Wrenyard.Stats.TpsRead

/-!
# Local speed

The estimates of local speed, one for each provider and model: read from the tables, or from the samples a daemon
keeps of the executions of a trailing window.  The window is filled once and afterwards kept execution by execution.
-/

namespace Wrenyard.Stats

open Js

def LOCAL_SPEED_WINDOW_MS : Int := 31 * 24 * 60 * 60 * 1000

/-- Maximum newest executions considered for the speed estimate. -/
def MAX_SAMPLES : Nat := 50

/-- Minimum samples required to publish an aggregate estimate. -/
def MIN_SAMPLES : Nat := 3

def isUsableTpsSample (outputTokens : Nat) (windowMs : ℚ) : Bool :=
  8 ≤ outputTokens && 100 ≤ windowMs && (outputTokens : ℚ) / (windowMs / 1000) ≤ 1000

structure TpsEstimate where
  tps : ℚ
  sampleCount : Nat
  firstTokenMs : Option ℚ
  checkedAt : Int

def newestFirst (a b : ExecutionTpsSample) : ℚ := (b.endedAt : ℚ) - a.endedAt

def estimateTps (samples : List ExecutionTpsSample) : Option TpsEstimate :=
  let eligible := samples.filter fun sample => isUsableTpsSample sample.outputTokens sample.durationMs
  if eligible.length < MIN_SAMPLES then none
  else
    let newest := (Comparator.sort newestFirst eligible).take MAX_SAMPLES
    if newest.length < MIN_SAMPLES then none
    else do
      let tps ← median (newest.map ExecutionTpsSample.tps)
      let checkedAt ← newest.head?.map ExecutionTpsSample.endedAt
      let latencies := newest.filterMap ExecutionTpsSample.firstTokenMs
      let firstTokenMs := if MIN_SAMPLES ≤ latencies.length then median latencies else none
      return { tps, sampleCount := newest.length, firstTokenMs, checkedAt }

structure LocalSpeedSample where
  provider : JsString
  model : JsString
  tps : ℚ
  sampleCount : Nat
  firstTokenMs : Option ℚ
  checkedAt : Int

def groupKey (sample : ExecutionTpsSample) : JsString := sample.provider ++ [0] ++ sample.model

/-- The trailing window, with its lower bound and without its upper one. -/
def inWindow (now : Int) (sample : ExecutionTpsSample) : Bool :=
  now - LOCAL_SPEED_WINDOW_MS ≤ sample.endedAt && sample.endedAt < now

def grouped (samples : List ExecutionTpsSample) : OMap JsString (List ExecutionTpsSample) :=
  OMap.foldKeyed (fun bucket sample => bucket.getD [] ++ [sample]) []
    (samples.map fun sample => (groupKey sample, sample))

def bucketSpeed (bucket : List ExecutionTpsSample) : Option LocalSpeedSample := do
  let estimate ← estimateTps bucket
  let first ← bucket.head?
  return {
    provider := first.provider, model := first.model, tps := estimate.tps, sampleCount := estimate.sampleCount
    firstTokenMs := estimate.firstTokenMs, checkedAt := estimate.checkedAt }

def aggregateLocalSpeedSamples (samples : List ExecutionTpsSample) (now : Int) : List LocalSpeedSample :=
  (grouped (samples.filter (inWindow now))).filterMap fun e => bucketSpeed e.2

def trailing (now : Int) : ReadExecutionTpsOptions :=
  { startAt := some (now - LOCAL_SPEED_WINDOW_MS), endAt := some now }

def readLocalSpeedSamples (registry : Registry) (db : Database) (now : Int) : List LocalSpeedSample :=
  aggregateLocalSpeedSamples (readExecutionTpsSamples registry db (trailing now)) now

abbrev Kept := OMap JsString ExecutionTpsSample

/-- The earlier start of the trailing window and the window of the statistics, given local midnight 30 days before a
time. -/
def retainedWindowStartMs (localMidnightMs : Int → Int) (now : Int) : Int :=
  min (now - LOCAL_SPEED_WINDOW_MS) (localMidnightMs now)

def retained (localMidnightMs : Int → Int) (now : Int) : ReadExecutionTpsOptions :=
  { startAt := some (retainedWindowStartMs localMidnightMs now), endAt := some now }

def initializeLocalSpeedSamples (registry : Registry) (localMidnightMs : Int → Int) (db : Database)
    (now : Int) : Kept :=
  OMap.foldKeyed (fun _ sample => sample) []
    ((readExecutionTpsSamples registry db (retained localMidnightMs now)).map fun sample =>
      (sample.executionId, sample))

def only (executionId : JsString) : ReadExecutionTpsOptions := { executionId := some executionId }

def updateLocalSpeedSample (registry : Registry) (kept : Kept) (db : Database) (executionId : JsString) : Kept :=
  match (readExecutionTpsSamples registry db (only executionId)).head? with
  | some sample => OMap.set kept executionId sample
  | none => OMap.delete kept executionId

def prune (localMidnightMs : Int → Int) (kept : Kept) (now : Int) : Kept :=
  kept.filter fun e => retainedWindowStartMs localMidnightMs now ≤ e.2.endedAt

def readLocalSpeedSamplesCached (localMidnightMs : Int → Int) (kept : Kept)
    (now : Int) : Kept × List LocalSpeedSample :=
  let kept := prune localMidnightMs kept now
  (kept, aggregateLocalSpeedSamples (kept.map Prod.snd) now)

end Wrenyard.Stats
