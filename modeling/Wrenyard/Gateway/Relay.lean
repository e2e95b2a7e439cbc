import Wrenyard.Gateway.Protocols

/-!
# Relaying a streamed response

The relay cuts the upstream text into frames, hands the payload of each frame to the translator of the TPS sampler,
rewrites the model of a successful record, and buffers what it writes until the response is committed.  The loop stops
reading after the chunk that settles the observer.

A chunk is the text the decoder hands out for the bytes of one read.  The translator and its sampler are a machine
with any state `τ`: the relay only asks it whether it has seen output.  The model follows a relay that is not aborted.
-/

namespace Wrenyard.Gateway

open Js

/-- The protocol module's translator, writing into the sampler of the response. -/
structure TpsTranslator (τ : Type) where
  /-- A record is a parsed value, or the payload itself. -/
  translate : τ → Json → τ
  hasSeenOutput : τ → Bool

structure RelayOptions (τ : Type) where
  module : GatewayProtocolModule
  translator : TpsTranslator τ
  providerId : JsString
  upstreamModel : JsString
  publicModel : JsString

def publicResponseModel (providerId model upstreamModel publicModel : JsString) : JsString :=
  let logicalModel :=
    if startsWith publicModel (providerId ++ [47]) then publicModel.drop (providerId.length + 1) else publicModel
  if model = upstreamModel ∨ model = logicalModel then publicModel else model

variable {τ : Type}

variable (options : RelayOptions τ)

def modelRewriter (model : JsString) : JsString :=
  publicResponseModel options.providerId model options.upstreamModel options.publicModel

/-- The lines of a frame whose `data` lines become one line at the place of the first. -/
def rebuildLines (payload : JsString) : Bool → List JsString → List JsString
  | _, [] => []
  | written, line :: rest =>
    if startsWith (stripCr line) (js "data:") then
      if written then rebuildLines payload true rest else (js "data: " ++ payload) :: rebuildLines payload true rest
    else line :: rebuildLines payload written rest

def rebuildFrame (frame payload : JsString) : JsString := unlines (rebuildLines payload false (lines frame))

/-- The value of a successful record as the client gets it. -/
def normalizeRecord (parsed : Json) : Json :=
  options.module.normalizeResponseModel (modelRewriter options) (mapRoot options.module.normalizeResponseUsage parsed)

def relayFrame (sampler : τ) (frame : JsString) : JsString × τ :=
  match frameData frame with
  | none => (frame, sampler)
  | some payload =>
    match JSON.parse payload with
    | none => (frame, options.translator.translate sampler (.str payload))
    | some parsed =>
      (if options.module.isOfficialStreamError parsed then frame
        else rebuildFrame frame (JSON.stringify (normalizeRecord options parsed)),
        options.translator.translate sampler parsed)

structure SseDownstreamState where
  /-- Everything the response was given to write. -/
  written : JsString
  pending : List JsString

namespace SseDownstreamState

def flushBuffered (d : SseDownstreamState) : SseDownstreamState := ⟨d.written ++ d.pending.flatten, []⟩

def flushSseDownstream (d : SseDownstreamState) (chunk : JsString) : SseDownstreamState :=
  ⟨d.flushBuffered.written ++ chunk, []⟩

def total (d : SseDownstreamState) : JsString := d.written ++ d.pending.flatten

end SseDownstreamState

/-- The relay between two lines of the upstream text. -/
structure Relaying (τ : Type) where
  frame : JsString
  downstream : SseDownstreamState
  sampler : τ

def shouldCommitSseFrame (observer : ResponseUsageObserver) (sampler : τ)
    (frame : JsString) : Bool :=
  options.translator.hasSeenOutput sampler || observer.verdict options.module.adapter ||
    ((frameData frame).bind JSON.parse).any options.module.isOfficialStreamError

def writeSseFrame (options : RelayOptions τ) (observer : ResponseUsageObserver) (r : Relaying τ) (frame : JsString) :
    Relaying τ where
  frame := []
  downstream :=
    if shouldCommitSseFrame options observer (relayFrame options r.sampler frame).2 frame then
      r.downstream.flushSseDownstream (relayFrame options r.sampler frame).1
    else ⟨r.downstream.written, r.downstream.pending ++ [(relayFrame options r.sampler frame).1]⟩
  sampler := (relayFrame options r.sampler frame).2

def relayLine (observer : ResponseUsageObserver) (r : Relaying τ) (line : JsString) :
    Relaying τ :=
  if stripCr line = [] then writeSseFrame options observer r (r.frame ++ line ++ [lf])
  else { r with frame := r.frame ++ line ++ [lf] }

/-- The text after the last line feed is `pending`, the buffer of `lines`. -/
structure RelayState (τ : Type) where
  observer : SseDataReader ResponseUsageObserver
  lines : Records.Reader UInt16 (Relaying τ)

namespace RelayState

def start (sampler : τ) : RelayState τ := ⟨SseDataReader.start .start, ⟨[], ⟨[], ⟨[], []⟩, sampler⟩⟩⟩

/-- `observer.feed(text); pending += text; flushFrames()`. -/
def feed (options : RelayOptions τ) (s : RelayState τ) (text : JsString) : RelayState τ :=
  let observer := s.observer.feed (ResponseUsageObserver.consumeEvent options.module.adapter) text
  ⟨observer, Records.feed lf (relayLine options observer.state.handed) s.lines text⟩

def settled (s : RelayState τ) : Bool :=
  s.observer.state.handed.verdict options.module.adapter

/-- Read chunk by chunk until the observer has a verdict; the flag tells that the upstream text has ended. -/
def readChunks (options : RelayOptions τ) (s : RelayState τ) : List JsString → RelayState τ × Bool
  | [] => (s, true)
  | chunk :: chunks =>
    let s := s.feed options chunk
    if s.settled options then (s, false) else s.readChunks options chunks

/-- The rest of the text is a last frame. -/
def finish (options : RelayOptions τ) (s : RelayState τ) (upstreamEof : Bool) : RelayState τ :=
  let observer := s.observer.atEnd (ResponseUsageObserver.consumeEvent options.module.adapter)
  let frame := s.lines.state.frame ++ s.lines.buffer
  let relaying :=
    if frame = [] then s.lines.state else writeSseFrame options observer.state.handed s.lines.state frame
  let verdict := observer.state.handed.verdict options.module.adapter
  ⟨observer, ⟨[], ⟨[], if verdict || upstreamEof then relaying.downstream.flushBuffered else relaying.downstream,
    relaying.sampler⟩⟩⟩

end RelayState

structure RelayOutcome where
  downstream : JsString
  succeeded : Bool
  failed : Bool
  error : Option ErrorIdentity
  usage : GatewayUsage

def RelayState.outcome (options : RelayOptions τ) (s : RelayState τ) : RelayOutcome where
  downstream := s.lines.state.downstream.written
  succeeded := s.observer.state.handed.succeeded options.module.adapter
  failed := s.observer.state.handed.failedStream
  error := s.observer.state.handed.observedError
  usage := s.observer.state.handed.usage

def relayResponse (options : RelayOptions τ) (sampler : τ) (chunks : List JsString) : RelayOutcome :=
  let read := (RelayState.start sampler).readChunks options chunks
  (read.1.finish options read.2).outcome options

end Wrenyard.Gateway
