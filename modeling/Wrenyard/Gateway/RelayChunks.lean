import Wrenyard.Gateway.Relay

/-!
# Relaying and the chunks of the upstream text

What a relay has read of the text determines its observer and the text it has written or buffered; the chunks only
decide when it writes (`Reached`).  The loop stops after the chunk that settles the observer, so the rest of that
chunk is relayed and the chunks after it are not: the chunks do not matter exactly when nothing follows the event that
settles the stream (`one_outcome_iff`).
-/

namespace Wrenyard.Gateway

open Js List

variable {τ : Type} {options : RelayOptions τ} {sampler : τ}

def relayed (options : RelayOptions τ) (frame : JsString) : JsString :=
  match frameData frame with
  | none => frame
  | some payload =>
    match JSON.parse payload with
    | none => frame
    | some parsed =>
      if options.module.isOfficialStreamError parsed then frame
      else rebuildFrame frame (JSON.stringify (normalizeRecord options parsed))

theorem relayFrame_fst (sampler : τ) (frame : JsString) :
    (relayFrame options sampler frame).1 = relayed options frame := by
  rw [relayFrame, relayed]
  cases frameData frame with
  | none => rfl
  | some payload =>
    dsimp only
    cases JSON.parse payload <;> rfl

variable {payload : JsString}

theorem lf_not_mem_rebuildLines (hp : lf ∉ payload) {ls : List JsString} (hls : ∀ l ∈ ls, lf ∉ l) (written : Bool) :
    ∀ l ∈ rebuildLines payload written ls, lf ∉ l := by
  induction ls generalizing written with
  | nil => simp [rebuildLines]
  | cons line rest ih =>
    have hrest := ih fun l hl => hls l (mem_cons_of_mem _ hl)
    have hdata : lf ∉ js "data: " ++ payload := by
      rw [mem_append, not_or]
      exact ⟨by decide, hp⟩
    intro l hl
    rw [rebuildLines] at hl
    split at hl
    · split at hl
      · exact hrest _ l hl
      · rcases mem_cons.mp hl with rfl | hl
        · exact hdata
        · exact hrest _ l hl
    · rcases mem_cons.mp hl with rfl | hl
      · exact hls l (mem_cons_self ..)
      · exact hrest _ l hl

theorem mem_rebuildLines {payload line : JsString} {ls : List JsString} (hmem : line ∈ ls)
    (hdata : startsWith (stripCr line) (js "data:") = true) :
    js "data: " ++ payload ∈ rebuildLines payload false ls := by
  induction ls with
  | nil => cases hmem
  | cons l rest ih =>
    rw [rebuildLines]
    split
    · simp
    rename_i hl
    rcases mem_cons.mp hmem with rfl | hrest
    · exact absurd hdata hl
    · exact mem_cons_of_mem _ (ih hrest)

theorem rebuildLines_ne_nil {ls : List JsString} (hne : ls ≠ []) : rebuildLines payload false ls ≠ [] := by
  cases ls with
  | nil => exact absurd rfl hne
  | cons l rest =>
    rw [rebuildLines]
    split <;> simp

theorem lines_rebuildFrame (hp : lf ∉ payload) (frame : JsString) :
    lines (rebuildFrame frame payload) = rebuildLines payload false (lines frame) :=
  lines_unlines (lf_not_mem_rebuildLines hp (fun _ => lf_not_mem_of_mem_lines) false)
    (rebuildLines_ne_nil (lines_ne_nil frame))

theorem startsWith_of_dataField {line data : JsString} (h : dataField line = some data) :
    startsWith line (js "data:") = true := by
  by_contra hno
  rw [dataField, if_neg hno] at h
  cases h

theorem exists_data_line {frame : JsString} (h : frameData frame = some payload) :
    ∃ line ∈ lines frame, startsWith (stripCr line) (js "data:") = true := by
  rw [frameData, joinData] at h
  split at h
  · cases h
  rename_i hne
  obtain ⟨data, hdata⟩ := exists_mem_of_ne_nil _ hne
  obtain ⟨line, hline, hfield⟩ := mem_filterMap.mp hdata
  exact ⟨line, hline, startsWith_of_dataField hfield⟩

theorem relayed_ne_nil {frame : JsString} (h : frame ≠ []) : relayed options frame ≠ [] := by
  rw [relayed]
  split
  · exact h
  rename_i payload hpayload
  split
  · exact h
  split
  · exact h
  rename_i parsed _ _
  intro hnil
  obtain ⟨line, hline, hdata⟩ := exists_data_line hpayload
  have hlines := lines_rebuildFrame (JSON.lf_not_mem_stringify (normalizeRecord options parsed)) frame
  have hmem := @mem_rebuildLines (JSON.stringify (normalizeRecord options parsed)) _ _ hline hdata
  rw [hnil, lines] at hlines
  rw [← hlines] at hmem
  simp [js, unitsOf] at hmem

/-- The frame that has begun, and everything that is written sooner or later. -/
structure Emission where
  frame : JsString
  total : JsString

def Relaying.emission (r : Relaying τ) : Emission := ⟨r.frame, r.downstream.total⟩

def emitLine (options : RelayOptions τ) (e : Emission) (line : JsString) : Emission :=
  if stripCr line = [] then ⟨[], e.total ++ relayed options (e.frame ++ line ++ [lf])⟩
  else ⟨e.frame ++ line ++ [lf], e.total⟩

theorem total_flushBuffered (d : SseDownstreamState) : d.flushBuffered.written = d.total := rfl

theorem total_writeSseFrame (o : ResponseUsageObserver) (r : Relaying τ) (frame : JsString) :
    (writeSseFrame options o r frame).downstream.total = r.downstream.total ++ relayed options frame := by
  rw [← relayFrame_fst r.sampler frame, writeSseFrame]
  split
  · simp [SseDownstreamState.flushSseDownstream, SseDownstreamState.total, SseDownstreamState.flushBuffered]
  · simp [SseDownstreamState.total]

theorem emission_relayLine (o : ResponseUsageObserver) (r : Relaying τ) (line : JsString) :
    (relayLine options o r line).emission = emitLine options r.emission line := by
  rw [relayLine, emitLine]
  split
  · rw [Relaying.emission, total_writeSseFrame]
    rfl
  · rfl

def emissionOf (options : RelayOptions τ) (text : JsString) : Records.Reader UInt16 Emission :=
  Records.feed lf (emitLine options) ⟨[], ⟨[], []⟩⟩ text

def readerOf (options : RelayOptions τ) (text : JsString) : SseDataReader ResponseUsageObserver :=
  (SseDataReader.start .start).feed (ResponseUsageObserver.consumeEvent options.module.adapter) text

structure Reached (options : RelayOptions τ) (text : JsString) (s : RelayState τ) : Prop where
  observer : s.observer = readerOf options text
  buffer : s.lines.buffer = (emissionOf options text).buffer
  emission : s.lines.state.emission = (emissionOf options text).state

theorem reached_start : Reached options [] (RelayState.start sampler) where
  observer := (SseDataReader.feed_nil List.not_mem_nil).symm
  buffer := by rw [emissionOf, Records.feed_nil List.not_mem_nil]; rfl
  emission := by rw [emissionOf, Records.feed_nil List.not_mem_nil]; rfl

theorem readerOf_append (text chunk : JsString) :
    (readerOf options text).feed (ResponseUsageObserver.consumeEvent options.module.adapter) chunk =
    readerOf options (text ++ chunk) := SseDataReader.feed_append (by simp [SseDataReader.start]) text chunk

theorem emissionOf_append (text chunk : JsString) :
    Records.feed lf (emitLine options) (emissionOf options text) chunk = emissionOf options (text ++ chunk) :=
  Records.feed_append text chunk List.not_mem_nil

variable {text : JsString}

variable {s : RelayState τ}

/-- One chunk more. -/
theorem Reached.feed (h : Reached options text s) (chunk : JsString) :
    Reached options (text ++ chunk) (s.feed options chunk) := by
  have hmap := Records.feed_map (d := lf) (r := s.lines) (g := Relaying.emission)
    (@emission_relayLine τ options (s.feed options chunk).observer.state.handed) chunk
  have hview : (⟨s.lines.buffer, s.lines.state.emission⟩ : Records.Reader UInt16 Emission) =
      emissionOf options text := by rw [h.buffer, h.emission]
  rw [hview, emissionOf_append] at hmap
  constructor
  · rw [RelayState.feed, h.observer]
    exact readerOf_append text chunk
  · rw [hmap]; rfl
  · rw [hmap]; rfl

theorem reached_feed_start (text : JsString) : Reached options text ((RelayState.start sampler).feed options text) :=
  reached_start.feed text

theorem settled_iff (h : Reached options text s) :
    s.settled options = settles options.module.adapter (payloadsOf text) := by
  rw [RelayState.settled, h.observer, readerOf, handed_feed_start, ResponseUsageObserver.verdict_foldl]

def lastFrame (options : RelayOptions τ) (e : Records.Reader UInt16 Emission) : JsString :=
  if e.state.frame ++ e.buffer = [] then [] else relayed options (e.state.frame ++ e.buffer)

def observerOf (options : RelayOptions τ) (text : JsString) : ResponseUsageObserver :=
  ((readerOf options text).atEnd (ResponseUsageObserver.consumeEvent options.module.adapter)).state.handed

def textOutcome (options : RelayOptions τ) (text : JsString) : RelayOutcome where
  downstream := (emissionOf options text).state.total ++ lastFrame options (emissionOf options text)
  succeeded := (observerOf options text).succeeded options.module.adapter
  failed := (observerOf options text).failedStream
  error := (observerOf options text).observedError
  usage := (observerOf options text).usage

theorem observer_finish (h : Reached options text s) (eof : Bool) :
    (s.finish options eof).observer.state.handed = observerOf options text := by
  rw [RelayState.finish, h.observer]
  rfl

variable {eof : Bool}

theorem outcome_finish (h : Reached options text s)
    (hflush : eof = true ∨ (observerOf options text).verdict options.module.adapter = true) :
    (s.finish options eof).outcome options = textOutcome options text := by
  have hwritten : (s.finish options eof).lines.state.downstream.written =
      (emissionOf options text).state.total ++ lastFrame options (emissionOf options text) := by
    have hframe : s.lines.state.frame = (emissionOf options text).state.frame := congrArg Emission.frame h.emission
    have htotal : s.lines.state.downstream.total = (emissionOf options text).state.total :=
      congrArg Emission.total h.emission
    have hyes : ((s.observer.atEnd (ResponseUsageObserver.consumeEvent options.module.adapter)).state.handed.verdict
        options.module.adapter || eof) = true := by
      rw [h.observer]
      rcases hflush with rfl | hv
      · simp
      · rw [show ((readerOf options text).atEnd _).state.handed = observerOf options text from rfl, hv]
        rfl
    rw [RelayState.finish]
    rw [if_pos hyes, total_flushBuffered, lastFrame, ← hframe, ← h.buffer, ← htotal]
    split
    · simp
    · rw [total_writeSseFrame]
  rw [RelayState.outcome, textOutcome, observer_finish h, hwritten]

variable {chunks : List JsString}

theorem relayResponse_eq
    (hread : (RelayState.start sampler).readChunks options chunks = (s, eof)) (h : Reached options text s)
    (hflush : eof = true ∨ (observerOf options text).verdict options.module.adapter = true) :
    relayResponse options sampler chunks = textOutcome options text := by
  rw [relayResponse, hread]
  exact outcome_finish h hflush

/-- The verdict of the observer is that of the text, whether or not it was written in full. -/
theorem verdict_relayResponse
    (hread : (RelayState.start sampler).readChunks options chunks = (s, eof)) (h : Reached options text s) :
    ((relayResponse options sampler chunks).succeeded || (relayResponse options sampler chunks).failed) =
    (observerOf options text).verdict options.module.adapter := by
  rw [relayResponse, hread, RelayState.outcome, observer_finish h, ResponseUsageObserver.verdict]

def SettlesAtEnd (a : UsageAdapter) (text : JsString) : Prop :=
  ∀ read rest, text = read ++ rest → rest ≠ [] → settles a (payloadsOf read) = false

theorem buffer_eq (text : JsString) : (readerOf options text).buffer = (emissionOf options text).buffer := rfl

/-- The event that settles the stream ends with a blank line, and nothing is left open behind it. -/
theorem closed_of_settles {text : JsString} {u : UInt16}
    (hno : settles options.module.adapter (payloadsOf text) = false)
    (hyes : settles options.module.adapter (payloadsOf (text ++ [u])) = true) :
    (readerOf options (text ++ [u])).buffer = [] ∧ (readerOf options (text ++ [u])).state.dataLines = [] ∧
      (emissionOf options (text ++ [u])).state.frame = [] := by
  have hlf : lf ∉ (readerOf options text).buffer := SseDataReader.lf_not_mem_feed (by simp [SseDataReader.start]) text
  have hne : ((readerOf options text).feed (ResponseUsageObserver.consumeEvent options.module.adapter)
      [u]).state.handed ≠ (readerOf options text).state.handed := by
    intro heq
    have hv := congrArg (ResponseUsageObserver.verdict options.module.adapter) heq
    rw [readerOf_append, readerOf, readerOf, handed_feed_start, handed_feed_start,
      ResponseUsageObserver.verdict_foldl, ResponseUsageObserver.verdict_foldl, hyes, hno] at hv
    cases hv
  obtain ⟨rfl, hblank, hbuffer, hdata⟩ := SseDataReader.empty_of_handed_ne hlf hne
  rw [readerOf_append] at hbuffer hdata
  refine ⟨hbuffer, hdata, ?_⟩
  have hpush : emissionOf options (text ++ [lf]) =
      Records.push lf (emitLine options) (emissionOf options text) lf := by
    have hlf' : lf ∉ (emissionOf options text).buffer := hlf
    rw [← emissionOf_append, Records.feed_eq_foldl [lf] hlf']
    rfl
  rw [hpush, Records.push_delimiter, emitLine, ← buffer_eq, if_pos hblank]

/-- The observer keeps the verdict of an event behind which nothing is left open. -/
theorem verdict_observerOf {text : JsString} (hb : (readerOf options text).buffer = [])
    (hd : (readerOf options text).state.dataLines = []) :
    (observerOf options text).verdict options.module.adapter = settles options.module.adapter (payloadsOf text) := by
  rw [observerOf, SseDataReader.atEnd_of_empty hb hd, readerOf, handed_feed_start,
    ResponseUsageObserver.verdict_foldl]

theorem closed_of_settlesAtEnd (hend : SettlesAtEnd options.module.adapter text)
    (hyes : settles options.module.adapter (payloadsOf text) = true) : (readerOf options text).buffer = [] ∧
    (readerOf options text).state.dataLines = [] ∧ (emissionOf options text).state.frame = [] := by
  rcases eq_nil_or_concat text with rfl | ⟨read, u, rfl⟩
  · cases hyes
  · rw [concat_eq_append] at hend hyes ⊢
    exact closed_of_settles (hend read [u] rfl (by simp)) hyes

/-! ### The chunks -/

theorem reached_readChunks {read text : JsString} {s : RelayState τ} (h : Reached options read s)
    {chunks : List JsString} (htext : text = read ++ chunks.flatten)
    (hend : SettlesAtEnd options.module.adapter text) : Reached options text (s.readChunks options chunks).1 ∧
    ((s.readChunks options chunks).2 = true ∨ settles options.module.adapter (payloadsOf text) = true) := by
  induction chunks generalizing read s with
  | nil =>
    rw [flatten_nil, append_nil] at htext
    subst htext
    exact ⟨h, Or.inl rfl⟩
  | cons chunk chunks ih =>
    have hfed := h.feed chunk
    have htext' : text = (read ++ chunk) ++ chunks.flatten := by
      rw [htext, flatten_cons, append_assoc]
    rw [RelayState.readChunks]
    split
    · rename_i hsettled
      rw [settled_iff hfed] at hsettled
      have hrest : chunks.flatten = [] := by
        by_contra hne
        rw [hend _ _ htext' hne] at hsettled
        cases hsettled
      rw [hrest, append_nil] at htext'
      subst htext'
      exact ⟨hfed, Or.inr hsettled⟩
    · exact ih hfed htext'

/-- However such a text is cut, its outcome is that of the whole text. -/
theorem relayResponse_of_settlesAtEnd (hend : SettlesAtEnd options.module.adapter text)
    (hchunks : chunks.flatten = text) : relayResponse options sampler chunks = textOutcome options text := by
  obtain ⟨hreached, hstop⟩ := @reached_readChunks τ options [] text _ (@reached_start τ options sampler) chunks
    (by rw [hchunks, nil_append]) hend
  refine relayResponse_eq rfl hreached ?_
  rcases hstop with heof | hsettled
  · exact Or.inl heof
  right
  obtain ⟨hb, hd, -⟩ := closed_of_settlesAtEnd hend hsettled
  rw [verdict_observerOf hb hd]
  exact hsettled

theorem emission_grows (e : Records.Reader UInt16 Emission) (hlf : lf ∉ e.buffer) (rest : JsString) :
    ∃ more, (Records.feed lf (emitLine options) e rest).state.total = e.state.total ++ more ∧
      (more ≠ [] ∨ (Records.feed lf (emitLine options) e rest).state.frame ++
        (Records.feed lf (emitLine options) e rest).buffer = e.state.frame ++ e.buffer ++ rest) := by
  rw [Records.feed_eq_foldl rest hlf]
  induction rest generalizing e with
  | nil => exact ⟨[], by simp, Or.inr (by simp)⟩
  | cons u rest ih =>
    rw [foldl_cons]
    obtain ⟨more, htotal, hmore⟩ := ih (Records.push lf (emitLine options) e u) (Records.not_mem_buffer_push hlf u)
    rw [htotal]
    by_cases hu : u = lf
    · subst hu
      rw [Records.push_delimiter] at htotal hmore ⊢
      by_cases hblank : stripCr e.buffer = []
      · refine ⟨relayed options (e.state.frame ++ e.buffer ++ [lf]) ++ more, ?_, Or.inl ?_⟩
        · rw [emitLine, if_pos hblank, append_assoc]
        · have hne := @relayed_ne_nil τ options (e.state.frame ++ e.buffer ++ [lf]) (by simp)
          intro hnil
          exact hne (append_eq_nil_iff.mp hnil).1
      · rw [emitLine, if_neg hblank] at hmore ⊢
        refine ⟨more, rfl, ?_⟩
        rcases hmore with hmore | hmore
        · exact Or.inl hmore
        · right
          rw [hmore]
          simp
    · rw [Records.push_of_ne hu] at hmore ⊢
      refine ⟨more, rfl, ?_⟩
      rcases hmore with hmore | hmore
      · exact Or.inl hmore
      · right
        rw [hmore]
        simp

/-- Whatever follows a complete frame is written. -/
theorem downstream_ne {read rest : JsString} (hb : (readerOf options read).buffer = [])
    (hf : (emissionOf options read).state.frame = []) (hrest : rest ≠ []) :
    (textOutcome options (read ++ rest)).downstream ≠ (textOutcome options read).downstream := by
  have hlf : lf ∉ (emissionOf options read).buffer := by rw [← buffer_eq, hb]; simp
  obtain ⟨more, htotal, hmore⟩ := @emission_grows τ options (emissionOf options read) hlf rest
  have hempty : (emissionOf options read).state.frame ++ (emissionOf options read).buffer = [] := by
    rw [hf, ← buffer_eq, hb]
    rfl
  rw [emissionOf_append, hempty] at hmore
  rw [emissionOf_append] at htotal
  rw [textOutcome, textOutcome]
  have hlast : lastFrame options (emissionOf options read) = [] := by rw [lastFrame, if_pos hempty]
  rw [htotal, hlast, append_nil, append_assoc]
  intro heq
  have hnil : more ++ lastFrame options (emissionOf options (read ++ rest)) = [] := by simpa using heq
  rw [append_eq_nil_iff] at hnil
  obtain ⟨hmore', hlast'⟩ := hnil
  rcases hmore with hmore | hmore
  · exact hmore hmore'
  · rw [nil_append] at hmore
    rw [lastFrame, hmore, if_neg hrest] at hlast'
    exact relayed_ne_nil hrest hlast'

/-- The shortest prefix that settles the stream. -/
theorem exists_first_settled {a : UsageAdapter} (h : ¬ SettlesAtEnd a text) : ∃ read u rest, text =
    read ++ [u] ++ rest ∧ rest ≠ [] ∧ settles a (payloadsOf read) = false ∧ settles a (payloadsOf (read ++ [u])) =
    true ∧ SettlesAtEnd a (read ++ [u]) := by
  have hex : ∃ n, n < text.length ∧ settles a (payloadsOf (text.take n)) = true := by
    unfold SettlesAtEnd at h
    push Not at h
    obtain ⟨read, rest, rfl, hrest, hyes⟩ := h
    refine ⟨read.length, ?_, ?_⟩
    · have := length_pos_iff.mpr hrest
      rw [length_append]
      omega
    · simpa using hyes
  obtain ⟨hlt, hyes⟩ := Nat.find_spec hex
  have hmin : ∀ m, m < Nat.find hex → settles a (payloadsOf (text.take m)) = false := by
    intro m hm
    by_contra hno
    exact Nat.find_min hex hm ⟨by omega, by simpa using hno⟩
  rcases hn : Nat.find hex with _ | n
  · rw [hn] at hyes
    cases hyes
  rw [hn] at hlt hyes hmin
  have htake : text.take (n + 1) = text.take n ++ [text[n]] := take_succ_eq_append_getElem (by omega)
  refine ⟨text.take n, text[n], text.drop (n + 1), ?_, ?_, hmin n (by omega), ?_, ?_⟩
  · rw [← htake, take_append_drop]
  · intro hnil
    have := congrArg List.length hnil
    simp only [length_drop, length_nil] at this
    omega
  · rw [← htake]
    exact hyes
  · rw [← htake]
    intro read rest heq hrest
    have hlen := congrArg List.length heq
    have hpos := length_pos_iff.mpr hrest
    rw [length_take, length_append] at hlen
    have hread : read = text.take read.length := by
      have hpre : read <+: text := (heq ▸ prefix_append read rest).trans ( take_prefix _ _)
      exact prefix_iff_eq_take.mp hpre
    rw [hread]
    exact hmin read.length (by omega)

/-- The outcome does not depend on the chunks exactly when nothing follows the event that settles the stream. -/
theorem one_outcome_iff (options : RelayOptions τ) (sampler : τ) (text : JsString) :
    (∀ chunks chunks' : List JsString, chunks.flatten = text → chunks'.flatten = text →
      relayResponse options sampler chunks = relayResponse options sampler chunks') ↔
    SettlesAtEnd options.module.adapter text := by
  constructor
  · intro hsame
    by_contra hno
    obtain ⟨read, u, rest, rfl, hrest, hbefore, hafter, hend⟩ := exists_first_settled hno
    obtain ⟨hb, hd, hf⟩ := @closed_of_settles τ options _ _ hbefore hafter
    -- cut behind the event, the relay stops there
    have hcut : relayResponse options sampler [read ++ [u], rest] = textOutcome options (read ++ [u]) := by
      have hreached := @reached_feed_start τ options sampler (read ++ [u])
      have hread : (RelayState.start sampler).readChunks options [read ++ [u], rest] =
          ((RelayState.start sampler).feed options (read ++ [u]), false) := by
        rw [RelayState.readChunks, if_pos]
        rw [settled_iff hreached]
        exact hafter
      refine relayResponse_eq hread hreached (Or.inr ?_)
      rw [verdict_observerOf hb hd]
      exact hafter
    have hwhole := hsame [read ++ [u], rest] [read ++ [u] ++ rest] (by simp) (by simp)
    rw [hcut] at hwhole
    -- in one chunk the relay has read everything, and the same verdict makes it write everything
    have hfed := @reached_feed_start τ options sampler (read ++ [u] ++ rest)
    have hstate : ∃ eof, (RelayState.start sampler).readChunks options [read ++ [u] ++ rest] =
        ((RelayState.start sampler).feed options (read ++ [u] ++ rest), eof) := by
      rw [RelayState.readChunks]
      split
      · exact ⟨false, rfl⟩
      · exact ⟨true, rfl⟩
    obtain ⟨eof, hstate⟩ := hstate
    have hobserver : (observerOf options (read ++ [u] ++ rest)).verdict options.module.adapter = true := by
      have hv := @verdict_observerOf τ options _ hb hd
      rw [hafter] at hv
      rw [← verdict_relayResponse hstate hfed, ← hwhole]
      exact hv
    have hfull := relayResponse_eq hstate hfed (Or.inr hobserver)
    rw [hfull] at hwhole
    exact downstream_ne hb hf hrest (congrArg RelayOutcome.downstream hwhole).symm
  · intro hend chunks chunks' h h'
    rw [relayResponse_of_settlesAtEnd hend h, relayResponse_of_settlesAtEnd hend h']

/-- The sum of two token counts, as far as it is exact. -/
def addCounts (m n : JsNumber) : JsNumber := .ofNat (m.whole + n.whole)

def responsesOptions : RelayOptions Unit where
  module := protocolModule addCounts .openaiResponses
  translator := ⟨fun _ _ => (), fun _ => false⟩
  providerId := js "acme"
  upstreamModel := js "private"
  publicModel := js "acme/public"

def completedEvent : JsString := js "data: \x7b\"type\":\"response.completed\"\x7d\n\n"

def doneSentinel : JsString := js "data: [DONE]\n\n"

/-- In one chunk the sentinel makes the stream a failure; in two chunks the stream has succeeded before it arrives. -/
theorem one_outcome_fails :
    (relayResponse responsesOptions () [completedEvent ++ doneSentinel]).succeeded = false ∧
    (relayResponse responsesOptions () [completedEvent, doneSentinel]).succeeded = true ∧
    (relayResponse responsesOptions () [completedEvent ++ doneSentinel]).downstream ≠
      (relayResponse responsesOptions () [completedEvent, doneSentinel]).downstream := by
  decide +kernel

end Wrenyard.Gateway
