import Wrenyard.Session.Compaction

/-!
# Context floors

A reduction always moves above every floor recorded before it.  A compaction does not: its tail is the hot zone of the
whole timeline, and an action that never finished, or a suffix that fits the budget, pulls the start of the tail below
an earlier floor.  The floor it records is at least an earlier one exactly when the tail may begin after an event at
or above that floor (`prepare_floors`).  Where that holds for every compaction, what one request replaced by a
handover note is not rendered by a later one.
-/

namespace Wrenyard.Session

open Js List

variable {encodeLength : JsString → Nat}

/-- The floor is at least every compaction recorded before it, a reduction above every floor recorded before it. -/
def FloorRecord.Kept : FloorRecord → Prop
  | .reduced before plan => ∀ floor ∈ before.filterMap recordedFloor, floor < plan.throughSeq
  | .compacted _ before _ result => ∀ floor ∈ before.filterMap compactionFloor, floor ≤ result.throughSeq

/-- For every earlier compaction the verbatim tail may begin after an event at or above its floor: a place above such
an event at which the hot zone may begin, or the given start of the tail. -/
def FloorRecord.TailAbove (encodeLength : JsString → Nat) (input : PrepareInput) : FloorRecord → Prop
  | .reduced _ _ => True
  | .compacted source before tailFromSeq _ =>
    let contextEvents := source.filter isContextEvent
    let size := fun event => (contextTokens encodeLength false event : Int)
    ∀ floor ∈ before.filterMap compactionFloor, ∃ i event, contextEvents[i]? = some event ∧ floor ≤ event.seq ∧
      match tailFromSeq with
      | none => ∃ place, i < place ∧ MayStart contextEvents
          (latestStart contextEvents size (tailBudget input.metadata input.maxTokens)) place
      | some tailFromSeq => event.seq < tailFromSeq

variable {tailFromSeq : Option Nat} {events : List LedgerEvent}

theorem compactContext_throughSeq {metadata : ModelMetadata} {summarize : CompactionSummaryCall}
    {title : Option JsString} {outputReservation estimated : Option Nat} :
    (compactContext encodeLength metadata summarize title outputReservation estimated tailFromSeq events).throughSeq =
      ((((events.filter isContextEvent).take
        (tailStart encodeLength metadata outputReservation tailFromSeq (events.filter isContextEvent))).getLast?).map
          (·.seq)).getD 0 := by
  have hsummarised : ∀ (failed : JsString → CompactionResult) (outcome : Except JsString JsString) (seq : Nat),
      (∀ failure, (failed failure).throughSeq = seq) →
      (compactContext.summarised metadata estimated failed outcome seq).throughSeq = seq := by
    intro failed outcome seq hfailed
    unfold compactContext.summarised
    split
    · exact hfailed _
    · split
      · exact hfailed _
      · rfl
  unfold compactContext
  dsimp only
  split
  · rename_i hnone
    rw [hnone]
    rfl
  rename_i last hlast
  rw [hlast]
  cases hwindow : metadata.contextWindow with
  | none => exact hsummarised _ _ _ fun _ => rfl
  | some window =>
    dsimp only
    split
    · rfl
    · exact hsummarised _ _ _ fun _ => rfl

private theorem le_getLast_iff (h : Increasing events) {last : LedgerEvent} (hlast : events.getLast? = some last)
    (floor : Nat) : floor ≤ last.seq ↔ ∃ event ∈ events, floor ≤ event.seq := by
  obtain ⟨front, rfl⟩ := List.getLast?_eq_some_iff.mp hlast
  constructor
  · intro hle
    exact ⟨last, mem_append_right _ (mem_singleton_self last), hle⟩
  · rintro ⟨event, hevent, hle⟩
    rcases mem_append.mp hevent with hfront | hsingle
    · have hlt := (pairwise_append.mp h).2.2 event hfront last (mem_singleton_self last)
      omega
    · rwa [mem_singleton.mp hsingle] at hle

variable {event : LedgerEvent}

private theorem mem_take_iff {n : Nat} : event ∈ events.take n ↔ ∃ i, i < n ∧ events[i]? = some event := by
  rw [mem_iff_getElem?]
  constructor
  · rintro ⟨i, hi⟩
    rw [List.getElem?_take] at hi
    split at hi
    · rename_i hlt
      exact ⟨i, hlt, hi⟩
    · cases hi
  · rintro ⟨i, hlt, hi⟩
    exact ⟨i, by rw [List.getElem?_take, if_pos hlt, hi]⟩

private theorem lt_findIdx_iff (h : Increasing events) (seq i : Nat) (hi : events[i]? = some event) :
    i < (events.findIdx? (seq ≤ ·.seq)).getD events.length ↔ event.seq < seq := by
  have hlen : i < events.length := (List.getElem?_eq_some_iff.mp hi).1
  have hget : events[i] = event := (List.getElem?_eq_some_iff.mp hi).2
  cases hfind : events.findIdx? (seq ≤ ·.seq) with
  | none =>
    have hnone := List.findIdx?_eq_none_iff.mp hfind event (hget ▸ getElem_mem hlen)
    simp only [Option.getD_none, hlen, true_iff]
    simpa using hnone
  | some j =>
    obtain ⟨hj, hge, hbefore⟩ := List.findIdx?_eq_some_iff_getElem.mp hfind
    rw [Option.getD_some]
    constructor <;> intro hlt
    · simpa [hget] using hbefore i hlt
    · by_contra hnot
      have hge' : seq ≤ events[j].seq := by simpa using hge
      rcases Nat.lt_or_eq_of_le (Nat.le_of_not_lt hnot) with hji | rfl
      · have := pairwise_iff_getElem.mp h j i hj hlen hji
        rw [hget] at this
        omega
      · rw [hget] at hge'
        omega

private theorem increasing_filter (h : Increasing events) (p : LedgerEvent → Bool) : Increasing (events.filter p) :=
  List.Pairwise.filter p h

private theorem compacted_kept_iff {input : PrepareInput} {source before : List LedgerEvent} {estimated : Nat}
    (hsource : Increasing source) (hpos : 0 < (input.compact encodeLength source estimated tailFromSeq).throughSeq) :
    (FloorRecord.compacted source before tailFromSeq (input.compact encodeLength source estimated tailFromSeq)).Kept ↔
      (FloorRecord.compacted source before tailFromSeq
        (input.compact encodeLength source estimated tailFromSeq)).TailAbove encodeLength input := by
  have hinc := increasing_filter hsource isContextEvent
  refine forall_congr' fun floor => imp_congr_right fun _ => ?_
  unfold PrepareInput.compact at hpos ⊢
  rw [compactContext_throughSeq] at hpos ⊢
  generalize hctx : source.filter isContextEvent = contextEvents at hpos hinc ⊢
  cases hlast : (contextEvents.take
      (tailStart encodeLength input.metadata input.maxTokens tailFromSeq contextEvents)).getLast? with
  | none =>
    rw [hlast] at hpos
    cases hpos
  | some last =>
    rw [Option.map_some, Option.getD_some, le_getLast_iff (hinc.sublist (take_sublist _ _)) hlast]
    constructor
    · rintro ⟨event, hevent, hle⟩
      obtain ⟨i, hi, hget⟩ := mem_take_iff.mp hevent
      refine ⟨i, event, hget, hle, ?_⟩
      cases tailFromSeq with
      | none => exact ⟨_, hi, hotZoneStart_mayStart contextEvents _ _⟩
      | some seq => exact (lt_findIdx_iff hinc seq i hget).mp hi
    · rintro ⟨i, event, hget, hle, htail⟩
      refine ⟨event, mem_take_iff.mpr ⟨i, ?_, hget⟩, hle⟩
      cases tailFromSeq with
      | none =>
        obtain ⟨place, hlt, hplace⟩ := htail
        exact Nat.lt_of_lt_of_le hlt (le_hotZoneStart contextEvents _ _ hplace)
      | some seq => exact (lt_findIdx_iff hinc seq i hget).mpr htail

/-! ### The timeline `prepare` leaves -/

def FloorsSorted (events : List LedgerEvent) : Prop := (events.filterMap compactionFloor).Pairwise (· ≤ ·)

theorem increasing_stamp (h : Increasing events) (draft : LedgerEventDraft) (time : JsString) :
    Increasing (events ++ [stampDraft events draft time]) := by
  refine pairwise_append.mpr ⟨h, pairwise_singleton _ _, fun event hevent event' hevent' => ?_⟩
  rw [mem_singleton.mp hevent']
  change event.seq < lastSeq events + 1
  cases hlast : events.getLast? with
  | none =>
    rw [List.getLast?_eq_none_iff.mp hlast] at hevent
    cases hevent
  | some last =>
    have hle := (le_getLast_iff h hlast event.seq).mpr ⟨event, hevent, Nat.le_refl _⟩
    rw [lastSeq, hlast]
    exact Nat.lt_succ_of_le hle

theorem increasing_arrive (h : Increasing events) (drafts : List (LedgerEventDraft × JsString)) :
    Increasing (arrive events drafts) := by
  induction drafts generalizing events with
  | nil => exact h
  | cons draft drafts ih => exact ih (increasing_stamp h draft.1 draft.2)

private theorem compactionFloor_eq_none (h : recordedFloor event = none) : compactionFloor event = none := by
  unfold recordedFloor at h
  unfold compactionFloor
  split at h <;> simp_all

private theorem floors_arrive (f : LedgerEvent → Option Nat) (events : List LedgerEvent)
    (drafts : List (LedgerEventDraft × JsString))
    (hnone : ∀ draft ∈ drafts, ∀ seq, f ⟨draft.1, seq, draft.2⟩ = none) :
    (arrive events drafts).filterMap f = events.filterMap f := by
  induction drafts generalizing events with
  | nil => rfl
  | cons draft drafts ih =>
    refine (ih _ fun d hd => hnone d (mem_cons_of_mem _ hd)).trans ?_
    have hstamp : [stampDraft events draft.1 draft.2].filterMap f = [] :=
      filterMap_cons_none (hnone draft (mem_cons_self ..) _)
    rw [filterMap_append, hstamp, append_nil]

private theorem recordedFloors_arrive (events : List LedgerEvent) (others : OtherAppends) :
    (arrive events others.drafts).filterMap recordedFloor = events.filterMap recordedFloor :=
  floors_arrive recordedFloor events others.drafts fun draft hdraft _ => others.noFloor draft hdraft

private theorem compactionFloors_arrive (events : List LedgerEvent) (others : OtherAppends) :
    (arrive events others.drafts).filterMap compactionFloor = events.filterMap compactionFloor :=
  floors_arrive compactionFloor events others.drafts fun draft hdraft _ =>
    compactionFloor_eq_none (others.noFloor draft hdraft)

namespace PrepareInput

variable {input : PrepareInput} {source : List LedgerEvent} {records : List FloorRecord}

private theorem increasing_record (input : PrepareInput) (h : Increasing source) (before after : OtherAppends)
    (draft : LedgerEventDraft) :
    Increasing (input.record source before after draft) :=
  increasing_arrive (increasing_stamp (increasing_arrive h _) draft input.time) _

private theorem floorsSorted_reduced (h : FloorsSorted source) (before after : OtherAppends) (plan : ReductionPlan) :
    FloorsSorted (input.record source before after (input.reducedDraft plan)) := by
  unfold FloorsSorted record
  rw [compactionFloors_arrive, filterMap_append, compactionFloors_arrive]
  exact (append_nil _).symm ▸ h

private theorem floorsSorted_compacted (h : FloorsSorted source) (before after : OtherAppends)
    (result : CompactionResult)
    (hkept : ∀ floor ∈ (arrive source before.drafts).filterMap compactionFloor, floor ≤ result.throughSeq) :
    FloorsSorted (input.record source before after (input.compactedDraft result)) := by
  unfold FloorsSorted record
  rw [compactionFloors_arrive, filterMap_append]
  refine pairwise_append.mpr ⟨?_, pairwise_singleton _ result.throughSeq, fun floor hfloor floor' hfloor' => ?_⟩
  · rw [compactionFloors_arrive]
    exact h
  · have heq : floor' = result.throughSeq := mem_singleton.mp hfloor'
    rw [heq]
    exact hkept floor hfloor

/-- Every record keeps the earlier floors exactly when its tail may begin above them, and where all do the floors of
the timeline stay sorted. -/
private structure Sound (encodeLength : JsString → Nat) (input : PrepareInput) (source : List LedgerEvent)
    (out : PrepareResult) : Prop where
  iff : ∀ record ∈ out.records, record.Kept ↔ record.TailAbove encodeLength input
  sorted : FloorsSorted source → (∀ record ∈ out.records, record.Kept) → FloorsSorted out.timeline

private theorem iff_append_compacted
    (hrecords : ∀ record ∈ records, record.Kept ↔ record.TailAbove encodeLength input) (hsource : Increasing source)
    (before : List LedgerEvent) {estimated : Nat}
    (hpos : 0 < (input.compact encodeLength source estimated tailFromSeq).throughSeq) :
    ∀ record ∈ records ++ [.compacted source before tailFromSeq
      (input.compact encodeLength source estimated tailFromSeq)],
      record.Kept ↔ record.TailAbove encodeLength input := by
  intro record hrecord
  rcases mem_append.mp hrecord with hrecord | hrecord
  · exact hrecords record hrecord
  · rw [mem_singleton.mp hrecord]
    exact compacted_kept_iff hsource hpos

private theorem retry_sound (hrecords : ∀ record ∈ records, record.Kept ↔ record.TailAbove encodeLength input)
    (hsource : Increasing source) : Sound encodeLength input source (input.retry encodeLength records source) := by
  unfold retry
  dsimp only
  split
  · rename_i hpos
    refine ⟨iff_append_compacted hrecords hsource _ hpos, fun hsorted hkept => ?_⟩
    exact floorsSorted_compacted hsorted _ _ _ (hkept _ (mem_append_right _ (mem_singleton_self _)))
  · exact ⟨hrecords, fun hsorted _ => hsorted⟩

private theorem mem_records_retry {record : FloorRecord} (h : record ∈ records) :
    record ∈ (input.retry encodeLength records source).records := by
  unfold retry
  dsimp only
  split
  · exact mem_append_left _ h
  · exact h

private theorem summarise_sound (hrecords : ∀ record ∈ records, record.Kept ↔ record.TailAbove encodeLength input)
    (hsource : Increasing source) (estimated : Nat) :
    Sound encodeLength input source (input.summarise encodeLength records source estimated) := by
  unfold summarise
  dsimp only
  split
  · rename_i hpos
    have hiff := iff_append_compacted hrecords hsource (arrive source input.beforeCompacted.drafts) hpos
    have hlast : ∀ out : List FloorRecord, (∀ record ∈ records ++ [.compacted source
        (arrive source input.beforeCompacted.drafts) none (input.compact encodeLength source estimated none)],
        record ∈ out) → FloorsSorted source → (∀ record ∈ out, record.Kept) →
        FloorsSorted (input.record source input.beforeCompacted input.afterCompacted
          (input.compactedDraft (input.compact encodeLength source estimated none))) := by
      intro out hout hsorted hkept
      exact floorsSorted_compacted hsorted _ _ _
        (hkept _ (hout _ (mem_append_right _ (mem_singleton_self _))))
    split
    · have hretry := retry_sound hiff (increasing_record input hsource input.beforeCompacted
        input.afterCompacted (input.compactedDraft (input.compact encodeLength source estimated none)))
      refine ⟨hretry.iff, fun hsorted hkept => hretry.sorted ?_ hkept⟩
      exact hlast _ (fun record hrecord => mem_records_retry hrecord) hsorted hkept
    · exact ⟨hiff, hlast _ fun record hrecord => hrecord⟩
  · exact ⟨hrecords, fun hsorted _ => hsorted⟩

private theorem prepare_sound (hsource : Increasing source) :
    Sound encodeLength input source (input.prepare encodeLength source) := by
  unfold prepare
  dsimp only
  split
  · exact ⟨by simp, fun hsorted _ => hsorted⟩
  split
  · split
    · exact summarise_sound (by simp) hsource _
    rename_i plan hplan
    have hreduced : ∀ record ∈ [FloorRecord.reduced (arrive source input.beforeReduced.drafts) plan],
        record.Kept ↔ record.TailAbove encodeLength input := by
      intro record hrecord
      rw [mem_singleton.mp hrecord]
      refine iff_of_true ?_ trivial
      change ∀ floor ∈ (arrive source input.beforeReduced.drafts).filterMap recordedFloor, floor < plan.throughSeq
      rw [recordedFloors_arrive]
      exact computeReduction_above encodeLength hplan
    split
    · obtain ⟨hiff, hsorted⟩ := summarise_sound hreduced (increasing_record input hsource
        input.beforeReduced input.afterReduced (input.reducedDraft plan)) _
      exact ⟨hiff, fun h => hsorted (floorsSorted_reduced h _ _ plan)⟩
    · exact ⟨hreduced, fun h _ => floorsSorted_reduced h _ _ plan⟩
  · exact ⟨by simp, fun hsorted _ => hsorted⟩

end PrepareInput

private theorem latestCompaction_floor (events : List LedgerEvent) :
    (latestCompaction events).map (·.throughSeq) = (events.filterMap compactionFloor).getLast? := by
  rw [← List.head?_reverse, ← filterMap_reverse, List.head?_filterMap, latestCompaction, map_findSome?]
  congr 1
  funext event
  unfold compactionFloor
  rw [Function.comp_apply]
  cases event.body <;> rfl

/-- With sorted floors an event a request replaced by a handover note stays replaced as the timeline grows. -/
theorem not_mem_contextEvents_of_prefix {earlier : List LedgerEvent} (hsorted : FloorsSorted events)
    (hpre : earlier <+: events) (hevent : event ∈ earlier) (hnot : event ∉ contextEvents earlier) :
    event ∉ contextEvents events := by
  obtain ⟨c, hc, hle⟩ : ∃ c, latestCompaction earlier = some c ∧ event.seq ≤ c.throughSeq := by
    unfold contextEvents at hnot
    split at hnot
    · exact absurd hevent hnot
    · rename_i c hc
      refine ⟨c, hc, ?_⟩
      simpa [hevent] using hnot
  have hfloor : (earlier.filterMap compactionFloor).getLast? = some c.throughSeq := by
    rw [← latestCompaction_floor, hc]
    rfl
  obtain ⟨rest, rfl⟩ := hpre
  obtain ⟨c', hc', hle'⟩ : ∃ c', latestCompaction (earlier ++ rest) = some c' ∧ c.throughSeq ≤ c'.throughSeq := by
    have hlast := latestCompaction_floor (earlier ++ rest)
    unfold FloorsSorted at hsorted
    rw [filterMap_append] at hlast hsorted
    cases hrest : (rest.filterMap compactionFloor).getLast? with
    | none =>
      rw [List.getLast?_eq_none_iff.mp hrest, append_nil, hfloor] at hlast
      obtain ⟨c', hc', heq⟩ := Option.map_eq_some_iff.mp hlast
      exact ⟨c', hc', heq.ge⟩
    | some floor =>
      rw [List.getLast?_append, hrest, Option.some_or] at hlast
      obtain ⟨c', hc', heq⟩ := Option.map_eq_some_iff.mp hlast
      refine ⟨c', hc', ?_⟩
      rw [heq]
      exact (pairwise_append.mp hsorted).2.2 _ (mem_of_getLast? hfloor) _ (mem_of_getLast? hrest)
  unfold contextEvents
  rw [hc']
  simp only [mem_filter, decide_eq_true_eq, not_and, not_lt]
  intro _
  omega

/-- On every timeline and with every budget: a reduction `prepare` records is above every floor recorded before it,
and a compaction at or above every earlier one exactly when the tail of its timeline may begin above that floor.
Where that holds for each compaction of the call, an event that an earlier request replaced by a handover note is not
rendered from the timeline the call leaves. -/
theorem prepare_floors (encodeLength : JsString → Nat) (input : PrepareInput) (events : List LedgerEvent)
    (hevents : Increasing events) :
    (∀ record ∈ (input.prepare encodeLength events).records, record.Kept ↔ record.TailAbove encodeLength input) ∧
    (FloorsSorted events →
      (∀ record ∈ (input.prepare encodeLength events).records, record.TailAbove encodeLength input) →
      FloorsSorted (input.prepare encodeLength events).timeline ∧
      ∀ earlier, earlier <+: (input.prepare encodeLength events).timeline → ∀ event ∈ earlier,
        event ∉ contextEvents earlier → event ∉ contextEvents (input.prepare encodeLength events).timeline) := by
  obtain ⟨hiff, hsorted⟩ := input.prepare_sound hevents
  refine ⟨hiff, fun hfloors htail => ?_⟩
  have hfloors' := hsorted hfloors fun record hrecord => (hiff record hrecord).mpr (htail record hrecord)
  exact ⟨hfloors', fun earlier hpre event hevent hnot => not_mem_contextEvents_of_prefix hfloors' hpre hevent hnot⟩

/-- A turn that was interrupted while its action ran, and a second turn whose first step was compacted with the tail
shrunk to that turn. -/
def openActionTimeline : List LedgerEvent :=
  [⟨⟨some 1, none, .turnStarted ⟨js "t1", js "go", ⟨js "p", js "m", none, none, none, none⟩, none⟩⟩, 1, js "0"⟩,
   ⟨⟨some 1, some 1, .stepStarted ⟨js "t1.1", js "t1", js "m", none, none⟩⟩, 2, js "0"⟩,
   ⟨⟨some 1, some 1, .actionStarted ⟨js "a1", js "t1.1", .dispatch, js "do", none, none⟩⟩, 3, js "0"⟩,
   ⟨⟨some 2, none, .turnStarted ⟨js "t2", js "on", ⟨js "p", js "m", none, none, none, none⟩, none⟩⟩, 4, js "0"⟩,
   ⟨⟨some 2, some 1, .stepStarted ⟨js "t2.1", js "t2", js "m", none, none⟩⟩, 5, js "0"⟩,
   ⟨⟨some 2, some 1, .contextCompacted ⟨3, js "note", none, none, none⟩⟩, 6, js "0"⟩,
   ⟨⟨some 2, some 2, .stepStarted ⟨js "t2.2", js "t2", js "m", none, none⟩⟩, 7, js "0"⟩]

def largeRequest : PrepareInput where
  turn := 2
  step := 2
  title := js "title"
  metadata := ⟨some 8000, none, some 7998⟩
  maxTokens := some 7998
  active := true
  viewTokens := fun _ _ => 5000
  summarize := fun _ _ _ => .ok (js "note")
  beforeReduced := ⟨[], by simp⟩
  afterReduced := ⟨[], by simp⟩
  beforeCompacted := ⟨[], by simp⟩
  afterCompacted := ⟨[], by simp⟩
  beforeRetried := ⟨[], by simp⟩
  afterRetried := ⟨[], by simp⟩
  time := js "0"

def shortCount (text : JsString) : Nat := (text.take 50).length

private theorem increasing_openActionTimeline : Increasing openActionTimeline := by
  unfold Increasing
  decide

private theorem prepare_openAction : (largeRequest.prepare shortCount openActionTimeline).records =
    [.compacted openActionTimeline openActionTimeline none ⟨1, js "note", some 5000, some 8000, none⟩] := by
  decide +kernel

theorem prepare_floors_openAction : Increasing openActionTimeline ∧
    (largeRequest.prepare shortCount openActionTimeline).records.length = 1 ∧
    ∀ record ∈ (largeRequest.prepare shortCount openActionTimeline).records, record.Kept ↔
    record.TailAbove shortCount largeRequest :=
  ⟨increasing_openActionTimeline, by rw [prepare_openAction]; rfl,
    (prepare_floors shortCount largeRequest openActionTimeline increasing_openActionTimeline).1⟩

/-- The open action pulls the tail below the floor of the earlier compaction: the floor goes from 3 back to 1, and the
action that the earlier note replaced is rendered again. -/
theorem prepare_floor_backwards :
    (¬ ∀ (encodeLength : JsString → Nat) (input : PrepareInput) (events : List LedgerEvent), Increasing events →
      ∀ record ∈ (input.prepare encodeLength events).records, record.Kept) ∧
    ∃ event ∈ openActionTimeline, event ∉ contextEvents openActionTimeline ∧
      event ∈ contextEvents (largeRequest.prepare shortCount openActionTimeline).timeline := by
  refine ⟨fun h => ?_, openActionTimeline[2], by decide +kernel, by decide +kernel, by decide +kernel⟩
  have hkept := h shortCount largeRequest openActionTimeline increasing_openActionTimeline
  rw [prepare_openAction] at hkept
  have hle := hkept _ (List.mem_singleton_self _) 3 (by decide +kernel)
  exact absurd hle (by decide)

end Wrenyard.Session
