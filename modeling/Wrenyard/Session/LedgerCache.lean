import Wrenyard.Session.LedgerContinuity

/-!
# The cache of the ledger

The counters of the loaded timelines over every run of the ledger: `cachedBytes` and `cachedEvents` are the sums over
the resident entries, the session of a running append is pinned and resident, with the array its append grows, and
whenever nothing is pinned every cap holds (`cache_accounted`).
-/

namespace Wrenyard.Session

open Js Transition

namespace Memory

/-- The counters are the sums over the loaded timelines. -/
structure Accounted (m : Memory) : Prop where
  nodup : m.events.keys.Nodup
  bytes : m.cachedBytes = (m.events.weight (·.bytes) : Nat)
  events : m.cachedEvents = (m.events.weight fun entry => entry.events.length : Nat)

variable {m m' : Memory} {k : JsString} {entry : LoadedSession}

theorem accounted_empty : Memory.empty.Accounted := ⟨List.nodup_nil, rfl, rfl⟩

section

variable (h : m.Accounted)
include h

theorem Accounted.of_eq (hevents : m'.events = m.events) (hbytes : m'.cachedBytes = m.cachedBytes)
    (hcount : m'.cachedEvents = m.cachedEvents) : m'.Accounted where
  nodup := by rw [hevents]; exact h.nodup
  bytes := by rw [hevents, hbytes]; exact h.bytes
  events := by rw [hevents, hcount]; exact h.events

private theorem weight_touch (hget : m.events.get k = some entry) (w : LoadedSession → Nat) :
    (m.touch k entry).events.weight w = m.events.weight w := by
  have hdelete := OMap.weight_delete h.nodup hget w
  have hset := OMap.weight_set_of_none (m := m.events.delete k) (k := k) (by rw [OMap.get_delete, if_pos rfl]) w entry
  dsimp only [touch]
  omega

theorem Accounted.touch (hget : m.events.get k = some entry) : (m.touch k entry).Accounted where
  nodup := OMap.nodup_keys_set (OMap.nodup_keys_delete h.nodup k) k entry
  bytes := by rw [weight_touch h hget]; exact h.bytes
  events := by rw [weight_touch h hget]; exact h.events

theorem Accounted.dropSession (k : JsString) : (m.dropSession k).Accounted := by
  unfold Memory.dropSession
  split
  · exact h
  rename_i entry hget
  have hbytes := OMap.weight_delete h.nodup hget (·.bytes)
  have hcount := OMap.weight_delete h.nodup hget fun entry => entry.events.length
  refine ⟨OMap.nodup_keys_delete h.nodup k, ?_, ?_⟩
  · have := h.bytes
    dsimp only
    omega
  · have := h.events
    dsimp only
    omega

theorem Accounted.evictSessions : m.evictSessions.Accounted := by
  have hrounds (rounds : Nat) : ∀ m : Memory, m.Accounted → (m.evictRounds rounds).Accounted := by
    induction rounds with
    | zero => exact fun m h => h
    | succ rounds ih =>
      intro m h
      unfold evictRounds
      split
      · split
        · exact h
        · exact ih _ (h.dropSession _)
      · exact h
  exact hrounds _ m h

/-- Storing a timeline, before the caps are applied. -/
private theorem Accounted.store (hget : m.events.get k = none) (entry : LoadedSession) :
    Accounted { m with
      events := m.events.set k entry
      cachedBytes := m.cachedBytes + entry.bytes
      cachedEvents := m.cachedEvents + entry.events.length } := by
  have hbytes := OMap.weight_set_of_none hget (·.bytes) entry
  have hcount := OMap.weight_set_of_none hget (fun entry => entry.events.length) entry
  refine ⟨OMap.nodup_keys_set h.nodup k entry, ?_, ?_⟩
  · have := h.bytes
    dsimp only
    omega
  · have := h.events
    dsimp only
    omega

theorem Accounted.storeSession (k : JsString) (entry : LoadedSession) : (m.storeSession k entry).Accounted := by
  have hnone : (m.dropSession k).events.get k = none := by rw [get_dropSession, if_pos rfl]
  exact ((h.dropSession k).store hnone entry).evictSessions

theorem Accounted.abandon (k : JsString) : (m.abandon k).Accounted :=
  Accounted.evictSessions ((h.dropSession k).of_eq rfl rfl rfl)

theorem Accounted.release (k : JsString) : (m.release k).Accounted :=
  Accounted.evictSessions (h.of_eq rfl rfl rfl)

/-- The counters follow an array that grew by one event. -/
theorem Accounted.push (hget : m.events.get k = some entry) (event : LedgerEvent) (lineBytes : Nat) :
    (m.push k entry.array (entry.events ++ [event]) lineBytes).Accounted := by
  have hbytes := OMap.weight_set_of_get hget (·.bytes)
    { entry with events := entry.events ++ [event], bytes := entry.bytes + lineBytes }
  have hcount := OMap.weight_set_of_get hget (fun entry => entry.events.length)
    { entry with events := entry.events ++ [event], bytes := entry.bytes + lineBytes }
  simp only [List.length_append, List.length_singleton] at hcount
  simp only [Memory.push, hget, if_true]
  refine ⟨OMap.nodup_keys_set h.nodup k _, ?_, ?_⟩
  · have := h.bytes
    dsimp only at hbytes ⊢
    omega
  · have := h.events
    dsimp only at hcount ⊢
    omega

end

def Bounded (m : Memory) : Prop := m.pinned = [] → m.overCaps = false

theorem overCaps_eq_false_iff : m.overCaps = false ↔
    m.events.length ≤ MAX_CACHED_SESSIONS ∧ m.cachedBytes ≤ MAX_CACHED_BYTES ∧
    m.cachedEvents ≤ MAX_CACHED_EVENTS := by
  simp only [overCaps, Bool.or_eq_false_iff, decide_eq_false_iff_not, Int.not_lt, Nat.not_lt, and_assoc]

theorem bounded_evictSessions (h : m.Accounted) : m.evictSessions.Bounded := by
  intro hpinned
  rcases evictSessions_caps m with hcaps | hkeys
  · exact hcaps
  have hnil : m.evictSessions.events = [] := by
    rw [List.eq_nil_iff_forall_not_mem]
    intro e he
    have := hkeys e.1 (List.mem_map_of_mem he)
    rw [hpinned] at this
    cases this
  have hacc := h.evictSessions
  have hbytes := hacc.bytes
  have hcount := hacc.events
  rw [hnil] at hbytes hcount
  rw [overCaps_eq_false_iff, hnil, hbytes, hcount]
  exact ⟨Nat.zero_le _, by simp [OMap.weight], by simp [OMap.weight]⟩

theorem bounded_of_mem (h : k ∈ m.pinned) : m.Bounded := by
  intro hpinned
  rw [hpinned] at h
  cases h

theorem Bounded.of_eq (h : m.Bounded) (hevents : m'.events = m.events) (hbytes : m'.cachedBytes = m.cachedBytes)
    (hcount : m'.cachedEvents = m.cachedEvents) (hpinned : m'.pinned = m.pinned) : m'.Bounded := by
  intro hnil
  rw [hpinned] at hnil
  have := h hnil
  rw [overCaps_eq_false_iff] at this ⊢
  rwa [hevents, hbytes, hcount]

private theorem length_eq_weight (es : OMap JsString LoadedSession) : es.length = es.weight fun _ => 1 := by
  simp [OMap.weight]

theorem Bounded.touch (h : m.Bounded) (hacc : m.Accounted) (hget : m.events.get k = some entry) :
    (m.touch k entry).Bounded := by
  intro hpinned
  have := h hpinned
  rw [overCaps_eq_false_iff, length_eq_weight] at this ⊢
  rw [weight_touch hacc hget]
  exact this

theorem Bounded.dropSession (h : m.Bounded) (k : JsString) : (m.dropSession k).Bounded := by
  intro hpinned
  rw [(dropSession_frame ..).2.2] at hpinned
  have := h hpinned
  rw [overCaps_eq_false_iff] at this ⊢
  unfold Memory.dropSession
  split
  · exact this
  · have hlen : (m.events.delete k).length ≤ m.events.length := List.length_filter_le _ _
    dsimp only
    omega

theorem bounded_storeSession (h : m.Accounted) (k : JsString) (entry : LoadedSession) :
    (m.storeSession k entry).Bounded := by
  have hnone : (m.dropSession k).events.get k = none := by rw [get_dropSession, if_pos rfl]
  exact bounded_evictSessions ((h.dropSession k).store hnone entry)

theorem bounded_abandon (h : m.Accounted) (k : JsString) : (m.abandon k).Bounded :=
  bounded_evictSessions ((h.dropSession k).of_eq rfl rfl rfl)

theorem bounded_release (h : m.Accounted) (k : JsString) : (m.release k).Bounded :=
  bounded_evictSessions (h.of_eq rfl rfl rfl)

@[simp] theorem rebuildSummaryIfNeeded_cached (m : Memory) (k : JsString) (events : List LedgerEvent) (bytes : Nat) :
    (m.rebuildSummaryIfNeeded k events bytes).cachedBytes = m.cachedBytes ∧
      (m.rebuildSummaryIfNeeded k events bytes).cachedEvents = m.cachedEvents := by
  unfold rebuildSummaryIfNeeded
  split
  · exact ⟨rfl, rfl⟩
  · split <;> exact ⟨rfl, rfl⟩

end Memory

def Job.pins : Option Job → Option JsString
  | some (.appending sessionId ..) => some sessionId
  | some (.flushing sessionId _) => some sessionId
  | _ => none

def Job.Resident (loaded : JsString → Option LoadedSession) : Option Job → Prop
  | some (.appending sessionId _ array events _) => ∃ bytes, loaded sessionId = some ⟨array, events, bytes⟩
  | some (.flushing sessionId _) => ∃ entry, loaded sessionId = some entry
  | _ => True

structure CacheInv (m : Memory) (job : Option Job) : Prop where
  accounted : m.Accounted
  bounded : m.Bounded
  pinned : ∀ k, k ∈ m.pinned ↔ Job.pins job = some k
  resident : Job.Resident m.events.get job

variable {m m' : Memory} {job : Option Job} {k : JsString}

theorem Job.Resident.keep {loaded loaded' : JsString → Option LoadedSession} (h : Job.Resident loaded job)
    (hkeep : ∀ k, Job.pins job = some k → loaded' k = loaded k) : Job.Resident loaded' job := by
  unfold Job.Resident at h ⊢
  split
  · rename_i sessionId o array events written
    rw [hkeep sessionId rfl]
    exact h
  · rename_i sessionId event
    rw [hkeep sessionId rfl]
    exact h
  · trivial

theorem Job.Resident.loaded {loaded : JsString → Option LoadedSession} (h : Job.Resident loaded job)
    (hpins : Job.pins job = some k) : ∃ entry, loaded k = some entry := by
  cases job with
  | none => cases hpins
  | some job =>
    cases job with
    | appending k' o array events written =>
      cases hpins
      obtain ⟨bytes, h⟩ := h
      exact ⟨_, h⟩
    | flushing k' event =>
      cases hpins
      exact h
    | removing k' => cases hpins
    | forgetting k' => cases hpins

theorem CacheInv.pinned_eq_nil (h : CacheInv m job) (hjob : Job.pins job = none) : m.pinned = [] := by
  rw [List.eq_nil_iff_forall_not_mem]
  intro k hk
  have := (h.pinned k).mp hk
  rw [hjob] at this
  cases this

/-- The job of a memory that has pinned nothing may become any that pins nothing. -/
theorem CacheInv.idle (hacc : m.Accounted) (hbounded : m.Bounded) (hnil : m.pinned = [])
    (hjob : Job.pins job = none) :
    CacheInv m job where
  accounted := hacc
  bounded := hbounded
  pinned k := by simp [hnil, hjob]
  resident := by
    unfold Job.Resident
    split
    · cases hjob
    · cases hjob
    · trivial

theorem delete_pinned_eq_nil {pinned : List JsString} (h : ∀ k', k' ∈ pinned → k' = k) :
    OSet.delete pinned k = [] := by
  rw [List.eq_nil_iff_forall_not_mem]
  intro k' hk'
  obtain ⟨hmem, hne⟩ := OSet.mem_delete.mp hk'
  exact hne (h k' hmem)

theorem CacheInv.abandon (hacc : m.Accounted) (hpinned : ∀ k', k' ∈ m.pinned → k' = k) (hjob : Job.pins job = none) :
    CacheInv (m.abandon k) job :=
  .idle (hacc.abandon k) (Memory.bounded_abandon hacc k)
    (by rw [(Memory.abandon_frame ..).2.2]; exact delete_pinned_eq_nil hpinned) hjob

/-- The end of an append that is answered. -/
theorem CacheInv.release (hacc : m.Accounted) (hpinned : ∀ k', k' ∈ m.pinned → k' = k) (hjob : Job.pins job = none) :
    CacheInv (m.release k) job :=
  .idle (hacc.release k) (Memory.bounded_release hacc k)
    (by rw [(Memory.release_frame ..).2.2]; exact delete_pinned_eq_nil hpinned) hjob

/-! ### Steps -/

structure CacheLoad (m : Memory) (k : JsString) (entry : LoadedSession) (m' : Memory) : Prop where
  accounted : m'.Accounted
  bounded : m'.Bounded
  pinned : m'.pinned = m.pinned
  keeps : Loses (· ∈ m.pinned) (fun k' => if k = k' then some entry else m.events.get k') m'.events.get
  cached : ∀ cached, m.events.get k = some cached → m'.events.get = m.events.get ∧ entry = cached

variable {entry : LoadedSession}

private theorem cacheLoad_store {m₁ : Memory} (hacc : m.Accounted) (hget : m.events.get k = none)
    (hevents : m₁.events = m.events) (hpinned : m₁.pinned = m.pinned) (hbytes : m₁.cachedBytes = m.cachedBytes)
    (hcount : m₁.cachedEvents = m.cachedEvents) : CacheLoad m k entry (m₁.storeSession k entry) := by
  have hacc₁ : m₁.Accounted := hacc.of_eq hevents hbytes hcount
  have hlose := Memory.loses_storeSession m₁ k entry
  rw [hevents, hpinned] at hlose
  refine ⟨hacc₁.storeSession k entry, Memory.bounded_storeSession hacc₁ k entry, ?_, hlose, ?_⟩
  · rw [(Memory.storeSession_frame ..).2.2, hpinned]
  · intro cached hget'
    rw [hget] at hget'
    cases hget'

theorem loadSessionSync_cacheLoad {s s' : LedgerMachine} (hacc : s.memory.Accounted)
    (hbounded : s.memory.Bounded) (h : loadSessionSync s k = .ok (entry, s')) :
    CacheLoad s.memory k entry s'.memory ∧ s'.job = s.job := by
  unfold loadSessionSync at h
  split at h
  · rename_i cached hget
    cases h
    refine ⟨⟨hacc.touch hget, hbounded.touch hacc hget, rfl, ?_, ?_⟩, rfl⟩
    · intro k'
      left
      dsimp only
      rw [Memory.get_touch _ hget]
      split
      · rename_i hk
        rw [← hk, hget]
      · rfl
    · intro cached' hget'
      rw [hget] at hget'
      cases hget'
      exact ⟨Memory.get_touch _ hget, rfl⟩
  · rename_i hget
    dsimp only at h
    split at h <;> cases h
    exact ⟨cacheLoad_store hacc hget (by simp) (by simp) (by simp) (by simp), rfl⟩

/-- A load keeps what the append in flight has pinned. -/
theorem CacheInv.load {s s' : LedgerMachine} (h : CacheInv s.memory s.job)
    (hload : loadSessionSync s k = .ok (entry, s')) : CacheInv s'.memory s'.job := by
  obtain ⟨hl, hjob⟩ := loadSessionSync_cacheLoad h.accounted h.bounded hload
  rw [hjob]
  refine ⟨hl.accounted, hl.bounded, fun k' => by rw [hl.pinned]; exact h.pinned k', ?_⟩
  refine h.resident.keep fun k' hk' => ?_
  cases hget : s.memory.events.get k with
  | some cached => rw [(hl.cached cached hget).1]
  | none =>
    rcases hl.keeps k' with heq | ⟨-, hno⟩
    · refine heq.trans ?_
      by_cases hk : k = k'
      · -- the session of the append is resident, so that it is not loaded again
        obtain ⟨entry', hentry⟩ := h.resident.loaded hk'
        rw [← hk, hget] at hentry
        cases hentry
      · exact if_neg hk
    · exact absurd ((h.pinned k').mpr hk') hno

section

variable {diff : LineDiff} {contentVersion : JsString → JsString} {s s' : LedgerMachine}

section

variable (h : CacheInv s.memory s.job)
include h

theorem CacheInv.startAppend (diff : LineDiff) (contentVersion : JsString → JsString)
    (hnone : s.job = none) (k : JsString) (w : Workspace) (draft : LedgerEventDraft) (layout : Layout)
    (documentCommit : Bool) (time : JsString) :
    CacheInv (startAppend diff contentVersion s k w draft layout documentCommit time).1.memory
      (startAppend diff contentVersion s k w draft layout documentCommit time).1.job := by
  have hpins : Job.pins s.job = none := by rw [hnone]; rfl
  have hnil : s.memory.pinned = [] := h.pinned_eq_nil hpins
  have hmem : k ∈ OSet.add s.memory.pinned k := OSet.mem_add.mpr (Or.inr rfl)
  have hone : ∀ k', k' ∈ OSet.add s.memory.pinned k → k' = k := by
    intro k' hk'
    simpa [hnil] using hk'
  have hacc : Memory.Accounted { s.memory with pinned := OSet.add s.memory.pinned k } := h.accounted.of_eq rfl rfl rfl
  unfold Session.startAppend
  split
  · exact h
  dsimp only
  split
  · exact .abandon hacc hone hpins
  rename_i entry s₁ hload
  obtain ⟨hl, hjob⟩ := loadSessionSync_cacheLoad hacc (Memory.bounded_of_mem hmem) hload
  have hone₁ : ∀ k', k' ∈ s₁.memory.pinned → k' = k := by
    rw [hl.pinned]
    exact hone
  have hpins₁ : Job.pins s₁.job = none := by
    rw [hjob]
    exact hpins
  split
  · exact .abandon hl.accounted hone₁ hpins₁
  · exact .release hl.accounted hone₁ hpins₁
  refine ⟨hl.accounted, hl.bounded, ?_, ?_⟩
  · intro k'
    rw [hl.pinned]
    simp [Job.pins, hnil, eq_comm]
  · -- the timeline was loaded under its pin, so that it was not evicted
    have hresident : s₁.memory.events.get k = some entry := by
      rcases hl.keeps k with heq | ⟨-, hno⟩
      · exact heq.trans (if_pos rfl)
      · exact absurd hmem hno
    exact ⟨entry.bytes, hresident⟩

theorem CacheInv.finishWrite {k : JsString} {o : EventObject} {array : Nat}
    {events : List LedgerEvent} {written : Option Nat} (hjob : s.job = some (.appending k o array events written)) :
    CacheInv (finishWrite s k o array events).1.memory (finishWrite s k o array events).1.job := by
  have hresident := h.resident
  rw [hjob] at hresident
  obtain ⟨bytes, hget⟩ := hresident
  have hpinned : ∀ k', k' ∈ s.memory.pinned ↔ k = k' := by
    intro k'
    rw [h.pinned, hjob]
    exact Option.some_inj
  have hpush : (s.memory.push k array (events ++ [o.event]) ((lineOf o).length + 1)).Accounted :=
    h.accounted.push hget o.event ((lineOf o).length + 1)
  have hevents := Memory.get_push s.memory hget (events ++ [o.event]) ((lineOf o).length + 1)
  have hpins := (s.memory.push_frame k array (events ++ [o.event]) ((lineOf o).length + 1)).2.2
  unfold Session.finishWrite
  split
  · refine ⟨hpush.of_eq rfl rfl rfl, Memory.bounded_of_mem (k := k) ?_, ?_, ?_⟩
    · change k ∈ (s.memory.push k array (events ++ [o.event]) ((lineOf o).length + 1)).pinned
      rw [hpins, hpinned]
    · intro k'
      change k' ∈ (s.memory.push k array (events ++ [o.event]) ((lineOf o).length + 1)).pinned ↔ some k = some k'
      rw [hpins, hpinned, Option.some_inj]
    · refine ⟨_, (congrFun hevents k).trans (if_pos rfl)⟩
  · refine .release (hpush.of_eq rfl rfl rfl) ?_ rfl
    intro k' hk'
    change k' ∈ (s.memory.push k array (events ++ [o.event]) ((lineOf o).length + 1)).pinned at hk'
    rw [hpins, hpinned] at hk'
    exact hk'.symm

theorem CacheInv.finishFlush {job : Job} (hjob : s.job = some job) (ok : Bool) :
    CacheInv (finishFlush s job ok).1.memory (finishFlush s job ok).1.job := by
  have hpinned := h.pinned
  rw [hjob] at hpinned
  cases job with
  | flushing k event =>
    have hone : ∀ k', k' ∈ s.memory.pinned → k' = k := by
      intro k' hk'
      exact (Option.some.inj ((hpinned k').mp hk')).symm
    unfold Session.finishFlush
    dsimp only
    split
    · exact .release h.accounted hone rfl
    · exact .abandon h.accounted hone rfl
  | forgetting k =>
    have hnil : s.memory.pinned = [] := h.pinned_eq_nil (by rw [hjob]; rfl)
    unfold Session.finishFlush
    dsimp only
    split
    all_goals exact .idle h.accounted h.bounded hnil rfl
  | appending => exact h
  | removing => exact h

theorem CacheInv.loadPage (k : JsString) (afterSeq : Int) (limit : Option Int) :
    CacheInv (loadPage s k afterSeq limit).2.memory (loadPage s k afterSeq limit).2.job := by
  unfold Session.loadPage
  split
  · exact h
  rename_i entry s₁ hload
  split
  · exact h.load hload
  · exact h.load hload

theorem CacheInv.readPage (k : JsString) (afterSeq : Int) (limit : Option Int) :
    CacheInv (readPage s k afterSeq limit).2.memory (readPage s k afterSeq limit).2.job := by
  unfold Session.readPage
  split
  · exact h
  · rename_i cached _ hget
    have hload := loadSessionSync_cached hget
    exact h.load hload
  split
  · exact h
  split
  · split
    · exact h
    · exact h.loadPage k afterSeq limit
  · exact h.loadPage k afterSeq limit

theorem CacheInv.startDelete (hnone : s.job = none) (k : JsString) :
    CacheInv (startDelete s k).1.memory (startDelete s k).1.job := by
  have hnil : s.memory.pinned = [] := h.pinned_eq_nil (by rw [hnone]; rfl)
  unfold Session.startDelete
  split
  · exact h
  split
  · exact .idle ((h.accounted.dropSession k).of_eq rfl rfl rfl) ((h.bounded.dropSession k).of_eq rfl rfl rfl rfl)
      ((s.memory.dropSession_frame k).2.2.trans hnil) rfl
  · exact h

end

theorem restart_cache (s : LedgerMachine) (times : JsString → JsString × JsString) : (restart s times).memory.pinned =
    [] ∧ (restart s times).memory.cachedBytes = 0 ∧ (restart s times).memory.cachedEvents = 0 := by
  have hload (rows : List SessionSummary) : ∀ m : Memory, (rows.foldl loadIndexRow m).pinned = m.pinned ∧
      (rows.foldl loadIndexRow m).cachedBytes = m.cachedBytes ∧
      (rows.foldl loadIndexRow m).cachedEvents = m.cachedEvents := by
    induction rows with
    | nil => exact fun m => ⟨rfl, rfl, rfl⟩
    | cons row rows ih => exact fun m => ih (loadIndexRow m row)
  have hreconcile (files : OMap JsString TimelineFile) : ∀ m : Memory,
      (files.foldl (reconcileFile times) m).pinned = m.pinned ∧
      (files.foldl (reconcileFile times) m).cachedBytes = m.cachedBytes ∧
      (files.foldl (reconcileFile times) m).cachedEvents = m.cachedEvents := by
    induction files with
    | nil => exact fun m => ⟨rfl, rfl, rfl⟩
    | cons e files ih => exact fun m => ih (reconcileFile times m e)
  obtain ⟨h₁, h₂, h₃⟩ := hload (s.index.getD []) .empty
  obtain ⟨h₄, h₅, h₆⟩ := hreconcile s.files
    { loadIndexSync s.index with
      summaries := (loadIndexSync s.index).summaries.filter fun e => s.files.has e.1
      staleSummaries := (loadIndexSync s.index).staleSummaries.filter fun sessionId => s.files.has sessionId }
  exact ⟨h₄.trans h₁, h₅.trans h₂, h₆.trans h₃⟩

theorem CacheInv.restart (s : LedgerMachine) (times : JsString → JsString × JsString) :
    CacheInv (restart s times).memory (restart s times).job := by
  have hevents := restart_events s times
  obtain ⟨hpinned, hbytes, hcount⟩ := restart_cache s times
  refine .idle ⟨?_, ?_, ?_⟩ (fun _ => ?_) hpinned rfl
  · rw [hevents]
    exact List.nodup_nil
  · rw [hevents, hbytes]
    rfl
  · rw [hevents, hcount]
    rfl
  · rw [Memory.overCaps_eq_false_iff, hevents, hbytes, hcount]
    exact ⟨Nat.zero_le _, by decide, by decide⟩

/-- Every step keeps the cache. -/
theorem ledgerStep_cache {a : LedgerAction} {o : Outcome} (h : CacheInv s.memory s.job)
    (hstep : ledgerStep diff contentVersion s a = some (s', o)) : CacheInv s'.memory s'.job := by
  cases a <;> simp only [ledgerStep, Option.ite_none_right_eq_some] at hstep
  case append k w draft layout documentCommit time =>
    obtain ⟨hnone, hstep⟩ := hstep
    have hkeeps := h.startAppend diff contentVersion (by simpa using hnone) k w draft layout
      documentCommit time
    rw [Option.some.inj hstep] at hkeeps
    exact hkeeps
  case openFile =>
    split at hstep <;> cases hstep
    rename_i k obj array events hjob
    rw [hjob] at h
    exact ⟨h.accounted, h.bounded, h.pinned, h.resident⟩
  case writeBytes n =>
    split at hstep <;> cases hstep
    rename_i k obj array events written hjob
    rw [hjob] at h
    exact ⟨h.accounted, h.bounded, h.pinned, h.resident⟩
  case finishWrite =>
    split at hstep
    · rename_i k obj array events written hjob
      split at hstep
      · have hkeeps := h.finishWrite hjob
        rw [Option.some.inj hstep] at hkeeps
        exact hkeeps
      · cases hstep
    · cases hstep
  case failAppend code =>
    split at hstep <;> cases hstep
    rename_i k obj array events written hjob
    rw [hjob] at h
    exact .abandon h.accounted (fun k' hk' => (Option.some.inj ((h.pinned k').mp hk')).symm) rfl
  case beginFlush own =>
    obtain ⟨-, hstep⟩ := hstep
    cases hstep
    exact h
  case endFlush ok =>
    split at hstep
    · cases hstep
    rename_i flush _
    split at hstep
    · rename_i job hown hjob
      have hinv : CacheInv
          { s with index := if ok = true then some flush.rows else s.index, flush := none }.memory
          { s with index := if ok = true then some flush.rows else s.index, flush := none }.job := h
      have hkeeps := hinv.finishFlush hjob ok
      rw [Option.some.inj hstep] at hkeeps
      exact hkeeps
    · cases hstep
      exact h
  case read k =>
    unfold read at hstep
    cases hid : assertSessionId k <;> rw [hid] at hstep
    case error e =>
      cases hstep
      exact h
    case ok u =>
      cases hload : loadSessionSync s k <;> rw [hload] at hstep
      case error e =>
        cases hstep
        exact h
      case ok r =>
        cases hstep
        exact h.load hload
  case readPage k afterSeq limit =>
    have hpage := h.readPage k afterSeq limit
    cases hstep
    exact hpage
  case delete k =>
    obtain ⟨hnone, hstep⟩ := hstep
    have hkeeps := h.startDelete (by simpa using hnone) k
    rw [Option.some.inj hstep] at hkeeps
    exact hkeeps
  case removeFile ok =>
    split at hstep
    · rename_i k hjob
      rw [hjob] at h
      have hnil := h.pinned_eq_nil rfl
      split at hstep
      all_goals
        cases hstep
        exact .idle h.accounted h.bounded hnil rfl
    · cases hstep
  case restart times =>
    cases hstep
    exact CacheInv.restart s times

end

structure CacheSound (s : LedgerMachine) : Prop where
  bytes : s.memory.cachedBytes = (s.memory.events.weight (·.bytes) : Nat)
  events : s.memory.cachedEvents = (s.memory.events.weight fun entry => entry.events.length : Nat)
  nonneg : 0 ≤ s.memory.cachedBytes ∧ 0 ≤ s.memory.cachedEvents
  /-- The timeline of an append in flight is pinned and loaded, and stays so until the append has settled. -/
  inFlight : ∀ k, Job.pins s.job = some k → k ∈ s.memory.pinned ∧ s.memory.events.has k = true
  /-- The array a running write will grow is the one that is loaded. -/
  writing : ∀ k o array events written, s.job = some (.appending k o array events written) →
    ∃ bytes, s.memory.events.get k = some ⟨array, events, bytes⟩
  /-- Only an append in flight has a session pinned. -/
  settled : Job.pins s.job = none → s.memory.pinned = []
  caps : s.memory.pinned = [] → s.memory.events.length ≤ MAX_CACHED_SESSIONS ∧
    s.memory.cachedBytes ≤ MAX_CACHED_BYTES ∧ s.memory.cachedEvents ≤ MAX_CACHED_EVENTS

theorem CacheInv.sound {s : LedgerMachine} (h : CacheInv s.memory s.job) : CacheSound s where
  bytes := h.accounted.bytes
  events := h.accounted.events
  nonneg := by
    rw [h.accounted.bytes, h.accounted.events]
    exact ⟨Int.natCast_nonneg _, Int.natCast_nonneg _⟩
  inFlight k hk := by
    obtain ⟨entry, hentry⟩ := h.resident.loaded hk
    refine ⟨(h.pinned k).mpr hk, ?_⟩
    rw [OMap.has, hentry]
    rfl
  writing k o array events written hjob := by
    have hresident := h.resident
    rw [hjob] at hresident
    exact hresident
  settled := h.pinned_eq_nil
  caps hnil := Memory.overCaps_eq_false_iff.mp (h.bounded hnil)

/-- What is expected of `evictSessions`: its loop ends for the reason its code gives, and no pinned timeline is
lost. -/
structure Memory.EvictionSound (m : Memory) : Prop where
  ends : m.evictSessions.overCaps = false ∨
    ∀ k ∈ m.evictSessions.events.keys, k ∈ m.evictSessions.pinned
  keeps : ∀ k ∈ m.pinned, m.evictSessions.events.get k = m.events.get k

theorem Memory.evictionSound (m : Memory) : m.EvictionSound where
  ends := evictSessions_caps m
  keeps k hk := by
    rcases (evicted_evictSessions m).events k with heq | ⟨-, hno⟩
    · exact heq
    · exact absurd hk hno

/-- Over every run of the ledger the counters are the sums over the loaded timelines, the timeline of an append in
flight is pinned and loaded, and every cap holds whenever nothing is pinned; and eviction always ends. -/
theorem cache_accounted (diff : LineDiff) (contentVersion : JsString → JsString) (tr : List (LedgerAction × Outcome))
    (s : LedgerMachine) (h : Run (LedgerStep diff contentVersion) .initial tr s) :
    CacheSound s ∧ ∀ m : Memory, m.EvictionSound := by
  have hinitial : CacheInv LedgerMachine.initial.memory LedgerMachine.initial.job :=
    .idle Memory.accounted_empty (fun _ => by decide) rfl rfl
  have hinv := h.invariant (fun s => CacheInv s.memory s.job)
      (fun s e s' hs hstep => ledgerStep_cache hs hstep) hinitial
  exact ⟨hinv.sound, Memory.evictionSound⟩

def failedWriteActions : List LedgerAction :=
  appendActions titleDraft ++
    [.append (js "s") noDocuments titleDraft plainLayout false (js "2026-01-01T00:00:01.000Z"), .openFile,
      .writeBytes 3,
      .read (js "t"), .failAppend none, .read (js "s")]

private theorem exec_failedWriteActions :
    (exec (ledgerStep replaceAll id) .initial failedWriteActions).isSome = true := by
  decide

theorem cache_accounted_failedWrite :
    ∃ os s, Run (LedgerStep replaceAll id) .initial (failedWriteActions.zip os) s ∧ CacheSound s := by
  obtain ⟨⟨s, os⟩, hrun⟩ := Option.isSome_iff_exists.mp exec_failedWriteActions
  exact ⟨os, s, run_of_exec hrun, (cache_accounted replaceAll id _ s (run_of_exec hrun)).1⟩

end Wrenyard.Session
