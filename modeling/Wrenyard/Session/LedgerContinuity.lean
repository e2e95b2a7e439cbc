import Wrenyard.Session.DocumentDiff
import Wrenyard.Session.LedgerRows

/-!
# Continuity of the timelines

Over every run of the ledger (appends that succeed or fail anywhere, reads, pages, deletions, evictions, index writes,
crashes) the timeline of a session is numbered 1, 2, 3, ..., an event an append resolved with is in every later read
at its place until the file is removed, and every read is a prefix of every later one (`ledger_continuous`).

Two things break this.  A session that is read while its deletion waits for the removal of its file is loaded again,
and outlives the file: the next append goes on counting in a new file.  And a recalled memory that carries a step
comes back without it once its timeline is reloaded.  The runs of the theorem are those where neither happens.
-/

namespace Wrenyard.Session

open Js Transition

variable {diff : LineDiff} {contentVersion : JsString → JsString}

variable {events : List LedgerEvent}

private theorem searchSeqAfter_eq (h : Numbered events) (afterSeq : Int) (rounds : Nat) : ∀ low high, high ≤
    low + rounds → high ≤ events.length → low ≤ min events.length afterSeq.toNat → min events.length afterSeq.toNat ≤
    high → searchSeqAfter events afterSeq low high rounds = min events.length afterSeq.toNat := by
  induction rounds with
  | zero =>
    intro low high hr hh hl hu
    rw [searchSeqAfter]
    omega
  | succ rounds ih =>
    intro low high hr hh hl hu
    rw [searchSeqAfter]
    split
    · have hmid : (low + high) / 2 < events.length := by omega
      have hget : events[(low + high) / 2]? = some events[(low + high) / 2] := List.getElem?_eq_getElem hmid
      have hseq := h.seq_of_getElem? hget
      dsimp only
      rw [hget]
      dsimp only
      split
      · apply ih <;> omega
      · apply ih <;> omega
    · omega

theorem firstSeqAfter_eq (h : Numbered events) (afterSeq : Int) :
    firstSeqAfter events afterSeq = min events.length afterSeq.toNat :=
  searchSeqAfter_eq h afterSeq events.length 0 events.length (by omega) (by omega) (by omega) (by omega)

theorem pageOf_past (h : Numbered events) {afterSeq : Int} (limit : Option Int)
    (hpast : (events.length : Int) ≤ afterSeq) : pageOf events afterSeq limit = ⟨[], events.length, false⟩ := by
  have hstart : firstSeqAfter events afterSeq = events.length := by
    rw [firstSeqAfter_eq h]
    omega
  unfold pageOf
  rw [hstart, h.lastSeq_eq]
  simp

theorem readPage_page {P : LedgerEventDraft → Prop} {s : LedgerMachine} {k : JsString}
    (hreload : ∀ e : LedgerEvent, P e.reload.toLedgerEventDraft) (hinv : TimelineInv P s.view) (hrows : RowsInv s)
    (hjob : s.job ≠ some (.removing k)) {afterSeq : Int} {limit : Option Int} {k' : JsString} {page : LedgerPage}
    (h : (readPage s k afterSeq limit).1 = .page k' page) :
    k' = k ∧ page = pageOf (s.view.visible k) afterSeq limit := by
  obtain ⟨entry, s', hload, hl⟩ := hinv.loads hreload hjob
  have hloadPage : (loadPage s k afterSeq limit).1 = .page k' page →
      k' = k ∧ page = pageOf (s.view.visible k) afterSeq limit := by
    intro h
    unfold loadPage at h
    rw [hload] at h
    dsimp only at h
    split at h <;> cases h
    exact ⟨rfl, by rw [hl.events]⟩
  unfold readPage at h
  split at h
  · cases h
  · rename_i cached _ hget
    cases h
    exact ⟨rfl, by rw [TimelineView.visible_loaded hget]⟩
  rename_i _ hget
  split at h
  · cases h
  split at h
  · rename_i tail htail
    split at h
    · rename_i hpast
      cases h
      -- the row is not stale, so its tail is the number of events of the file
      obtain ⟨hfresh, htail⟩ := Option.ite_none_left_eq_some.1 htail
      obtain ⟨row, hrow, hlast⟩ := Option.bind_eq_some_iff.mp htail
      have hdesc := hrows.fresh k row hrow (by simpa using hfresh)
      rw [committed_of_idle (hinv.lineFor_unloaded hget)] at hdesc
      have hlen : tail = (s.view.visible k).length := by
        rw [TimelineView.visible_unloaded hget]
        have := hdesc.lastSeq
        rw [hlast] at this
        rw [Option.some.inj this]
        simp [LedgerMachine.view, TimelineFile.events]
      rw [pageOf_past (hinv.numbered_visible k) _ (by rw [← hlen]; exact hpast), hlen]
      exact ⟨rfl, rfl⟩
    · exact hloadPage h
  · exact hloadPage h

def Plain (draft : LedgerEventDraft) : Prop := draft.recalledInStep = false

instance (draft : LedgerEventDraft) : Decidable (Plain draft) := inferInstanceAs (Decidable (_ = _))

/-- No session is read while its deletion waits for the removal of its file, and no appended draft is a recalled
memory that carries a step. -/
def Careful (s : LedgerMachine) (a : LedgerAction) : Prop := Settled s a ∧ Admits Plain a

def CarefulStep (diff : LineDiff) (contentVersion : JsString → JsString) (s : LedgerMachine)
    (e : LedgerAction × Outcome) (s' : LedgerMachine) : Prop :=
  LedgerStep diff contentVersion s e s' ∧ Careful s e.1

/-- The careful steps that do not create a file the index still has a row of. -/
def ListedStep (diff : LineDiff) (contentVersion : JsString → JsString) (s : LedgerMachine)
    (e : LedgerAction × Outcome) (s' : LedgerMachine) : Prop :=
  CarefulStep diff contentVersion s e s' ∧ Unlisted s e.1

theorem plain_reload (e : LedgerEvent) : Plain e.reload.toLedgerEventDraft := by
  obtain ⟨⟨turn, step, body⟩, seq, time⟩ := e
  cases body <;> rfl

theorem eq_of_reload_eq {e e' : LedgerEvent} (he : Plain e.toLedgerEventDraft) (he' : Plain e'.toLedgerEventDraft)
    (h : e.reload = e'.reload) : e = e' := by
  rwa [LedgerEvent.reload_eq he, LedgerEvent.reload_eq he'] at h

variable {s s' : LedgerMachine} {a : LedgerAction} {o : Outcome} {tr : List (LedgerAction × Outcome)} {k : JsString}

theorem carefulStep_keeps (hinv : TimelineInv Plain s.view) {e : LedgerAction × Outcome}
    (h : CarefulStep diff contentVersion s e s') : StepKeeps Plain s e.2 s' :=
  ledgerStep_keeps plain_reload (fun _ _ => rfl) hinv h.2.1 h.2.2 h.1

theorem timelineInv_initial (P : LedgerEventDraft → Prop) : TimelineInv P LedgerMachine.initial.view := by
  refine ⟨?_, ?_, ?_, ?_, ?_, ?_, ?_⟩ <;>
    simp [LedgerMachine.view, LedgerMachine.initial, Memory.empty, fileOf, TimelineFile.empty,
      TimelineFile.stored, Numbered]

variable (hinv : TimelineInv Plain s.view)
include hinv

theorem carefulRun_inv (h : Run (CarefulStep diff contentVersion) s tr s') :
    TimelineInv Plain s'.view :=
  h.invariant (fun s => TimelineInv Plain s.view) (fun _ _ _ hinv hstep => (carefulStep_keeps hinv hstep).inv) hinv

theorem carefulRun_extends (h : Run (CarefulStep diff contentVersion) s tr s')
    (hremoved : ∀ e ∈ tr, e.2 ≠ .removed k) : s.view.Extends s'.view k := by
  have hstep : ∀ s e s', TimelineInv Plain s.view → e.2 ≠ .removed k → CarefulStep diff contentVersion s e s' →
      TimelineInv Plain s'.view ∧ s.view.Extends s'.view k := by
    intro s e s' hinv hne hstep
    have hkeeps := carefulStep_keeps hinv hstep
    exact ⟨hkeeps.inv, hkeeps.grows k hne⟩
  exact h.related (fun s => TimelineInv Plain s.view) (fun s s' => s.view.Extends s'.view k)
    (fun e => e.2 ≠ .removed k)
    (fun s => TimelineView.Extends.refl s.view k) (fun _ _ _ => TimelineView.Extends.trans) hstep hinv hremoved

theorem getElem?_of_visible {e : LedgerEvent} (hevents : events = s.view.visible k)
    (hplain : ∀ e ∈ events, Plain e.toLedgerEventDraft) (he : Plain e.toLedgerEventDraft)
    (hmem : e.reload ∈ (s.view.visible k).map (·.reload)) : events[e.seq - 1]? = some e := by
  rw [← hevents] at hmem
  obtain ⟨e', he', hreload⟩ := List.mem_map.mp hmem
  have heq : e' = e := eq_of_reload_eq (hplain e' he') he hreload
  rw [← heq]
  apply Numbered.getElem?_of_mem _ he'
  rw [hevents]
  exact hinv.numbered_visible k

omit hinv

theorem prefix_of_extends {events' : List LedgerEvent} (hplain : ∀ e ∈ events, Plain e.toLedgerEventDraft)
    (hplain' : ∀ e ∈ events', Plain e.toLedgerEventDraft) (h : events.map (·.reload) <+: events'.map (·.reload)) :
    events <+: events' := by
  have hid : ∀ es : List LedgerEvent, (∀ e ∈ es, Plain e.toLedgerEventDraft) → es.map (·.reload) = es := by
    intro es hes
    calc es.map (·.reload) = es.map id := List.map_congr_left fun e he => LedgerEvent.reload_eq (hes e he)
      _ = es := List.map_id es
  rwa [hid events hplain, hid events' hplain'] at h

theorem TimelineInv.plain_visible (hinv : TimelineInv Plain s.view) (k : JsString) :
    ∀ e ∈ s.view.visible k, Plain e.toLedgerEventDraft := by
  intro e he
  unfold TimelineView.visible at he
  split at he
  · rename_i entry hl
    exact hinv.plain k entry hl e he
  · obtain ⟨obj, -, rfl⟩ := List.mem_map.mp he
    exact plain_reload obj.event

/-- Nothing of `tr` removes the file of the session. -/
def KeepsFile (k : JsString) (tr : List (LedgerAction × Outcome)) : Prop := ∀ e ∈ tr, e.2 ≠ .removed k

/-- What is expected of a run of the ledger: the files it leaves are numbered, an event an append resolved with is at
its place in every later read, and every read is a prefix of every later one, as long as the file is not removed. -/
structure Continuous (tr : List (LedgerAction × Outcome)) (s : LedgerMachine) : Prop where
  numbered : ∀ k f, s.files.get k = some f → Numbered f.stored
  resolved : ∀ before a k e between a' events after,
    tr = before ++ (a, .resolved k (some e)) :: (between ++ (a', .timeline k events) :: after) → KeepsFile k between →
    events[e.seq - 1]? = some e
  reads : ∀ before a k events between a' events' after,
    tr = before ++ (a, .timeline k events) :: (between ++ (a', .timeline k events') :: after) → KeepsFile k between →
    events <+: events'

/-- What is expected of the pages of a run: each is the page of a timeline that has every event an earlier append
resolved with at its place, and that lies between the earlier and the later reads. -/
def PagesContinuous (tr : List (LedgerAction × Outcome)) : Prop :=
  ∀ before k afterSeq limit k' page after, tr = before ++ (.readPage k afterSeq limit, .page k' page) :: after →
    ∃ events, page = pageOf events afterSeq limit ∧
      (∀ before' a e between, before = before' ++ (a, .resolved k (some e)) :: between → KeepsFile k between →
        events[e.seq - 1]? = some e) ∧
      (∀ before' a events' between, before = before' ++ (a, .timeline k events') :: between → KeepsFile k between →
        events' <+: events) ∧
      ∀ between a events' after', after = between ++ (a, .timeline k events') :: after' → KeepsFile k between →
        events <+: events'

theorem careful_continuous (h : Run (CarefulStep diff contentVersion) .initial tr s) : Continuous tr s := by
  have hinit := timelineInv_initial Plain
  refine ⟨?_, ?_, ?_⟩
  · intro k f hf
    have hnum := (carefulRun_inv hinit h).numbered k
    have hfile : s.view.file k = f := by simp [LedgerMachine.view, fileOf, hf]
    rwa [hfile] at hnum
  · intro before a k e between a' events after htr hkeeps
    rw [htr] at h
    obtain ⟨s₁, s₂, hbefore, hresolve, hrest⟩ := h.split_at
    obtain ⟨s₃, s₄, hbetween, hread, -⟩ := hrest.split_at
    have h₁ := carefulRun_inv hinit hbefore
    have hk₂ := carefulStep_keeps h₁ hresolve
    have h₃ := carefulRun_inv hk₂.inv hbetween
    obtain ⟨hevents, hplain⟩ := (carefulStep_keeps h₃ hread).reads k events rfl
    obtain ⟨he, hmem⟩ := hk₂.resolves k e rfl
    exact getElem?_of_visible h₃ hevents hplain he ((carefulRun_extends hk₂.inv hbetween hkeeps).mem hmem)
  · intro before a k events between a' events' after htr hkeeps
    rw [htr] at h
    obtain ⟨s₁, s₂, hbefore, hread, hrest⟩ := h.split_at
    obtain ⟨s₃, s₄, hbetween, hread', -⟩ := hrest.split_at
    have h₁ := carefulRun_inv hinit hbefore
    have hk₂ := carefulStep_keeps h₁ hread
    have h₃ := carefulRun_inv hk₂.inv hbetween
    obtain ⟨hevents, hplain⟩ := hk₂.reads k events rfl
    obtain ⟨hevents', hplain'⟩ := (carefulStep_keeps h₃ hread').reads k events' rfl
    refine prefix_of_extends hplain hplain' ?_
    rw [hevents, hevents']
    exact (hk₂.grows k (by simp)).trans (carefulRun_extends hk₂.inv hbetween hkeeps)

/-- Both invariants along runs that create no listed file. -/
theorem listedRun_rows (hinv : TimelineInv Plain s.view) (hrows : RowsInv s)
    (h : Run (ListedStep diff contentVersion) s tr s') : TimelineInv Plain s'.view ∧ RowsInv s' := by
  have hstep : ∀ s e s', TimelineInv Plain s.view ∧ RowsInv s → ListedStep diff contentVersion s e s' →
      TimelineInv Plain s'.view ∧ RowsInv s' := by
    intro s e s' hs hstep
    exact ⟨(carefulStep_keeps hs.1 hstep.1).inv,
      ledgerStep_rows plain_reload hs.2 hs.1 hstep.1.2.1 hstep.2 hstep.1.1⟩
  exact h.invariant (fun s => TimelineInv Plain s.view ∧ RowsInv s) hstep ⟨hinv, hrows⟩

theorem listed_pagesContinuous (h : Run (ListedStep diff contentVersion) .initial tr s) : PagesContinuous tr := by
  intro before k afterSeq limit k' page after htr
  rw [htr] at h
  obtain ⟨s₁, s₂, hbefore, hpage, hafter⟩ := h.split_at
  obtain ⟨h₁, hrows₁⟩ := listedRun_rows (timelineInv_initial Plain) rowsInv_initial hbefore
  have hk₂ := carefulStep_keeps h₁ hpage.1
  have hcareful : ∀ {s tr s'}, Run (ListedStep diff contentVersion) s tr s' →
      Run (CarefulStep diff contentVersion) s tr s' :=
    fun hr => hr.mono fun _ _ _ hs => hs.1
  have hout : (readPage s₁ k afterSeq limit).1 = .page k' page := by
    have hstep := hpage.1.1
    exact congrArg Prod.snd (Option.some.inj hstep)
  obtain ⟨rfl, hpageOf⟩ := readPage_page plain_reload h₁ hrows₁ hpage.1.2.1 hout
  refine ⟨s₁.view.visible k', hpageOf, ?_, ?_, ?_⟩
  · intro before' a e between hb hkeeps
    rw [hb] at hbefore
    obtain ⟨s₃, s₄, hb₁, hresolve, hb₂⟩ := hbefore.split_at
    have h₃ := (listedRun_rows (timelineInv_initial Plain) rowsInv_initial hb₁).1
    have hk₄ := carefulStep_keeps h₃ hresolve.1
    obtain ⟨he, hmem⟩ := hk₄.resolves k' e rfl
    exact getElem?_of_visible h₁ rfl (h₁.plain_visible k') he
      ((carefulRun_extends hk₄.inv (hcareful hb₂) hkeeps).mem hmem)
  · intro before' a events' between hb hkeeps
    rw [hb] at hbefore
    obtain ⟨s₃, s₄, hb₁, hread, hb₂⟩ := hbefore.split_at
    have h₃ := (listedRun_rows (timelineInv_initial Plain) rowsInv_initial hb₁).1
    have hk₄ := carefulStep_keeps h₃ hread.1
    obtain ⟨hevents, hplain⟩ := hk₄.reads k' events' rfl
    refine prefix_of_extends hplain (h₁.plain_visible k') ?_
    rw [hevents]
    exact (hk₄.grows k' (by simp)).trans (carefulRun_extends hk₄.inv (hcareful hb₂) hkeeps)
  · intro between a events' after' ha hkeeps
    rw [ha] at hafter
    obtain ⟨s₃, s₄, ha₁, hread, -⟩ := hafter.split_at
    have h₃ := carefulRun_inv hk₂.inv (hcareful ha₁)
    obtain ⟨hevents, hplain⟩ := (carefulStep_keeps h₃ hread.1).reads k' events' rfl
    refine prefix_of_extends (h₁.plain_visible k') hplain ?_
    rw [hevents]
    exact (hk₂.grows k' (by simp)).trans (carefulRun_extends hk₂.inv (hcareful ha₁) hkeeps)

/-- Over every run of careful steps the timelines are continuous; and so are the pages, when moreover no append
creates a file the index still has a row of. -/
theorem ledger_continuous (diff : LineDiff) (contentVersion : JsString → JsString)
    (tr : List (LedgerAction × Outcome)) (s : LedgerMachine)
    (h : Run (CarefulStep diff contentVersion) .initial tr s) :
    Continuous tr s ∧ (Run (ListedStep diff contentVersion) .initial tr s → PagesContinuous tr) :=
  ⟨careful_continuous h, listed_pagesContinuous⟩

instance (job : Option Job) (k : JsString) : Decidable (job = some (.removing k)) :=
  match job with
  | some (.removing k') => decidable_of_iff (k' = k) (by simp)
  | some (.appending ..) => isFalse (by simp)
  | some (.flushing ..) => isFalse (by simp)
  | some (.forgetting ..) => isFalse (by simp)
  | none => isFalse (by simp)

instance (s : LedgerMachine) (a : LedgerAction) : Decidable (Settled s a) :=
  match a with
  | .read k => inferInstanceAs (Decidable (s.job ≠ some (.removing k)))
  | .readPage k _ _ => inferInstanceAs (Decidable (s.job ≠ some (.removing k)))
  | .append .. | .openFile | .writeBytes _ | .finishWrite | .failAppend _ | .beginFlush _ | .endFlush _ | .delete _
  | .removeFile _ | .restart _ => isTrue trivial

instance (a : LedgerAction) : Decidable (Admits Plain a) :=
  match a with
  | .append _ _ draft _ _ _ => inferInstanceAs (Decidable (Plain draft))
  | .read _ | .readPage .. | .openFile | .writeBytes _ | .finishWrite | .failAppend _ | .beginFlush _ | .endFlush _
  | .delete _ | .removeFile _ | .restart _ => isTrue trivial

instance (s : LedgerMachine) (a : LedgerAction) : Decidable (Unlisted s a) :=
  match a with
  | .openFile => inferInstanceAs (Decidable (∀ k ∈ Job.opens s.job, s.files.has k = false →
      ∀ row ∈ s.index.getD [], row.sessionId ≠ k))
  | .append .. | .read _ | .readPage .. | .writeBytes _ | .finishWrite | .failAppend _ | .beginFlush _ | .endFlush _
  | .delete _ | .removeFile _ | .restart _ => isTrue trivial

/-- A caller whose members stand in the fixed order. -/
def plainLayout : Layout := ⟨fun draft => ⟨draft, draft.members, List.Perm.refl _⟩, fun _ => rfl⟩

def noDocuments : Workspace := ⟨fun _ => .absent, fun _ => false⟩

/-- The steps of an append of the draft to session `s` that does not flush the index. -/
def appendActions (draft : LedgerEventDraft) : List LedgerAction :=
  [.append (js "s") noDocuments draft plainLayout false (js "2026-01-01T00:00:00.000Z"), .openFile, .writeBytes 1000,
    .finishWrite]

def titleDraft : LedgerEventDraft where
  turn := none
  step := none
  body := .sessionTitled { parent := none, text := js "a", manual := none }

def ghostActions : List LedgerAction :=
  appendActions titleDraft ++
    [.delete (js "s"), .read (js "s"), .removeFile true, .beginFlush true, .endFlush true] ++ appendActions titleDraft

def recallActions : List LedgerAction :=
  appendActions stepRecall.toLedgerEventDraft ++ [.restart fun _ => ([], []), .read (js "s")]

/-- The recalled memory as the append resolves with it. -/
def storedRecall : LedgerEvent := { stepRecall with seq := 1 }

private theorem exec_ghostActions :
    ((exec (ledgerStep replaceAll id) .initial ghostActions).map fun r =>
      (r.1.files.get (js "s")).map fun f => f.stored.map (·.seq)) = some (some [2]) := by
  decide

private theorem exec_recallActions :
    (exec (ledgerStep replaceAll id) .initial recallActions).map (·.2) =
      some [.silent, .silent, .silent, .resolved (js "s") (some storedRecall), .silent,
        .timeline (js "s") [storedRecall.reload]] := by
  decide +kernel

/-- A session read during its deletion goes on in a new file at number 2, and a recalled memory is read back without
its step. -/
theorem ledger_not_continuous :
    (¬ ∀ (diff : LineDiff) (contentVersion : JsString → JsString) (tr : List (LedgerAction × Outcome))
      (s : LedgerMachine), Run (LedgerStep diff contentVersion) .initial tr s →
      ∀ k f, s.files.get k = some f → Numbered f.stored) ∧
    ¬ ∀ (diff : LineDiff) (contentVersion : JsString → JsString) (tr : List (LedgerAction × Outcome))
      (s : LedgerMachine), Run (LedgerStep diff contentVersion) .initial tr s → Continuous tr s := by
  constructor
  · intro h
    have hexec := exec_ghostActions
    rw [Option.map_eq_some_iff] at hexec
    obtain ⟨⟨s, os⟩, hrun, hfile⟩ := hexec
    obtain ⟨f, hf, hseq⟩ := Option.map_eq_some_iff.mp hfile
    have hnum := h replaceAll id _ s (run_of_exec hrun) (js "s") f hf
    have hlen : f.stored.length = 1 := by
      have := congrArg List.length hseq
      simpa using this
    rw [Numbered, hseq, hlen] at hnum
    exact absurd hnum (by decide)
  · intro h
    have hexec := exec_recallActions
    rw [Option.map_eq_some_iff] at hexec
    obtain ⟨⟨s, os⟩, hrun, hos⟩ := hexec
    subst hos
    have hcont := h replaceAll id _ s (run_of_exec hrun)
    have hread := hcont.resolved (recallActions.zip [.silent, .silent, .silent]) .finishWrite (js "s") storedRecall
      [(.restart fun _ => ([], []), .silent)] (.read (js "s")) [storedRecall.reload] [] rfl (by simp [KeepsFile])
    exact absurd hread (by decide)

def titledActions : List LedgerAction :=
  appendActions titleDraft ++
    [.read (js "s"), .restart fun _ => ([], []), .read (js "s"), .readPage (js "s") 0 (some 10)]

theorem listed_of_exec {os : List Outcome}
    (h : exec (guarded (fun s a => decide (Settled s a ∧ Admits Plain a ∧ Unlisted s a))
      (ledgerStep replaceAll id)) .initial
      titledActions = some (s, os)) : Run (ListedStep replaceAll id) .initial (titledActions.zip os) s := by
  refine (run_of_exec h).mono ?_
  intro s e s' hstep
  obtain ⟨hstep, hallowed⟩ := stepOf_guarded hstep
  obtain ⟨hsettled, hadmits, hunlisted⟩ := of_decide_eq_true hallowed
  exact ⟨⟨hstep, hsettled, hadmits⟩, hunlisted⟩

private theorem exec_titledActions :
    (exec (guarded (fun s a => decide (Settled s a ∧ Admits Plain a ∧ Unlisted s a))
      (ledgerStep replaceAll id)) .initial
      titledActions).isSome = true := by
  decide

theorem ledger_continuous_titled : ∃ os s, Run (CarefulStep replaceAll id) .initial (titledActions.zip os) s ∧
    os.length = 8 ∧ Continuous (titledActions.zip os) s ∧ PagesContinuous (titledActions.zip os) := by
  obtain ⟨⟨s, os⟩, hrun⟩ := Option.isSome_iff_exists.mp exec_titledActions
  have hlisted := listed_of_exec hrun
  have hcareful : Run (CarefulStep replaceAll id) .initial (titledActions.zip os) s :=
    hlisted.mono fun _ _ _ hstep => hstep.1
  obtain ⟨hcont, hpages⟩ := ledger_continuous replaceAll id _ s hcareful
  exact ⟨os, s, hcareful, length_of_exec hrun, hcont, hpages hlisted⟩

end Wrenyard.Session
