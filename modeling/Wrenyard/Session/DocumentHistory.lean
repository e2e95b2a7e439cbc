import Wrenyard.Session.DocumentDiff
import Wrenyard.Session.DocumentCommit

/-!
# Documents are reconstructible from the ledger

A run is any sequence of appends, document commits, edits of the workspace by others, reloads of a timeline and
session deletions, with a fault in any of them.  Beside the state it keeps a log of what reached the timelines: the
snapshot of an accepted `document.content` draft, and the content or the deletion of a commit.

`currentDocument` agrees with the last record of the log for every session and path.  The stored events are diffs, so
this rests on the round trip of `DocumentDiff`, and on the versions of the texts of the run being distinct, since an
append whose version is the current one stores nothing.
-/

namespace Wrenyard.Session

open Js List Option

structure DocumentRecord where
  sessionId : JsString
  path : JsString
  snapshot : Option JsString

def lastRecord (log : List DocumentRecord) (sessionId path : JsString) : Option DocumentRecord :=
  log.reverse.find? fun r => r.sessionId == sessionId && r.path == path

def lastSnapshot (log : List DocumentRecord) (sessionId path : JsString) : Option JsString :=
  (lastRecord log sessionId path).bind (·.snapshot)

def AppendResult.recorded : AppendResult → Bool
  | .returned _ => true
  | .rejected _ => false
  | .failed fault => fault.kept

def LedgerEventDraft.snapshot? (draft : LedgerEventDraft) : Option DocumentContentEvent :=
  match draft.body with
  | .documentContent d => some d
  | _ => none

def appendRecords (sessionId : JsString) (draft : LedgerEventDraft) (result : AppendResult) : List DocumentRecord :=
  match draft.snapshot? with
  | some d => if result.recorded then [⟨sessionId, d.path, some d.content⟩] else []
  | none => []

/-- The commit's snapshot or deletion is in the timeline: it succeeded, or failed after that line was written. -/
def commitRecorded (input : DocumentCommit) (fault : Option CommitFault) (result : Except LedgerError Unit) : Bool :=
  match result, fault with
  | .ok _, _ => true
  | .error e, some (.content f) => e.code == some (js "history_failed") && f.kept
  | .error e, some (.receipt f) => e.code == some (js "history_failed") && (input.content.isSome || f.kept)
  | .error e, some (.sync _) => e.code == some (js "history_failed")
  | .error _, _ => false

def commitRecords (input : DocumentCommit) (fault : Option CommitFault) (result : Except LedgerError Unit) :
    List DocumentRecord :=
  match input.context with
  | none => []
  | some context =>
    if commitRecorded input fault result then [⟨context.sessionId, input.path, input.content⟩] else []

/-- One operation of the system. -/
inductive DocumentOp where
  | append (sessionId : JsString) (draft : LedgerEventDraft) (time : JsString) (fault : Option WriteFault)
  | commit (input : DocumentCommit) (contentAt receiptAt : JsString) (fault : Option CommitFault)
  /-- Another program changes the workspace. -/
  | edit (workspace : Workspace)
  /-- A timeline is read from its file again. -/
  | reload (sessionId : JsString)
  | deleteSession (sessionId : JsString)

def DocumentOp.paths : DocumentOp → List JsString
  | .append _ draft _ _ => (draft.snapshot?.map (·.path)).toList
  | .commit input _ _ _ => [input.path]
  | _ => []

def DocumentOp.texts : DocumentOp → List JsString
  | .append _ draft _ _ => (draft.snapshot?.map (·.content)).toList
  | .commit input _ _ _ => input.content.toList
  | _ => []

section

variable (diff : LineDiff) (contentVersion : JsString → JsString) (encodeLength : JsString → Nat)

def DocumentOp.step (s : LedgerState) (log : List DocumentRecord) : DocumentOp → LedgerState × List DocumentRecord
  | .append sessionId draft time fault =>
    let (result, events) :=
      appendNow diff contentVersion s.workspace sessionId (s.timelines sessionId) draft false time fault
    ({ s with timelines := Function.update s.timelines sessionId events },
      log ++ appendRecords sessionId draft result)
  | .commit input contentAt receiptAt fault =>
    let (result, s) := Session.commit diff contentVersion encodeLength s input contentAt receiptAt fault
    (s, log ++ commitRecords input fault result)
  | .edit workspace => ({ s with workspace }, log)
  | .reload sessionId =>
    ({ s with timelines := Function.update s.timelines sessionId ((s.timelines sessionId).map LedgerEvent.reload) },
      log)
  | .deleteSession sessionId =>
    ({ s with timelines := Function.update s.timelines sessionId [] }, log.filter (·.sessionId ≠ sessionId))

def runDocuments (workspace : Workspace) (ops : List DocumentOp) : LedgerState × List DocumentRecord :=
  ops.foldl (fun t op => op.step diff contentVersion encodeLength t.1 t.2) (⟨workspace, fun _ => []⟩, [])

end

variable (log : List DocumentRecord)

theorem lastRecord_snoc (r : DocumentRecord) (sessionId path : JsString) :
    lastRecord (log ++ [r]) sessionId path =
      if r.sessionId = sessionId ∧ r.path = path then some r else lastRecord log sessionId path := by
  rw [lastRecord, reverse_append, reverse_singleton, singleton_append, List.find?_cons]
  by_cases h : r.sessionId = sessionId ∧ r.path = path
  · have hb : (r.sessionId == sessionId && r.path == path) = true := by simp [h.1, h.2]
    rw [if_pos h, hb]
  have hb : (r.sessionId == sessionId && r.path == path) = false := by
    rw [Bool.and_eq_false_iff, beq_eq_false_iff_ne, beq_eq_false_iff_ne]
    exact not_and_or.1 h
  rw [if_neg h, hb]
  rfl

theorem lastSnapshot_snoc (sessionId path : JsString) (snapshot : Option JsString)
    (sessionId' : JsString) :
    lastSnapshot (log ++ [⟨sessionId, path, snapshot⟩]) sessionId' =
      if sessionId = sessionId' then Function.update (lastSnapshot log sessionId') path snapshot
      else lastSnapshot log sessionId' := by
  funext p
  rw [lastSnapshot, lastRecord_snoc]
  by_cases hs : sessionId = sessionId'
  · rw [if_pos hs]
    by_cases hp : path = p
    · rw [if_pos ⟨hs, hp⟩, ← hp, Function.update_self]
      rfl
    · rw [if_neg (fun h => hp h.2), Function.update_of_ne (fun h => hp h.symm)]
      rfl
  · rw [if_neg hs, if_neg (fun h => hs h.1)]
    rfl

theorem lastSnapshot_filter (sessionId sessionId' : JsString) :
    lastSnapshot (log.filter (·.sessionId ≠ sessionId)) sessionId' =
      if sessionId = sessionId' then fun _ => none else lastSnapshot log sessionId' := by
  funext p
  have hfind : ∀ l : List DocumentRecord,
      (l.filter (·.sessionId ≠ sessionId)).find? (fun r => r.sessionId == sessionId' && r.path == p) =
        if sessionId = sessionId' then none else l.find? (fun r => r.sessionId == sessionId' && r.path == p) := by
    intro l
    rw [List.find?_filter]
    split
    · rename_i hs
      rw [List.find?_eq_none]
      intro r _ hr
      simp only [Bool.and_eq_true, decide_eq_true_eq, beq_iff_eq] at hr
      exact hr.1 (hr.2.1.trans hs.symm)
    · rename_i hs
      congr 1
      funext r
      rw [Bool.eq_iff_iff]
      by_cases hr : r.sessionId = sessionId'
      · have hne : r.sessionId ≠ sessionId := fun h => hs (h.symm.trans hr)
        simp [hne]
      · simp [hr]
  rw [lastSnapshot, lastRecord, ← filter_reverse, hfind]
  by_cases hs : sessionId = sessionId'
  · rw [if_pos hs, if_pos hs]
    rfl
  · rw [if_neg hs, if_neg hs]
    rfl

section

variable {diff : LineDiff} {contentVersion : JsString → JsString} {encodeLength : JsString → Nat}

/-- What `currentDocument` says of a text. -/
def viewOf (contentVersion : JsString → JsString) (text : JsString) : DocumentView := ⟨text, contentVersion text⟩

/-- Every document of the timeline is reconstructible: `last` is its last recorded text, one of `texts`, and an event
of its version exists. -/
structure Reconstructs (contentVersion : JsString → JsString) (texts : Set JsString) (events : List LedgerEvent)
    (last : JsString → Option JsString) : Prop where
  current : ∀ path, currentDocument contentVersion events path = .ok ((last path).map (viewOf contentVersion))
  mem_texts : ∀ path text, last path = some text → text ∈ texts
  exists_event : ∀ path text, last path = some text → ∃ e ∈ events, isContentOf path (contentVersion text) e = true

theorem currentDocument_snoc (events : List LedgerEvent) (event : LedgerEvent) (path : JsString) :
    currentDocument contentVersion (events ++ [event]) path =
      (currentDocument contentVersion events path).bind fun view =>
        currentDocumentStep contentVersion path view event := by
  rw [currentDocument, foldlM_append]
  change (currentDocument contentVersion events path).bind _ = _
  congr 1
  funext view
  change (currentDocumentStep contentVersion path view event).bind Except.ok = _
  cases currentDocumentStep contentVersion path view event <;> rfl

variable {event : LedgerEvent}

theorem Reconstructs.snoc {texts : Set JsString} {events : List LedgerEvent} {last last' : JsString → Option JsString}
    (h : Reconstructs contentVersion texts events last)
    (hstep : ∀ path, currentDocumentStep contentVersion path ((last path).map (viewOf contentVersion)) event =
      .ok ((last' path).map (viewOf contentVersion)))
    (hnew : ∀ path text, last' path = some text →
      last path = some text ∨ (text ∈ texts ∧ isContentOf path (contentVersion text) event = true)) :
    Reconstructs contentVersion texts (events ++ [event]) last' where
  current path := by
    rw [currentDocument_snoc, h.current path]
    exact hstep path
  mem_texts path text ht := by
    rcases hnew path text ht with hold | ⟨hmem, _⟩
    · exact h.mem_texts path text hold
    · exact hmem
  exists_event path text ht := by
    rcases hnew path text ht with hold | ⟨_, hevent⟩
    · obtain ⟨e, he, hof⟩ := h.exists_event path text hold
      exact ⟨e, mem_append_left _ he, hof⟩
    · exact ⟨event, mem_append_right _ (mem_singleton.2 rfl), hevent⟩

variable {path : JsString} {d : DocumentContentEvent}

theorem applyContentEvent_change {after : JsString} {before : Option JsString} {change : DocumentChange}
    (hchange : documentChange diff contentVersion path before after = some change) (hpath : lf ∉ path)
    (hcontent : d.content = change.content) (hformat : d.format = change.format) (hbase : d.base = change.base)
    (hversion : d.version = change.version) :
    applyContentEvent contentVersion (before.map (viewOf contentVersion)) d =
    .ok (some (viewOf contentVersion after)) ∧ d.version = contentVersion after := by
  cases before with
  | none =>
    cases hchange
    refine ⟨?_, hversion⟩
    rw [applyContentEvent.eq_def, hformat]
    rw [if_neg (by rw [hcontent, hversion]; exact fun h => h rfl), hcontent, hversion]
    rfl
  | some before =>
    rw [documentChange] at hchange
    split at hchange <;> cases hchange
    rename_i hne
    refine ⟨?_, hversion⟩
    have happly := applyDocumentDiff_of_ne diff hpath (fun h => hne (by rw [h]) : before ≠ after)
    have hany : d.base.any (· ≠ contentVersion before) = false := by rw [hbase]; simp
    rw [applyContentEvent.eq_def, hformat]
    dsimp only [map_some, viewOf]
    rw [hany, if_neg Bool.false_ne_true, hcontent, happly]
    change (if contentVersion after ≠ d.version then _ else _) = _
    rw [if_neg (by rw [hversion]; exact fun h => h rfl), hversion]

/-! ### Appends -/

private theorem bind_ok {ε α β : Type} {x : Except ε α} {f : α → Except ε β} {b : β} (h : (x >>= f) = .ok b) :
    ∃ a, x = .ok a ∧ f a = .ok b := by
  cases x with
  | error e => cases h
  | ok a => exact ⟨a, rfl, h⟩

private theorem liftError_ok {α : Type} {x : Except JsString α} {a : α} (h : liftError x = .ok a) : x = .ok a := by
  cases x with
  | error e => cases h
  | ok b =>
    cases h
    rfl

theorem checkSnapshot_ok {w : Workspace} {documentCommit : Bool}
    (h : checkSnapshot contentVersion w d documentCommit = .ok ()) :
    d.format = .full ∧ d.base = none ∧ contentVersion d.content = d.version := by
  have hfull : ¬(d.format ≠ .full ∨ d.base.isSome ∨ contentVersion d.content ≠ d.version) := by
    intro hbad
    unfold checkSnapshot at h
    simp only [if_pos hbad] at h
    split at h
    · obtain ⟨_, _, h⟩ := bind_ok h
      split at h <;> cases h
    · split at h <;> cases h
  simp only [not_or, ne_eq, not_not, Bool.not_eq_true, isSome_eq_false_iff, isNone_iff_eq_none] at hfull
  exact hfull

variable {accepted : Accepted}

theorem acceptDocument_ok {w : Workspace} {events : List LedgerEvent} {draft : LedgerEventDraft}
    {documentCommit : Bool}
    (h : acceptDocument diff contentVersion w events draft d documentCommit = .ok accepted) :
    ∃ current, currentDocument contentVersion events d.path = .ok current ∧
      d.base = none ∧ contentVersion d.content = d.version ∧
      ((documentChange diff contentVersion d.path (current.map (·.content)) d.content = none ∧
          accepted = .existing (events.reverse.find? (isContentOf d.path d.version))) ∨
        ∃ change, documentChange diff contentVersion d.path (current.map (·.content)) d.content = some change ∧
          accepted = .store { draft with
            body := .documentContent { d with
              content := change.content, format := change.format, base := change.base
              version := change.version } }) := by
  obtain ⟨_, hcheck, h⟩ := bind_ok h
  obtain ⟨_, hbase, hversion⟩ := checkSnapshot_ok hcheck
  obtain ⟨current, hcurrent, h⟩ := bind_ok h
  refine ⟨current, liftError_ok hcurrent, hbase, hversion, ?_⟩
  split at h
  · rename_i hnone
    cases h
    exact .inl ⟨hnone, rfl⟩
  rename_i change hsome
  obtain ⟨_, _, h⟩ := bind_ok h
  cases h
  refine .inr ⟨change, hsome, ?_⟩
  rw [changedDraft, hbase, or_none]

def recordDraft (last : JsString → Option JsString) (draft : LedgerEventDraft) : JsString → Option JsString :=
  match draft.body with
  | .documentContent d => Function.update last d.path (some d.content)
  | .workspaceChanged c =>
    if c.scope = .document ∧ c.change = .deleted then Function.update last c.target none else last
  | _ => last

variable {texts : Set JsString} {w : Workspace} {events : List LedgerEvent} {last : JsString → Option JsString}
  {draft : LedgerEventDraft} {documentCommit : Bool}

private theorem map_content_viewOf (text : Option JsString) :
    (text.map (viewOf contentVersion)).map (·.content) = text := by
  cases text <;> rfl

section

variable (h : Reconstructs contentVersion texts events last)
include h

private theorem Reconstructs.store_change (hpath : lf ∉ d.path)
    (htext : d.content ∈ texts) {change : DocumentChange}
    (hchange : documentChange diff contentVersion d.path (last d.path) d.content = some change)
    (hbody : event.body = .documentContent
      { d with content := change.content, format := change.format, base := change.base, version := change.version }) :
    Reconstructs contentVersion texts (events ++ [event]) (Function.update last d.path (some d.content)) := by
  obtain ⟨happly, hversion⟩ := applyContentEvent_change hchange hpath
    (d := { d with content := change.content, format := change.format, base := change.base,
                   version := change.version })
    rfl rfl rfl rfl
  apply h.snoc
  · intro path
    rw [currentDocumentStep.eq_def, hbody]
    dsimp only
    by_cases hp : d.path = path
    · rw [if_neg (fun hne => hne hp), ← hp, Function.update_self]
      exact happly
    · rw [if_pos hp, Function.update_of_ne (Ne.symm hp)]
  · intro path text hnew
    by_cases hp : d.path = path
    · rw [← hp, Function.update_self, Option.some.injEq] at hnew
      refine .inr ⟨hnew ▸ htext, ?_⟩
      rw [isContentOf.eq_def, hbody]
      simp only [Bool.and_eq_true, beq_iff_eq]
      exact ⟨hp, hversion.trans (by rw [hnew])⟩
    · rw [Function.update_of_ne (Ne.symm hp)] at hnew
      exact .inl hnew

private theorem Reconstructs.store_other
    (hno : draft.snapshot? = none) (hbody : event.body = draft.body) :
    Reconstructs contentVersion texts (events ++ [event]) (recordDraft last draft) := by
  have hstep : ∀ path, currentDocumentStep contentVersion path ((last path).map (viewOf contentVersion)) event =
      .ok ((recordDraft last draft path).map (viewOf contentVersion)) := by
    intro path
    rw [currentDocumentStep.eq_def, recordDraft.eq_def, hbody]
    unfold LedgerEventDraft.snapshot? at hno
    rcases hd : draft.body <;> rw [hd] at hno <;> try rfl
    · cases hno
    rename_i c
    dsimp only
    by_cases hdel : c.scope = .document ∧ c.change = .deleted
    · rw [if_pos hdel]
      by_cases hp : c.target = path
      · rw [if_pos ⟨hdel.1, hdel.2, hp⟩, ← hp, Function.update_self]
        rfl
      · rw [if_neg (fun hc => hp hc.2.2), Function.update_of_ne (Ne.symm hp)]
    · rw [if_neg hdel, if_neg (fun hc => hdel ⟨hc.1, hc.2.1⟩)]
  have hold : ∀ path text, recordDraft last draft path = some text → last path = some text := by
    intro path text hnew
    unfold recordDraft at hnew
    unfold LedgerEventDraft.snapshot? at hno
    rcases hd : draft.body <;> rw [hd] at hno hnew <;> try exact hnew
    · cases hno
    rename_i c
    dsimp only at hnew
    by_cases hdel : c.scope = .document ∧ c.change = .deleted
    · rw [if_pos hdel] at hnew
      by_cases hp : path = c.target
      · rw [hp, Function.update_self] at hnew
        cases hnew
      · rwa [Function.update_of_ne hp] at hnew
    · rwa [if_neg hdel] at hnew
  exact h.snoc hstep fun path text hnew => .inl (hold path text hnew)

private theorem Reconstructs.eq_of_unchanged (hinj : Set.InjOn contentVersion texts) (htext : d.content ∈ texts)
    (hchange : documentChange diff contentVersion d.path (last d.path) d.content = none) :
    last d.path = some d.content := by
  cases hlast : last d.path with
  | none =>
    rw [hlast] at hchange
    cases hchange
  | some before =>
    rw [hlast, documentChange] at hchange
    split at hchange
    · rename_i heq
      rw [hinj (h.mem_texts _ _ hlast) htext heq]
    · cases hchange

private theorem Reconstructs.exists_find {text : JsString} (hlast : last path = some text) :
    ∃ e ∈ events, isContentOf path (contentVersion text) e = true ∧
    events.reverse.find? (isContentOf path (contentVersion text)) = some e := by
  obtain ⟨e, he, hof⟩ := h.exists_event path text hlast
  have hfound : (events.reverse.find? (isContentOf path (contentVersion text))).isSome = true := by
    rw [List.find?_isSome]
    exact ⟨e, mem_reverse.2 he, hof⟩
  obtain ⟨found, hfind⟩ := isSome_iff_exists.1 hfound
  exact ⟨found, mem_reverse.1 (mem_of_find?_eq_some hfind), List.find?_some hfind, hfind⟩

end

/-- The documents of a draft meet the assumptions of a run. -/
structure DraftInScope (texts : Set JsString) (draft : LedgerEventDraft) : Prop where
  path : ∀ d ∈ draft.snapshot?, lf ∉ d.path
  text : ∀ d ∈ draft.snapshot?, d.content ∈ texts

theorem acceptDraft_spec (h : Reconstructs contentVersion texts events last) (hinj : Set.InjOn contentVersion texts)
    (hscope : DraftInScope texts draft)
    (hok : acceptDraft diff contentVersion w events draft documentCommit = .ok accepted) :
    (∃ stored, accepted = .store stored ∧ ∀ seq time,
        Reconstructs contentVersion texts (events ++ [⟨stored, seq, time⟩]) (recordDraft last draft)) ∨
      ∃ d e, draft.snapshot? = some d ∧ accepted = .existing (some e) ∧ e ∈ events ∧
        isContentOf d.path (contentVersion d.content) e = true ∧ last d.path = some d.content := by
  cases hd : draft.snapshot? with
  | none =>
    have haccepted : accepted = .store draft := by
      unfold acceptDraft at hok
      unfold LedgerEventDraft.snapshot? at hd
      rcases hb : draft.body <;> rw [hb] at hd hok <;> try (cases hok; rfl)
      · cases hd
      dsimp only at hok
      split at hok <;> cases hok
      rfl
    exact .inl ⟨draft, haccepted, fun seq time => h.store_other hd rfl⟩
  | some d =>
    have hbody : draft.body = .documentContent d := by
      unfold LedgerEventDraft.snapshot? at hd
      rcases hb : draft.body <;> rw [hb] at hd <;> cases hd
      rfl
    have hpath := hscope.path d hd
    have htext := hscope.text d hd
    rw [acceptDraft.eq_def, hbody] at hok
    obtain ⟨current, hcurrent, hbase, hversion, hcase⟩ := acceptDocument_ok hok
    rw [h.current d.path, Except.ok.injEq] at hcurrent
    rw [← hcurrent, map_content_viewOf] at hcase
    rcases hcase with ⟨hnone, haccepted⟩ | ⟨change, hchange, haccepted⟩
    · have hlast := h.eq_of_unchanged hinj htext hnone
      obtain ⟨e, he, hof, hfind⟩ := h.exists_find hlast
      rw [← hversion, hfind] at haccepted
      exact .inr ⟨d, e, rfl, haccepted, he, hof, hlast⟩
    · refine .inl ⟨_, haccepted, fun seq time => ?_⟩
      rw [recordDraft, hbody]
      exact h.store_change hpath htext hchange rfl

variable {sessionId : JsString} {events' : List LedgerEvent} {time : JsString}

theorem appendNow_spec (h : Reconstructs contentVersion texts events last) (hinj : Set.InjOn contentVersion texts)
    (hscope : DraftInScope texts draft) {fault : Option WriteFault} {result : AppendResult}
    (happend : appendNow diff contentVersion w sessionId events draft documentCommit time fault = (result, events')) :
    Reconstructs contentVersion texts events' (if result.recorded then recordDraft last draft else last) := by
  unfold appendNow at happend
  split at happend
  · cases happend
    exact h
  · rename_i event haccept
    obtain ⟨_, _, hok⟩ := bind_ok haccept
    rcases acceptDraft_spec h hinj hscope hok with ⟨stored, hstored, _⟩ | ⟨d, e, hd, _, _, _, hlast⟩
    · cases hstored
    cases happend
    have hsame : recordDraft last draft = last := by
      unfold LedgerEventDraft.snapshot? at hd
      rcases hb : draft.body <;> rw [hb] at hd <;> cases hd
      rw [recordDraft, hb]
      dsimp only
      rw [← hlast, Function.update_eq_self]
    rw [hsame, ite_self]
    exact h
  · rename_i stored haccept
    obtain ⟨_, _, hok⟩ := bind_ok haccept
    rcases acceptDraft_spec h hinj hscope hok with ⟨stored', hstored, hrec⟩ | ⟨d, e, _, hexisting, _⟩
    · cases hstored
      cases fault with
      | none =>
        cases happend
        exact hrec _ _
      | some fault =>
        cases happend
        change Reconstructs contentVersion texts (if fault.kept then _ else _) (if fault.kept then _ else _)
        cases fault.kept with
        | true => exact hrec _ _
        | false => exact h
    · cases hexisting

/-! ### Commits -/

variable {context : DocumentCommitContext} {input : DocumentCommit}

private theorem acceptDraft_receipt :
    acceptDraft diff contentVersion w events (commitReceipt contentVersion context input) true =
    .ok (.store (commitReceipt contentVersion context input)) := by
  rw [acceptDraft.eq_def]
  dsimp only [commitReceipt]
  rw [Bool.not_true, Bool.and_false, if_neg Bool.false_ne_true]

private theorem exists_acceptDraft (h : Reconstructs contentVersion texts events last)
    (hbody : draft.body = .documentContent d) (hpath : lf ∉ d.path) (htext : d.content ∈ texts)
    (hformat : d.format = .full) (hbase : d.base = none) (hversion : d.version = contentVersion d.content) :
    ∃ accepted, acceptDraft diff contentVersion w events draft true = .ok accepted := by
  have hcheck : checkSnapshot contentVersion w d true = .ok () := by
    unfold checkSnapshot
    rw [hformat, hbase, hversion]
    simp
    rfl
  rw [acceptDraft.eq_def, hbody]
  dsimp only
  have hcurrent : liftError (currentDocument contentVersion events d.path) =
      .ok ((last d.path).map (viewOf contentVersion)) := congrArg liftError (h.current d.path)
  rw [acceptDocument_current diff contentVersion hcheck hcurrent, map_content_viewOf]
  cases hchange : documentChange diff contentVersion d.path (last d.path) d.content with
  | none => exact ⟨_, rfl⟩
  | some change =>
    rw [elim_some, changedDraft, hbase, or_none]
    have hstored : Reconstructs contentVersion texts (events ++ [⟨{ draft with body := .documentContent { d with
        content := change.content, format := change.format, base := change.base, version := change.version } }, 0,
          []⟩])
        (Function.update last d.path (some d.content)) := h.store_change hpath htext hchange rfl
    rw [hstored.current d.path]
    exact ⟨_, rfl⟩

private theorem appendNow_accepted {fault : Option WriteFault}
    {result : AppendResult} (hid : assertSessionId sessionId = .ok ())
    (hok : acceptDraft diff contentVersion w events draft documentCommit = .ok accepted)
    (happend : appendNow diff contentVersion w sessionId events draft documentCommit time fault = (result, events')) :
    (∃ event, result = .returned event) ∨ ∃ f, fault = some f ∧ result = .failed f := by
  have hdo : (do assertSessionId sessionId; acceptDraft diff contentVersion w events draft documentCommit) =
      .ok accepted := by
    rw [hid, hok]
    rfl
  unfold appendNow at happend
  rw [hdo] at happend
  cases accepted with
  | existing event =>
    cases happend
    exact .inl ⟨event, rfl⟩
  | store stored =>
    cases fault with
    | none =>
      cases happend
      exact .inl ⟨_, rfl⟩
    | some fault =>
      cases happend
      exact .inr ⟨fault, rfl, rfl⟩

private theorem recordDraft_receipt :
    recordDraft last (commitReceipt contentVersion context input) =
      if input.content = none then Function.update last input.path none else last := by
  unfold recordDraft commitReceipt
  dsimp only
  by_cases hnone : input.content = none
  · rw [if_pos hnone, if_pos hnone, if_pos ⟨rfl, rfl⟩]
  · rw [if_neg hnone, if_neg hnone, if_neg]
    rintro ⟨_, hchange⟩
    split at hchange <;> cases hchange

private theorem receipt_inScope : DraftInScope texts (commitReceipt contentVersion context input) where
  path d hd := by cases hd
  text d hd := by cases hd

variable {fault : Option CommitFault} {result : Except LedgerError Unit} {receiptAt : JsString}

section

variable (h : Reconstructs contentVersion texts events last)
include h

variable (hinj : Set.InjOn contentVersion texts)
include hinj

private theorem recordReceipt_spec
 (hid : assertSessionId context.sessionId = .ok ())
    (hrecord : recordReceipt diff contentVersion w context input events receiptAt fault = (result, events')) :
    let last' := recordDraft last (commitReceipt contentVersion context input)
    (∃ f e, fault = some (.receipt f) ∧ result = .error e ∧
        Reconstructs contentVersion texts events' (if f.kept then last' else last)) ∨
      Reconstructs contentVersion texts events' last' ∧
        (result = .ok () ∨ ∃ code e, fault = some (.sync code) ∧ result = .error e) := by
  intro last'
  unfold recordReceipt at hrecord
  rcases hreceipt : appendNow diff contentVersion w context.sessionId events
    (commitReceipt contentVersion context input) true receiptAt (fault.bind (·.receiptFault)) with ⟨appended, stored⟩
  have hspec := appendNow_spec h hinj receipt_inScope hreceipt
  rw [hreceipt] at hrecord
  rcases appendNow_accepted hid acceptDraft_receipt hreceipt with ⟨event, rfl⟩ | ⟨f, hf, rfl⟩
  · -- the receipt is in the timeline
    right
    cases fault with
    | none =>
      cases hrecord
      exact ⟨hspec, .inl rfl⟩
    | some fault =>
      cases fault with
      | sync code =>
        cases hrecord
        exact ⟨hspec, .inr ⟨code, _, rfl, rfl⟩⟩
      | _ =>
        cases hrecord
        exact ⟨hspec, .inl rfl⟩
  · left
    obtain ⟨fault, rfl, hfault⟩ := bind_eq_some_iff.1 hf
    cases fault with
    | receipt g =>
      cases hfault
      cases hrecord
      exact ⟨_, _, rfl, rfl, hspec⟩
    | _ => cases hfault

private theorem makeDocumentDraft_spec {title content : JsString}
    (htext : content ∈ texts) {turn step : Option Nat} {parent : Option JsString} {source : DocSource}
    {made : Except JsString (Option LedgerEventDraft)}
    (hmake : makeDocumentDraft contentVersion encodeLength path title content events turn step parent source = made) :
    (made = .ok none ∧ last path = some content) ∨ ∃ draft d, made = .ok (some draft) ∧ draft.body =
    .documentContent d ∧ d.path = path ∧ d.content = content ∧ d.format = .full ∧ d.base = none ∧ d.version =
    contentVersion content := by
  unfold makeDocumentDraft at hmake
  rw [h.current path] at hmake
  change (if ((last path).map (viewOf contentVersion)).map (·.version) = some (contentVersion content) then _
    else _) = _ at hmake
  by_cases hsame : ((last path).map (viewOf contentVersion)).map (·.version) = some (contentVersion content)
  · left
    rw [if_pos hsame] at hmake
    refine ⟨hmake.symm, ?_⟩
    rw [Option.map_map, Option.map_eq_some_iff] at hsame
    obtain ⟨text, hlast, hversion⟩ := hsame
    rw [hlast, hinj (h.mem_texts _ _ hlast) htext hversion]
  · right
    rw [if_neg hsame] at hmake
    exact ⟨_, _, hmake.symm, rfl, rfl, rfl, rfl, rfl, rfl⟩

private theorem recordCommit_spec
 (hid : assertSessionId context.sessionId = .ok ())
    (hpath : lf ∉ input.path) (htext : ∀ text ∈ input.content, text ∈ texts) {contentAt : JsString}
    (hrecord : recordCommit diff contentVersion encodeLength w context input events contentAt receiptAt fault =
      (result, events')) :
    Reconstructs contentVersion texts events'
      (if commitRecorded input fault (result.mapError historyFailed) then
        Function.update last input.path input.content else last) := by
  unfold recordCommit commitDraft at hrecord
  cases hcontent : input.content <;> rw [hcontent] at hrecord
  case none =>
    have hreceipt := recordReceipt_spec h hinj hid hrecord
    rw [recordDraft_receipt, if_pos hcontent] at hreceipt
    rcases hreceipt with ⟨f, e, rfl, rfl, hrec⟩ | ⟨hrec, rfl | ⟨code, e, rfl, rfl⟩⟩
    · simpa [commitRecorded, Except.mapError, historyFailed, LedgerError.code, hcontent] using hrec
    · exact hrec
    · exact hrec
  case some content =>
    have htext' := htext content hcontent
    have hdraft : input.content ≠ none := by rw [hcontent]; exact some_ne_none _
    obtain ⟨made, hmake⟩ : ∃ made, makeDocumentDraft contentVersion encodeLength input.path input.title content events
      (some context.turn) (some context.step) (some context.parent) .write = made := ⟨_, rfl⟩
    simp only [hmake] at hrecord
    rcases makeDocumentDraft_spec h hinj htext' hmake with
      ⟨rfl, hlast⟩ | ⟨draft, d, rfl, hbody, hdpath, hdcontent, hformat, hbase, hversion⟩
    · -- the text is the current one: only the receipt is written
      have hsame : Function.update last input.path (some content) = last := by rw [← hlast, Function.update_eq_self]
      have hreceipt := recordReceipt_spec h hinj hid hrecord
      rw [recordDraft_receipt, if_neg hdraft] at hreceipt
      rw [hsame, ite_self]
      rcases hreceipt with ⟨f, e, rfl, rfl, hrec⟩ | ⟨hrec, _⟩
      · rwa [ite_self] at hrec
      · exact hrec
    · have hsnapshot : draft.snapshot? = some d := by rw [LedgerEventDraft.snapshot?.eq_def, hbody]
      have hscope : DraftInScope texts draft := by
        refine ⟨?_, ?_⟩ <;> intro d' hd' <;> rw [hsnapshot] at hd' <;> cases hd'
        · rwa [hdpath]
        · rwa [hdcontent]
      have hlast' : recordDraft last draft = Function.update last input.path (some content) := by
        rw [recordDraft.eq_def, hbody, ← hdpath, ← hdcontent]
      obtain ⟨accepted, haccept⟩ : ∃ accepted, acceptDraft diff contentVersion w events draft true = .ok accepted :=
        exists_acceptDraft h hbody (hdpath ▸ hpath) (hdcontent ▸ htext') hformat hbase
          (hversion.trans (by rw [hdcontent]))
      rcases happend : appendNow diff contentVersion w context.sessionId events draft true contentAt
        (fault.bind (·.contentFault)) with ⟨appended, stored⟩
      have hspec := appendNow_spec h hinj hscope happend
      rw [hlast'] at hspec
      simp only [happend] at hrecord
      rcases appendNow_accepted hid haccept happend with ⟨event, rfl⟩ | ⟨f, hf, rfl⟩
      · -- the snapshot is in the timeline; the receipt adds nothing to it
        change Reconstructs contentVersion texts stored (Function.update last input.path (some content)) at hspec
        have hreceipt := recordReceipt_spec hspec hinj hid hrecord
        rw [recordDraft_receipt, if_neg hdraft] at hreceipt
        rcases hreceipt with ⟨f, e, rfl, rfl, hrec⟩ | ⟨hrec, rfl | ⟨code, e, rfl, rfl⟩⟩
        · simpa [commitRecorded, Except.mapError, historyFailed, LedgerError.code, hcontent] using hrec
        · exact hrec
        · exact hrec
      · obtain ⟨fault, rfl, hfault⟩ := bind_eq_some_iff.1 hf
        cases fault with
        | content g =>
          cases hfault
          cases hrecord
          exact hspec
        | _ => cases hfault

omit hinj

end

private theorem bind_error {ε α β : Type} {x : Except ε α} {f : α → Except ε β} {e : ε} (h : (x >>= f) = .error e) :
    x = .error e ∨ ∃ a, x = .ok a ∧ f a = .error e := by
  cases x with
  | error e' =>
    cases h
    exact .inl rfl
  | ok a => exact .inr ⟨a, rfl, h⟩

private theorem liftError_code {α : Type} {x : Except JsString α} {e : LedgerError} (h : liftError x = .error e) :
    e.code = none := by
  cases x with
  | error message =>
    cases h
    rfl
  | ok a => cases h

private theorem checkCommit_error {s : LedgerState} {e : LedgerError}
    (h : checkCommit contentVersion s input = .error e) : e.code ≠ some (js "history_failed") := by
  have hplain : e.code = none → e.code ≠ some (js "history_failed") := by
    intro hnone
    rw [hnone]
    exact (some_ne_none _).symm
  unfold checkCommit at h
  dsimp only at h
  split at h
  · cases h
    exact hplain rfl
  rcases bind_error h with htarget | ⟨file, _, h⟩
  · unfold Workspace.target at htarget
    dsimp only at htarget
    split at htarget
    · cases htarget
      exact hplain rfl
    · split at htarget <;> cases htarget
      exact hplain rfl
  rcases bind_error h with hcontent | ⟨content, _, h⟩
  · unfold Workspace.content at hcontent
    split at hcontent <;> cases hcontent
    decide
  split at h
  · cases h
    decide
  split at h
  · cases h
  rcases bind_error h with hid | ⟨_, _, h⟩
  · unfold assertSessionId at hid
    split at hid <;> cases hid
    exact hplain rfl
  split at h
  · cases h
    decide
  rcases bind_error h with hlift | ⟨_, _, h⟩
  · exact hplain (liftError_code hlift)
  · cases h

private theorem checkCommit_ok {s : LedgerState} {file : JsString}
    (h : checkCommit contentVersion s input = .ok (file, events)) (hcontext : input.context = some context) :
    assertSessionId context.sessionId = .ok () ∧ events = s.timelines context.sessionId := by
  unfold checkCommit at h
  dsimp only at h
  split at h
  · cases h
  obtain ⟨_, _, h⟩ := bind_ok h
  obtain ⟨_, _, h⟩ := bind_ok h
  split at h
  · cases h
  rw [hcontext] at h
  obtain ⟨_, hid, h⟩ := bind_ok h
  split at h
  · cases h
  obtain ⟨_, _, h⟩ := bind_ok h
  cases h
  exact ⟨hid, rfl⟩

/-! ### The invariant -/

def DocumentsRecorded (contentVersion : JsString → JsString) (texts : Set JsString) (s : LedgerState)
    (log : List DocumentRecord) : Prop :=
  ∀ sessionId, Reconstructs contentVersion texts (s.timelines sessionId) (lastSnapshot log sessionId)

variable {s : LedgerState} {log}

section

variable (h : DocumentsRecorded contentVersion texts s log)
include h

private theorem DocumentsRecorded.update {workspace : Workspace}
    {stored : List LedgerEvent} {recorded : Bool} {snapshot : Option JsString}
    (hnew : Reconstructs contentVersion texts stored (if recorded
      then Function.update (lastSnapshot log sessionId) path snapshot else lastSnapshot log sessionId)) :
    DocumentsRecorded contentVersion texts ⟨workspace, Function.update s.timelines sessionId stored⟩
      (log ++ if recorded then [⟨sessionId, path, snapshot⟩] else []) := by
  intro other
  by_cases hs : sessionId = other
  · subst hs
    dsimp only
    rw [Function.update_self]
    cases recorded with
    | true =>
      rw [if_pos rfl, lastSnapshot_snoc, if_pos rfl]
      exact hnew
    | false =>
      rw [if_neg Bool.false_ne_true, append_nil]
      exact hnew
  · dsimp only
    rw [Function.update_of_ne (Ne.symm hs)]
    cases recorded with
    | true =>
      rw [if_pos rfl, lastSnapshot_snoc, if_neg hs]
      exact h other
    | false =>
      rw [if_neg Bool.false_ne_true, append_nil]
      exact h other

private theorem commit_step (hinj : Set.InjOn contentVersion texts) (hpath : lf ∉ input.path)
    (htext : ∀ text ∈ input.content, text ∈ texts) {contentAt : JsString} {s' : LedgerState}
    (hcommit : commit diff contentVersion encodeLength s input contentAt receiptAt fault = (result, s')) :
    DocumentsRecorded contentVersion texts s' (log ++ commitRecords input fault result) := by
  -- a commit that fails before it writes any history leaves the timelines and the log
  have hkeep : ∀ {e : LedgerError} {workspace : Workspace}, commitRecorded input fault (.error e) = false →
      DocumentsRecorded contentVersion texts { s with workspace } (log ++ commitRecords input fault (.error e)) := by
    intro e workspace hno
    have hnil : commitRecords input fault (.error e) = [] := by
      unfold commitRecords
      split
      · rfl
      · rw [hno, if_neg Bool.false_ne_true]
    rw [hnil, append_nil]
    exact h
  have hother : ∀ {e : LedgerError}, e.code ≠ some (js "history_failed") →
      commitRecorded input fault (.error e) = false := by
    intro e hcode
    unfold commitRecorded
    split <;> simp_all
  unfold commit at hcommit
  split at hcommit
  · rename_i e hcheck
    cases hcommit
    exact hkeep (hother (checkCommit_error hcheck))
  rename_i file events hcheck
  split at hcommit
  · cases hcommit
    exact hkeep rfl
  · rename_i e _ hwrite
    cases hcommit
    refine hkeep (hother ?_)
    unfold Workspace.write at hwrite
    split at hwrite
    · split at hwrite <;> cases hwrite
      decide
    · cases hwrite
  · cases hcommit
    exact hkeep rfl
  · rename_i fault _ _ workspace _ _ _
    split at hcommit
    · rename_i hcontext
      cases hcommit
      rw [commitRecords, hcontext]
      rw [append_nil]
      exact h
    · rename_i context hcontext
      obtain ⟨hid, rfl⟩ := checkCommit_ok hcheck hcontext
      rcases hrecord : recordCommit diff contentVersion encodeLength workspace context input
        (s.timelines context.sessionId) contentAt receiptAt fault with ⟨recorded, stored⟩
      simp only [hrecord] at hcommit
      cases hcommit
      have hspec := recordCommit_spec (h context.sessionId) hinj hid hpath htext hrecord
      rw [commitRecords, hcontext]
      exact h.update hspec

private theorem append_step
    (hinj : Set.InjOn contentVersion texts) (hscope : DraftInScope texts draft)
    {fault : Option WriteFault} {result : AppendResult} {stored : List LedgerEvent}
    (happend : appendNow diff contentVersion s.workspace sessionId (s.timelines sessionId) draft false time fault =
      (result, stored)) :
    DocumentsRecorded contentVersion texts { s with timelines := Function.update s.timelines sessionId stored }
      (log ++ appendRecords sessionId draft result) := by
  have hspec := appendNow_spec (h sessionId) hinj hscope happend
  cases hd : draft.snapshot? with
  | some d =>
    have hbody : recordDraft (lastSnapshot log sessionId) draft =
        Function.update (lastSnapshot log sessionId) d.path (some d.content) := by
      unfold LedgerEventDraft.snapshot? at hd
      rcases hb : draft.body <;> rw [hb] at hd <;> cases hd
      rw [recordDraft, hb]
    rw [hbody] at hspec
    rw [appendRecords, hd]
    exact h.update hspec
  | none =>
    -- a deletion receipt is refused, and nothing else records anything
    have hsame : (if result.recorded then recordDraft (lastSnapshot log sessionId) draft
        else lastSnapshot log sessionId) = lastSnapshot log sessionId := by
      by_cases hdel : recordDraft (lastSnapshot log sessionId) draft = lastSnapshot log sessionId
      · rw [hdel, ite_self]
      have hrejected : result.recorded = false := by
        unfold recordDraft at hdel
        rcases hb : draft.body <;> rw [hb] at hdel <;> try exact absurd rfl hdel
        · rw [LedgerEventDraft.snapshot?.eq_def, hb] at hd
          cases hd
        rename_i c
        have hdocument : c.scope = .document := by
          by_contra hscope
          exact hdel (if_neg fun hc => hscope hc.1)
        have hrefused : acceptDraft diff contentVersion s.workspace (s.timelines sessionId) draft false =
            .error (.error (js "Document changes must use commitDocument")) := by
          rw [acceptDraft.eq_def, hb]
          simp [hdocument]
        unfold appendNow at happend
        rw [hrefused] at happend
        cases hid : assertSessionId sessionId <;> rw [hid] at happend <;> cases happend <;> rfl
      rw [hrejected, if_neg Bool.false_ne_true]
    rw [hsame] at hspec
    rw [appendRecords, hd, append_nil]
    intro other
    by_cases hs : other = sessionId
    · subst hs
      dsimp only
      rw [Function.update_self]
      exact hspec
    · dsimp only
      rw [Function.update_of_ne hs]
      exact h other

end

private theorem Reconstructs.nil : Reconstructs contentVersion texts [] fun _ => none where
  current _ := rfl
  mem_texts _ _ ht := by cases ht
  exists_event _ _ ht := by cases ht

/-- Reading the events of a timeline again changes no document. -/
private theorem Reconstructs.reload (h : Reconstructs contentVersion texts events last) :
    Reconstructs contentVersion texts (events.map LedgerEvent.reload) last where
  current path := by
    rw [← h.current path, currentDocument, foldlM_map]
    congr 1
    funext view event
    simp only [currentDocumentStep, LedgerEvent.reload_body]
  mem_texts := h.mem_texts
  exists_event path text ht := by
    obtain ⟨e, he, hof⟩ := h.exists_event path text ht
    refine ⟨e.reload, mem_map.2 ⟨e, he, rfl⟩, ?_⟩
    rw [isContentOf.eq_def, LedgerEvent.reload_body]
    exact hof

private theorem step_recorded (h : DocumentsRecorded contentVersion texts s log)
    (hinj : Set.InjOn contentVersion texts) {op : DocumentOp} (hpaths : ∀ path ∈ op.paths, lf ∉ path)
    (htexts : ∀ text ∈ op.texts, text ∈ texts) :
    DocumentsRecorded contentVersion texts (op.step diff contentVersion encodeLength s log).1
      (op.step diff contentVersion encodeLength s log).2 := by
  cases op with
  | append sessionId draft time fault =>
    have hscope : DraftInScope texts draft := by
      refine ⟨?_, ?_⟩ <;> intro d hd <;> rw [mem_def] at hd
      · apply hpaths
        simp [DocumentOp.paths, hd]
      · apply htexts
        simp [DocumentOp.texts, hd]
    exact append_step h hinj hscope rfl
  | commit input contentAt receiptAt fault =>
    refine commit_step h hinj (hpaths _ (by simp [DocumentOp.paths])) ?_ rfl
    intro text ht
    exact htexts _ (by simpa [DocumentOp.texts] using ht)
  | edit workspace => exact h
  | reload sessionId =>
    intro other
    by_cases hs : other = sessionId
    · subst hs
      simp only [DocumentOp.step, Function.update_self]
      exact (h other).reload
    · simp only [DocumentOp.step, Function.update_of_ne hs]
      exact h other
  | deleteSession sessionId =>
    intro other
    simp only [DocumentOp.step, lastSnapshot_filter]
    split
    · rename_i hs
      rw [hs, Function.update_self]
      exact Reconstructs.nil
    · rename_i hs
      rw [Function.update_of_ne (Ne.symm hs)]
      exact h other

private theorem run_recorded {workspace : Workspace} {ops : List DocumentOp}
    (hpaths : ∀ op ∈ ops, ∀ path ∈ op.paths, lf ∉ path)
    (hversions : Set.InjOn contentVersion {text | ∃ op ∈ ops, text ∈ op.texts}) :
    DocumentsRecorded contentVersion {text | ∃ op ∈ ops, text ∈ op.texts}
      (runDocuments diff contentVersion encodeLength workspace ops).1
      (runDocuments diff contentVersion encodeLength workspace ops).2 := by
  -- every operation of the run is in scope, so the invariant goes through the fold
  have hfold : ∀ (todo : List DocumentOp) (t : LedgerState × List DocumentRecord), (∀ op ∈ todo, op ∈ ops) →
      DocumentsRecorded contentVersion {text | ∃ op ∈ ops, text ∈ op.texts} t.1 t.2 →
      DocumentsRecorded contentVersion {text | ∃ op ∈ ops, text ∈ op.texts}
        (todo.foldl (fun t op => op.step diff contentVersion encodeLength t.1 t.2) t).1
        (todo.foldl (fun t op => op.step diff contentVersion encodeLength t.1 t.2) t).2 := by
    intro todo
    induction todo with
    | nil => exact fun t _ h => h
    | cons op todo ih =>
      intro t hmem h
      have hop := hmem op (mem_cons_self ..)
      refine ih _ (fun op' hop' => hmem op' (mem_cons_of_mem _ hop')) ?_
      exact step_recorded h hversions (hpaths op hop) fun text ht => ⟨op, hop, ht⟩
  exact hfold ops _ (fun op hop => hop) fun _ => Reconstructs.nil

/-- An accepted snapshot equal to the current text stores nothing and returns an event of its version. -/
private theorem Reconstructs.append_current (h : Reconstructs contentVersion texts events last)
    (hd : draft.body = .documentContent d) (hlast : last d.path = some d.content)
    (hid : assertSessionId sessionId = .ok ()) (hcheck : checkSnapshot contentVersion w d documentCommit = .ok ())
    (time : JsString) (fault : Option WriteFault) : ∃ e ∈ events, isContentOf d.path d.version e = true ∧
    appendNow diff contentVersion w sessionId events draft documentCommit time fault =
    (.returned (some e), events) := by
  obtain ⟨_, _, hversion⟩ := checkSnapshot_ok hcheck
  obtain ⟨e, he, hof, hfind⟩ := h.exists_find hlast
  rw [hversion] at hof hfind
  refine ⟨e, he, hof, ?_⟩
  have hchange : documentChange diff contentVersion d.path (some d.content) d.content = none := if_pos rfl
  have haccept : acceptDraft diff contentVersion w events draft documentCommit = .ok (.existing (some e)) := by
    rw [acceptDraft.eq_def, hd]
    dsimp only
    have hcurrent : liftError (currentDocument contentVersion events d.path) =
        .ok ((last d.path).map (viewOf contentVersion)) := congrArg liftError (h.current d.path)
    rw [acceptDocument_current diff contentVersion hcheck hcurrent, map_content_viewOf, hlast, hchange, ← hfind]
    rfl
  unfold appendNow
  rw [hid, haccept]
  rfl

end

/-- In every state a run reaches, `currentDocument` succeeds for every session and path with the text recorded last,
and with nothing exactly when nothing was recorded or a deletion was recorded last.  Recording the current text again
makes no draft, and an append of it stores nothing and returns an event of its version. -/
theorem currentDocument_runDocuments (diff : LineDiff) (contentVersion : JsString → JsString)
    (encodeLength : JsString → Nat) (workspace : Workspace) (ops : List DocumentOp)
    (hpaths : ∀ op ∈ ops, ∀ path ∈ op.paths, lf ∉ path)
    (hversions : Set.InjOn contentVersion {text | ∃ op ∈ ops, text ∈ op.texts}) :
    let s := (runDocuments diff contentVersion encodeLength workspace ops).1
    let log := (runDocuments diff contentVersion encodeLength workspace ops).2
    (∀ sessionId path, currentDocument contentVersion (s.timelines sessionId) path =
      .ok ((lastSnapshot log sessionId path).map fun text => ⟨text, contentVersion text⟩)) ∧
    (∀ sessionId path, currentDocument contentVersion (s.timelines sessionId) path = .ok none ↔
      ∀ r, lastRecord log sessionId path = some r → r.snapshot = none) ∧
    (∀ sessionId path text, lastSnapshot log sessionId path = some text → ∀ title turn step parent source,
      makeDocumentDraft contentVersion encodeLength path title text (s.timelines sessionId) turn step parent source =
        .ok none) ∧
    ∀ sessionId draft d documentCommit time fault, draft.body = .documentContent d →
      lastSnapshot log sessionId d.path = some d.content → assertSessionId sessionId = .ok () →
      checkSnapshot contentVersion s.workspace d documentCommit = .ok () →
      ∃ e ∈ s.timelines sessionId, isContentOf d.path d.version e = true ∧
        appendNow diff contentVersion s.workspace sessionId (s.timelines sessionId) draft documentCommit time fault =
          (.returned (some e), s.timelines sessionId) := by
  intro s log
  have h : DocumentsRecorded contentVersion _ s log := run_recorded hpaths hversions
  refine ⟨fun sessionId path => (h sessionId).current path, ?_, ?_, ?_⟩
  · intro sessionId path
    rw [(h sessionId).current path, Except.ok.injEq, Option.map_eq_none_iff, lastSnapshot, Option.bind_eq_none_iff]
  · intro sessionId path text hlast title turn step parent source
    rw [makeDocumentDraft, (h sessionId).current path, hlast]
    exact if_pos rfl
  · intro sessionId draft d documentCommit time fault hd hlast hid hcheck
    exact (h sessionId).append_current hd hlast hid hcheck time fault

/-- A commit of the document in the session `s`. -/
def letterCommit (before content : Option JsString) : DocumentOp :=
  .commit ⟨js "projects/p/AGENTS.md", js "Agents", before, content, some ⟨js "s", 1, 1, js "a1"⟩⟩ [] [] none

def letterOps : List DocumentOp :=
  [.append (js "s") ⟨none, none, .sessionCreated ⟨[], ⟨[], [], [], [], [], []⟩⟩⟩ [] none,
    letterCommit none (some (js "a")), letterCommit (some (js "a")) none, letterCommit none (some (js "a")),
    letterCommit (some (js "a")) (some (js "b"))]

theorem currentDocument_letterOps :
    (∀ op ∈ letterOps, ∀ path ∈ op.paths, lf ∉ path) ∧
      Set.InjOn letterVersion {text | ∃ op ∈ letterOps, text ∈ op.texts} ∧
      currentDocument letterVersion
        ((runDocuments replaceAll letterVersion List.length ⟨fun _ => .absent, fun _ => false⟩ letterOps).1.timelines
          (js "s")) (js "projects/p/AGENTS.md") = .ok (some ⟨js "b", js "3e23e816"⟩) := by
  have hpaths : ∀ op ∈ letterOps, ∀ path ∈ op.paths, lf ∉ path := by decide
  have hversions : Set.InjOn letterVersion {text | ∃ op ∈ letterOps, text ∈ op.texts} := by
    have htexts : ∀ text, (∃ op ∈ letterOps, text ∈ op.texts) → text = js "a" ∨ text = js "b" := by
      rintro text ⟨op, hop, htext⟩
      have hall : ∀ op ∈ letterOps, ∀ text ∈ op.texts, text = js "a" ∨ text = js "b" := by decide
      exact hall op hop text htext
    intro s hs t ht hversion
    rcases htexts s hs with rfl | rfl <;> rcases htexts t ht with rfl | rfl
    · rfl
    · exact absurd hversion (by decide)
    · exact absurd hversion (by decide)
    · rfl
  refine ⟨hpaths, hversions, ?_⟩
  have hlast : lastSnapshot
      (runDocuments replaceAll letterVersion List.length ⟨fun _ => .absent, fun _ => false⟩ letterOps).2
      (js "s") (js "projects/p/AGENTS.md") = some (js "b") := by
    decide
  rw [(currentDocument_runDocuments replaceAll letterVersion List.length ⟨fun _ => .absent, fun _ => false⟩ letterOps
    hpaths hversions).1, hlast]
  rfl

end Wrenyard.Session
