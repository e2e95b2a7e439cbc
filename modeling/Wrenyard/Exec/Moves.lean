import Wrenyard.Exec.Service

/-!
# What a step does to the entries

`Evolves` says how an entry may change: it keeps its id, a terminal one keeps its status, a requested cancellation
stays requested, and frames are only appended to what it recorded.  Every step moves the entries in this way, and it
registers an entry only while the service is open (`moves_perform`).
-/

namespace Wrenyard.Exec

open Js List

namespace ExecEntry

structure Sound (e : ExecEntry) : Prop where
  terminal : e.terminal = true →
    (e.cancelRequested = true ∧ e.status = .cancelled) ∨
    (e.cancelRequested = false ∧ (e.status = .completed ∨ e.status = .failed))
  pending : e.terminal = false → e.status = .queued ∨ e.status = .running
  history : e.replay.Holds e.id e.recorded

structure Evolves (e e' : ExecEntry) : Prop where
  id : e'.id = e.id
  terminal : e.terminal = true →
    e'.terminal = true ∧ e'.status = e.status ∧ e'.cancelRequested = e.cancelRequested
  requested : e.cancelRequested = true → e'.cancelRequested = true
  sound : e.Sound → e'.Sound
  recorded : e.recorded <+: e'.recorded

namespace Evolves

variable {e e' e'' : ExecEntry}

theorem refl (e : ExecEntry) : Evolves e e :=
  ⟨rfl, fun h => ⟨h, rfl, rfl⟩, fun h => h, fun h => h, List.prefix_refl _⟩

theorem trans (h : Evolves e e') (h' : Evolves e' e'') : Evolves e e'' where
  id := h'.id.trans h.id
  terminal ht := by
    obtain ⟨ht', hstatus, hrequested⟩ := h.terminal ht
    obtain ⟨ht'', hstatus', hrequested'⟩ := h'.terminal ht'
    exact ⟨ht'', hstatus'.trans hstatus, hrequested'.trans hrequested⟩
  requested hr := h'.requested (h.requested hr)
  sound hs := h'.sound (h.sound hs)
  recorded := h.recorded.trans h'.recorded

/-- The waiters of an entry are nobody's concern. -/
theorem waiters (e : ExecEntry) (waiters : List Nat) : Evolves e { e with waiters := waiters } :=
  ⟨rfl, fun h => ⟨h, rfl, rfl⟩, fun h => h, fun h => ⟨h.terminal, h.pending, h.history⟩, List.prefix_refl _⟩

theorem wake (e : ExecEntry) : Evolves e e.wake := waiters e []

theorem record (e : ExecEntry) (event : AgentEvent) : Evolves e (e.record event) := by
  unfold ExecEntry.record
  split
  · refine ⟨rfl, fun h => ⟨h, rfl, rfl⟩, fun h => h, fun h => ⟨h.terminal, h.pending, ?_⟩, prefix_append _ _⟩
    exact (ExecReplayBuffer.append_holds h.history _).1
  · exact wake e

theorem settle (h : e.terminal = false) (now : Nat) (observed : ObservedFacts) :
    Evolves e (e.settle now observed) := by
  refine ⟨rfl, fun ht => ?_, fun hr => hr, fun hs => ⟨fun _ => ?_, fun ht => ?_, hs.history⟩, prefix_refl _⟩
  · rw [h] at ht
    cases ht
  · cases hr : e.cancelRequested with
    | true =>
      left
      exact ⟨hr, if_pos hr⟩
    | false =>
      right
      refine ⟨hr, ?_⟩
      show (if e.cancelRequested = true then _ else _) = _ ∨ (if e.cancelRequested = true then _ else _) = _
      rw [hr, if_neg Bool.false_ne_true]
      split
      · exact .inl rfl
      · exact .inr rfl
  · cases ht

/-- A change of an entry that is not terminal: to a pending status, and perhaps to a requested cancellation. -/
theorem pending (h : e.terminal = false) {status : ExecStatus} (hstatus : status = .queued ∨ status = .running)
    (hterminal : e'.terminal = e.terminal) (heq : e'.status = status) (hid : e'.id = e.id)
    (hrequested : e.cancelRequested = true → e'.cancelRequested = true) (hreplay : e'.replay = e.replay)
    (hrecorded : e'.recorded = e.recorded) : Evolves e e' := by
  refine ⟨hid, fun ht => ?_, hrequested, fun hs => ⟨fun ht => ?_, fun _ => ?_, ?_⟩, ?_⟩
  · rw [h] at ht
    cases ht
  · rw [hterminal, h] at ht
    cases ht
  · rw [heq]
    exact hstatus
  · rw [hid, hreplay, hrecorded]
    exact hs.history
  · exact hrecorded ▸ prefix_refl _

/-- A requested cancellation of an entry that is not terminal. -/
theorem request (h : e.terminal = false) : Evolves e { e with cancelRequested := true } := by
  refine ⟨rfl, fun ht => ?_, fun _ => rfl, fun hs => ⟨fun ht => ?_, hs.pending, hs.history⟩, prefix_refl _⟩
  · rw [h] at ht
    cases ht
  · change e.terminal = true at ht
    rw [h] at ht
    cases ht

end Evolves

end ExecEntry

open ExecEntry

structure Evolution (es es' : List ExecEntry) : Prop where
  grows : ∀ (a : Nat) (e : ExecEntry), es[a]? = some e → ∃ e', es'[a]? = some e' ∧ e.Evolves e'
  born : ∀ (a : Nat) (e' : ExecEntry), es'[a]? = some e' → es[a]? = none → e'.Sound

variable {a : Nat} {f : ExecEntry → ExecEntry}

namespace Evolution

variable {es es' es'' : List ExecEntry}

theorem refl (es : List ExecEntry) : Evolution es es where
  grows _ e h := ⟨e, h, Evolves.refl e⟩
  born a e' h h' := by
    rw [h] at h'
    cases h'

theorem trans (h : Evolution es es') (h' : Evolution es' es'') : Evolution es es'' where
  grows a e ha := by
    obtain ⟨e', ha', he⟩ := h.grows a e ha
    obtain ⟨e'', ha'', he'⟩ := h'.grows a e' ha'
    exact ⟨e'', ha'', he.trans he'⟩
  born a e'' ha'' hnone := by
    cases ha' : es'[a]? with
    | none => exact h'.born a e'' ha'' ha'
    | some e' =>
      obtain ⟨e₂, he₂, hevolves⟩ := h'.grows a e' ha'
      rw [ha''] at he₂
      cases he₂
      exact hevolves.sound (h.born a e' ha' hnone)

theorem modify (hf : ∀ e, es[a]? = some e → e.Evolves (f e)) : Evolution es (es.modify a f) where
  grows b e hb := by
    rw [List.getElem?_modify, hb]
    by_cases hab : a = b
    · subst hab
      refine ⟨f e, ?_, hf e hb⟩
      simp
    · refine ⟨e, ?_, Evolves.refl e⟩
      simp [hab]
  born b e' hb hnone := by
    rw [List.getElem?_modify, hnone] at hb
    cases hb

variable {e : ExecEntry}

theorem push (he : e.Sound) : Evolution es (es ++ [e]) where
  grows a e' ha := by
    refine ⟨e', ?_, Evolves.refl e'⟩
    rw [List.getElem?_append_left (List.getElem?_eq_some_iff.1 ha).1]
    exact ha
  born a e' ha hnone := by
    rw [List.getElem?_append_right (List.getElem?_eq_none_iff.1 hnone)] at ha
    rw [List.getElem?_singleton] at ha
    split at ha <;> cases ha
    exact he

theorem sound (h : Evolution es es') (hs : ∀ (a : Nat) (e : ExecEntry), es[a]? = some e → e.Sound) :
    ∀ (a : Nat) (e' : ExecEntry), es'[a]? = some e' → e'.Sound := by
  intro a e' ha'
  cases ha : es[a]? with
  | none => exact h.born a e' ha' ha
  | some e =>
    obtain ⟨e₂, he₂, hevolves⟩ := h.grows a e ha
    rw [ha'] at he₂
    cases he₂
    exact hevolves.sound (hs a e ha)

end Evolution

namespace World

variable {cfg : ExecServiceOptions} {w w' w'' : World}

theorem isTerminal_eq_true : w.isTerminal a = true ↔ ∃ e, w.entries[a]? = some e ∧ e.terminal = true := by
  unfold isTerminal
  cases w.entries[a]? with
  | none => simp
  | some e => simp

theorem isTerminal_eq_false (ha : w.entries[a]? = some e) :
    w.isTerminal a = false ↔ e.terminal = false := by
  unfold isTerminal
  rw [ha]
  rfl

structure Moves (w w' : World) : Prop where
  entries : Evolution w.entries w'.entries
  runs : ∀ run ∈ w'.runs, run ∈ w.runs ∨
    (w.closed = false ∧ ∃ e, w'.entries[run.2]? = some e ∧ e.id = run.1)
  nodup : (OMap.keys w.runs).Nodup → (OMap.keys w'.runs).Nodup
  closed : w.closed = true → w'.closed = true
  consumers : w.closed = true → w'.consumers.length = w.consumers.length

variable {runs : OMap ExecId Nat}

namespace Moves

theorem refl (w : World) : Moves w w :=
  ⟨Evolution.refl _, fun _ h => .inl h, fun h => h, fun h => h, fun _ => rfl⟩

theorem trans (h : Moves w w') (h' : Moves w' w'') : Moves w w'' where
  entries := h.entries.trans h'.entries
  runs run hrun := by
    rcases h'.runs run hrun with hmem | ⟨hclosed, hentry⟩
    · rcases h.runs run hmem with hmem | ⟨hclosed, e, he, hid⟩
      · exact .inl hmem
      · obtain ⟨e', he', hevolves⟩ := h'.entries.grows _ _ he
        exact .inr ⟨hclosed, e', he', hevolves.id.trans hid⟩
    right
    refine ⟨?_, hentry⟩
    cases hw : w.closed with
    | false => rfl
    | true =>
      rw [h.closed hw] at hclosed
      cases hclosed
  nodup hn := h'.nodup (h.nodup hn)
  closed hw := h'.closed (h.closed hw)
  consumers hw := (h'.consumers (h.closed hw)).trans (h.consumers hw)

theorem of_eq (hentries : w'.entries = w.entries) (hruns : w'.runs = w.runs)
    (hclosed : w.closed = true → w'.closed = true) (hconsumers : w'.consumers.length = w.consumers.length) :
    Moves w w' where
  entries := hentries ▸ Evolution.refl _
  runs _ hrun := .inl (hruns ▸ hrun)
  nodup hn := hruns ▸ hn
  closed := hclosed
  consumers _ := hconsumers

theorem modify (hf : ∀ e, w.entries[a]? = some e → e.Evolves (f e)) : Moves w (w.modify a f) :=
  ⟨Evolution.modify hf, fun _ h => .inl h, fun h => h, fun h => h, fun _ => rfl⟩

theorem of_runs
    (h : ∀ run ∈ runs, run ∈ w.runs ∨ (w.closed = false ∧ ∃ e, w.entries[run.2]? = some e ∧ e.id = run.1))
    (hnodup : (w.runs.keys).Nodup → (runs.keys).Nodup) : Moves w { w with runs := runs } :=
  ⟨Evolution.refl _, h, hnodup, fun h => h, fun _ => rfl⟩

end Moves

variable {ids : List Nat} {bytes : Nat}

theorem mem_pruneRuns {run : ExecId × Nat} (h : run ∈ w.pruneRuns cfg ids bytes runs) :
    run ∈ runs := by
  induction ids generalizing bytes runs with
  | nil => exact h
  | cons a rest ih =>
    unfold pruneRuns at h
    split at h
    · exact (OMap.mem_of_mem_delete (ih h)).1
    · exact h

theorem nodup_pruneRuns (h : (runs.keys).Nodup) :
    (OMap.keys (w.pruneRuns cfg ids bytes runs)).Nodup := by
  induction ids generalizing bytes runs with
  | nil => exact h
  | cons a rest ih =>
    unfold pruneRuns
    split
    · exact ih (OMap.nodup_keys_delete h _)
    · exact h

theorem mem_pruneRuns_of_ne {run : ExecId × Nat} (hrun : run ∈ runs)
    (h : ∀ a ∈ ids, w.idOf a ≠ run.1) : run ∈ w.pruneRuns cfg ids bytes runs := by
  induction ids generalizing bytes runs with
  | nil => exact hrun
  | cons a rest ih =>
    unfold pruneRuns
    split
    · refine ih ?_ fun b hb => h b (mem_cons_of_mem _ hb)
      unfold OMap.delete
      rw [mem_filter]
      exact ⟨hrun, decide_eq_true (Ne.symm (h a (mem_cons_self ..)))⟩
    · exact hrun

theorem moves_pruneCompleted (w : World) : Moves w (w.pruneCompleted cfg) :=
  Moves.of_runs (fun _ h => .inl (mem_pruneRuns h)) nodup_pruneRuns

theorem moves_settle (w : World) (now a : Nat) (observed : ObservedFacts) :
    Moves w (w.settle cfg now a observed) := by
  unfold settle
  split
  · exact Moves.refl w
  rename_i hterminal
  refine (Moves.modify fun e ha => ?_).trans (moves_pruneCompleted _)
  refine Evolves.settle ?_ now observed
  exact (isTerminal_eq_false ha).1 (Bool.eq_false_iff.2 hterminal)

theorem isTerminal_of_moves (h : Moves w w') (ha : w.isTerminal a = true) : w'.isTerminal a = true := by
  obtain ⟨e, he, hterminal⟩ := isTerminal_eq_true.1 ha
  obtain ⟨e', he', hevolves⟩ := h.entries.grows a e he
  exact isTerminal_eq_true.2 ⟨e', he', (hevolves.terminal hterminal).1⟩

theorem isTerminal_settle (ha : a < w.entries.length) (now : Nat) (observed : ObservedFacts) :
    (w.settle cfg now a observed).isTerminal a = true := by
  unfold settle
  split
  · assumption
  refine isTerminal_eq_true.2 ⟨(w.entries[a]).settle now observed, ?_, rfl⟩
  show (w.entries.modify a _)[a]? = _
  rw [List.getElem?_modify, List.getElem?_eq_getElem ha]
  simp

theorem length_le_of_moves (h : Moves w w') (ha : a < w.entries.length) : a < w'.entries.length := by
  obtain ⟨e', he', -⟩ := h.entries.grows a _ (List.getElem?_eq_getElem ha)
  exact (List.getElem?_eq_some_iff.1 he').1

/-- The addresses of the table are entries under their ids. -/
def Registered (w : World) : Prop := ∀ run ∈ w.runs, ∃ e, w.entries[run.2]? = some e ∧ e.id = run.1

theorem Registered.moves (h : Registered w) (hm : Moves w w') : Registered w' := by
  intro run hrun
  rcases hm.runs run hrun with hmem | ⟨-, hentry⟩
  · obtain ⟨e, he, hid⟩ := h run hmem
    obtain ⟨e', he', hevolves⟩ := hm.entries.grows _ _ he
    exact ⟨e', he', hevolves.id.trans hid⟩
  · exact hentry

theorem idOf_eq (ha : w.entries[a]? = some e) : w.idOf a = e.id := by
  unfold idOf
  rw [ha]
  rfl

theorem idOf_modify {b : Nat} (hf : ∀ e, (f e).id = e.id) : (w.modify a f).idOf b = w.idOf b := by
  unfold idOf
  show ((w.entries.modify a f)[b]?).elim [] _ = _
  rw [List.getElem?_modify]
  cases w.entries[b]? with
  | none => rfl
  | some e =>
    by_cases hab : a = b
    · simp only [hab, if_true]
      exact hf e
    · simp only [hab, if_false]
      rfl

theorem idOf_enqueue (w : World) (a b : Nat) (onCancel : Bool) : (w.enqueue a onCancel).idOf b = w.idOf b := by
  have hmodify : (w.modify a fun e => { e with status := .queued, onCancel := onCancel }).idOf b = w.idOf b :=
    idOf_modify fun _ => rfl
  exact hmodify

theorem moves_enqueue (ha : w.isTerminal a = false) (hentry : a < w.entries.length) (hclosed : w.closed = false)
    (onCancel : Bool) : Moves w (w.enqueue a onCancel) := by
  have hmodify : Moves w (w.modify a fun e => { e with status := .queued, onCancel := onCancel }) := by
    refine Moves.modify fun e he => ?_
    exact Evolves.pending ((isTerminal_eq_false he).1 ha) (.inl rfl) rfl rfl rfl (fun h => h) rfl rfl
  refine hmodify.trans (Moves.of_runs (fun run hrun => ?_) fun h => OMap.nodup_keys_set h _ _)
  rcases OMap.mem_set hrun with rfl | hmem
  · right
    refine ⟨hclosed, ?_⟩
    obtain ⟨e', he', hevolves⟩ := hmodify.entries.grows a _ (List.getElem?_eq_getElem hentry)
    refine ⟨e', he', ?_⟩
    rw [hevolves.id]
    exact (idOf_eq (List.getElem?_eq_getElem hentry)).symm
  · exact .inl hmem

variable {now : Nat} {clientId : JsString} {id : Option ExecId} {prepared : World × Nat}

variable (h : w.prepare cfg now clientId id = .ok prepared)
include h

theorem prepare_ok :
    (prepared.1 = w ∧ ∃ key, id = some key ∧ w.runs.get key = some prepared.2) ∨
      (prepared.2 = w.entries.length ∧ ∃ entry, entry.Sound ∧ entry.terminal = false ∧ entry.recorded = [] ∧
        entry.id = w.resolvedId now id ∧ ∃ sequence,
          prepared.1 = { w with entries := w.entries ++ [entry], sequence := sequence }) := by
  unfold prepare at h
  split at h
  · cases h
  split at h
  · cases h
  dsimp only at h
  split at h
  · cases h
    right
    refine ⟨rfl, _, ⟨fun ht => ?_, fun _ => .inr rfl, ExecReplayBuffer.holds_create _ _ _⟩, rfl, rfl, rfl, _, rfl⟩
    cases ht
  rename_i a hfound
  split at h <;> cases h
  left
  refine ⟨rfl, ?_⟩
  cases id with
  | none => cases hfound
  | some key =>
    refine ⟨key, rfl, ?_⟩
    rw [Option.filter_some] at hfound
    split at hfound
    · exact hfound
    · cases hfound

theorem prepare_lt (hregistered : Registered w) : prepared.2 < prepared.1.entries.length := by
  rcases prepare_ok h with ⟨heq, key, -, hget⟩ | ⟨heq, entry, -, -, -, -, sequence, hworld⟩
  · obtain ⟨e, he, -⟩ := hregistered _ (OMap.mem_of_get hget)
    rw [heq]
    exact (List.getElem?_eq_some_iff.1 he).1
  · rw [hworld, heq]
    simp

theorem prepare_closed : prepared.1.closed = w.closed := by
  rcases prepare_ok h with ⟨heq, -⟩ | ⟨-, entry, -, -, -, -, sequence, heq⟩ <;> rw [heq]

omit h

theorem idOf_prepare (hregistered : Registered w) (h : w.prepare cfg now clientId id = .ok prepared) :
    prepared.1.idOf prepared.2 = w.resolvedId now id := by
  rcases prepare_ok h with ⟨heq, key, rfl, hget⟩ | ⟨haddress, entry, -, -, -, hid, sequence, heq⟩
  · obtain ⟨e, he, hkey⟩ := hregistered _ (OMap.mem_of_get hget)
    rw [heq, idOf_eq he, hkey]
    rfl
  rw [heq, haddress]
  refine (idOf_eq (e := entry) ?_).trans hid
  show (w.entries ++ [entry])[w.entries.length]? = _
  rw [List.getElem?_concat_length]

theorem moves_bind {k : Nat} {st : StartRun} {session : Nat} (hopen : w.closed = false)
    (hterminal : w.isTerminal st.entry = false) (hentry : st.entry < w.entries.length) :
    Moves w (w.bind k st session) := by
  have hrunning : Evolution w.entries (w.bind k st session).entries := by
    refine Evolution.modify fun e he => ?_
    exact Evolves.pending ((isTerminal_eq_false he).1 hterminal) (.inr rfl) rfl rfl rfl (fun h => h) rfl rfl
  refine ⟨hrunning, fun run hrun => ?_, fun h => OMap.nodup_keys_set h _ _, fun h => h, fun h => ?_⟩
  · rcases OMap.mem_set hrun with rfl | hmem
    · right
      refine ⟨hopen, ?_⟩
      obtain ⟨e', he', hevolves⟩ := hrunning.grows _ _ (List.getElem?_eq_getElem hentry)
      exact ⟨e', he', hevolves.id.trans (idOf_eq (List.getElem?_eq_getElem hentry)).symm⟩
    · exact .inl hmem
  · rw [hopen] at h
    cases h

/-! ### Writes -/

/-- One write to the entries or the table; `names` are the ids under which entries may be registered. -/
inductive Write (cfg : ExecServiceOptions) (names : ExecId → Prop) : World → World → Prop
  | frame {w w' : World} : w'.entries = w.entries → w'.runs = w.runs → (w.closed = true → w'.closed = true) →
      w'.consumers.length = w.consumers.length → Write cfg names w w'
  | prune (w : World) : Write cfg names w (w.pruneCompleted cfg)
  | modify {w : World} (a : Nat) (f : ExecEntry → ExecEntry) : (∀ e, w.entries[a]? = some e → e.Evolves (f e)) →
      (∀ e, e.terminal = true ∨ e.status = .running → (f e).terminal = true ∨ (f e).status = .running) →
      Write cfg names w (w.modify a f)
  | push {w : World} (entry : ExecEntry) (sequence : Nat) : entry.Sound →
      Write cfg names w { w with entries := w.entries ++ [entry], sequence := sequence }
  | enqueue {w : World} {a : Nat} (onCancel : Bool) : w.isTerminal a = false → a < w.entries.length →
      w.closed = false → names (w.idOf a) → Write cfg names w (w.enqueue a onCancel)

abbrev Writes (cfg : ExecServiceOptions) (names : ExecId → Prop) : World → World → Prop :=
  Relation.ReflTransGen (Write cfg names)

variable {names : ExecId → Prop}

theorem Write.moves (h : Write cfg names w w') : Moves w w' := by
  cases h with
  | frame hentries hruns hclosed hconsumers => exact Moves.of_eq hentries hruns hclosed hconsumers
  | prune => exact moves_pruneCompleted w
  | modify a f hf => exact Moves.modify hf
  | push entry sequence hsound =>
    exact ⟨Evolution.push hsound, fun _ h => .inl h, fun h => h, fun h => h, fun _ => rfl⟩
  | enqueue onCancel hterminal hlt hclosed => exact moves_enqueue hterminal hlt hclosed onCancel

theorem Writes.moves (h : Writes cfg names w w') : Moves w w' := by
  induction h with
  | refl => exact Moves.refl w
  | tail _ hwrite ih => exact ih.trans hwrite.moves

namespace Writes

theorem refl (w : World) : Writes cfg names w w := Relation.ReflTransGen.refl

/-- A step that leaves the entries and the table alone. -/
theorem frame (hentries : w'.entries = w.entries) (hruns : w'.runs = w.runs) (hclosed : w'.closed = w.closed)
    (hconsumers : w'.consumers.length = w.consumers.length) : Writes cfg names w w' :=
  .single (.frame hentries hruns (fun h => hclosed.trans h) hconsumers)

theorem emit (w : World) (effects : List Effect) : Writes cfg names w (w.emit effects) := frame rfl rfl rfl rfl

theorem setIterator (w : World) (i : Nat) (it : Iterator) : Writes cfg names w (w.setIterator i it) :=
  frame rfl rfl rfl rfl

theorem setConsumer (w : World) (c : Nat) (run : ConsumeRun) : Writes cfg names w (w.setConsumer c run) :=
  frame rfl rfl rfl (List.length_set ..)

theorem settle (w : World) (now a : Nat) (observed : ObservedFacts) :
    Writes cfg names w (w.settle cfg now a observed) := by
  unfold World.settle
  split
  · exact refl w
  · rename_i hterminal
    refine .tail (.single (.modify a _ (fun e ha => ?_) fun _ _ => .inl rfl)) (.prune _)
    exact Evolves.settle ((isTerminal_eq_false ha).1 (Bool.eq_false_iff.2 hterminal)) now observed

theorem prepare (h : w.prepare cfg now clientId id = .ok prepared) : Writes cfg names w prepared.1 := by
  rcases prepare_ok h with ⟨heq, -⟩ | ⟨-, entry, hsound, -, -, -, sequence, heq⟩
  · rw [heq]
  · rw [heq]
    exact .single (.push entry sequence hsound)

theorem answered {result : Except JsString World} (h : ∀ w', result = .ok w' → Writes cfg names w w') :
    Writes cfg names w (w.answered result) := by
  cases result with
  | error _ => exact refl w
  | ok w' => exact h w' rfl

theorem registerQueued (hregistered : Registered w) {client : JsString} {onCancel : Bool}
    (hnames : names (id.getD [])) (h : w.registerQueued cfg now client id onCancel = .ok w') :
    Writes cfg names w w' := by
  unfold World.registerQueued at h
  split at h
  · cases h
  rename_i hopen
  split at h
  · cases h
  split at h
  · cases h
  rename_i hid hnew
  cases hprepare : w.prepare cfg now (trim client) id <;> rw [hprepare] at h
  case error e => cases h
  case ok prepared =>
    cases h
    have hresolved : w.resolvedId now id = id.getD [] := by
      cases id with
      | none => exact absurd rfl hid
      | some key => rfl
    refine .tail (prepare hprepare) (.enqueue onCancel ?_ (prepare_lt hprepare hregistered) ?_ ?_)
    · rcases prepare_ok hprepare with ⟨-, key, hkey, hget⟩ | ⟨heq, entry, -, hterminal, -, -, sequence, hworld⟩
      · subst hkey
        have hhas : w.runs.has key = true := by
          unfold OMap.has
          rw [hget]
          rfl
        exact absurd hhas hnew
      · rw [hworld, heq]
        refine (isTerminal_eq_false ?_).2 hterminal
        show (w.entries ++ [entry])[w.entries.length]? = _
        rw [List.getElem?_concat_length]
    · rw [prepare_closed hprepare]
      exact Bool.eq_false_iff.2 hopen
    · rw [idOf_prepare hregistered hprepare, hresolved]
      exact hnames

theorem start (hregistered : Registered w) {client : JsString} {options : ExecStartOptions}
    (hnames : names (w.resolvedId now id)) (h : w.start cfg now client id options = .ok w') :
    Writes cfg names w w' := by
  unfold World.start at h
  split at h
  · cases h
  rename_i hopen
  split at h
  · cases h
  rename_i prepared hprepare
  dsimp only at h
  split at h
  · split at h <;> cases h
    rename_i hterminal
    have henqueue : Write cfg names prepared.1 (prepared.1.enqueue prepared.2 options.onCancel) := by
      refine .enqueue _ (Bool.eq_false_iff.2 hterminal) (prepare_lt hprepare hregistered) ?_ ?_
      · rw [prepare_closed hprepare]
        exact Bool.eq_false_iff.2 hopen
      · rw [idOf_prepare hregistered hprepare]
        exact hnames
    have hwake : Write cfg names (prepared.1.enqueue prepared.2 options.onCancel)
        ((prepared.1.enqueue prepared.2 options.onCancel).modify prepared.2 (·.wake)) :=
      .modify _ _ (fun e _ => Evolves.wake e) fun _ h => h
    exact (((prepare hprepare).tail henqueue).tail hwake).trans (frame rfl rfl rfl rfl)
  · cases h
    exact (prepare hprepare).trans (frame rfl rfl rfl rfl)

theorem reject (w : World) (now k : Nat) (st : StartRun) (error : JsString) :
    Writes cfg names w (w.reject cfg now k st error) := by
  unfold World.reject
  have hstart : Writes cfg names w (w.setStart k { st with phase := .rejected }) := frame rfl rfl rfl rfl
  split
  · exact hstart.trans (settle _ now _ _)
  · exact hstart

theorem drained (w : World) (now c : Nat) (run : ConsumeRun) : Writes cfg names w (w.drained cfg now c run) :=
  (settle w now _ _).trans (frame rfl rfl rfl (List.length_set ..))

theorem request (h : w.isTerminal a = false) :
    Writes cfg names w (w.modify a fun e => { e with cancelRequested := true }) :=
  .single (.modify _ _ (fun _ he => Evolves.request ((isTerminal_eq_false he).1 h)) fun _ h => h)

theorem cancel {id : ExecId} (h : w.cancel cfg now id = .ok w') : Writes cfg names w w' := by
  unfold World.cancel at h
  split at h
  · cases h
  rename_i a hget
  split at h
  · cases h
    exact refl w
  rename_i e he
  split at h
  · cases h
    exact refl w
  rename_i hterminal
  have hrequest : Writes cfg names w (w.modify a fun e => { e with cancelRequested := true }) :=
    request ((isTerminal_eq_false he).2 (Bool.eq_false_iff.2 hterminal))
  split at h
  · cases h
    exact hrequest.trans (emit _ _)
  · cases h
    exact (hrequest.trans (emit _ _)).trans (settle _ now _ _)

theorem setQueuePosition (w : World) (id : ExecId) (position : Option Nat) :
    Writes cfg names w (w.setQueuePosition id position) := by
  unfold World.setQueuePosition
  split
  · exact refl w
  split
  · exact refl w
  · refine .single (.modify _ _ (fun e _ => ?_) fun _ h => h)
    exact ⟨rfl, fun h => ⟨h, rfl, rfl⟩, fun h => h, fun h => ⟨h.terminal, h.pending, h.history⟩, prefix_refl _⟩

theorem failStart (w : World) (now : Nat) (id : ExecId) (error : Option JsString) :
    Writes cfg names w (w.failStart cfg now id error) := by
  unfold World.failStart
  split
  · exact refl w
  · exact settle w now _ _

theorem requests {live : List Nat} (h : ∀ a ∈ live, w.isTerminal a = false) :
    Writes cfg names w (live.foldl (fun w a => w.modify a fun e => { e with cancelRequested := true }) w) := by
  induction live generalizing w with
  | nil => exact refl w
  | cons a live ih =>
    refine (request (h a (mem_cons_self ..))).trans (ih fun b hb => ?_)
    have hterminal := h b (mem_cons_of_mem _ hb)
    unfold isTerminal at hterminal ⊢
    show ((w.entries.modify a _)[b]?).any _ = false
    rw [List.getElem?_modify]
    cases hentry : w.entries[b]? with
    | none => rfl
    | some e =>
      rw [hentry] at hterminal
      by_cases hab : a = b
      · simp only [hab, if_true]
        exact hterminal
      · simp only [hab, if_false]
        exact hterminal

theorem settles (w : World) (now : Nat) (live : List Nat) :
    Writes cfg names w (live.foldl (fun w a => w.settle cfg now a .empty) w) := by
  induction live generalizing w with
  | nil => exact refl w
  | cons a live ih =>
    exact (settle w now a _).trans (ih _)

theorem advance {i : Nat} (h : w.advance i = some w') : Writes cfg names w w' := by
  unfold World.advance at h
  split at h
  · cases h
  split at h
  any_goals
    cases h
    exact frame rfl rfl rfl rfl
  · split at h <;> cases h <;> exact frame rfl rfl rfl rfl
  · split at h
    · cases h
      have hwait : ∀ (w : World) (a : Nat),
          Write cfg names w (w.modify a fun e => { e with waiters := e.waiters ++ [i] }) := fun w a =>
        .modify _ _ (fun e _ => Evolves.waiters e _) fun _ h => h
      exact .tail (setIterator _ _ _) (hwait _ _)
    · split at h <;> cases h <;> exact frame rfl rfl rfl rfl
  · split at h <;> cases h
    exact frame rfl rfl rfl rfl
  · cases h
  · cases h

end Writes

theorem moves_settles (w : World) (now : Nat) (live : List Nat) :
    Moves w (live.foldl (fun w a => w.settle cfg now a .empty) w) :=
  (@Writes.settles cfg (fun _ => False) w now live).moves

theorem mem_live : a ∈ w.live ↔ (∃ id, (id, a) ∈ w.runs) ∧ w.isTerminal a = false := by
  unfold live
  rw [mem_filter, mem_map]
  constructor
  · rintro ⟨⟨run, hrun, rfl⟩, hterminal⟩
    exact ⟨⟨run.1, hrun⟩, by simpa using hterminal⟩
  · rintro ⟨⟨id, hrun⟩, hterminal⟩
    exact ⟨⟨_, hrun, rfl⟩, by simpa using hterminal⟩

def bound (cfg : ExecServiceOptions) (w : World) (k : Nat) (st : StartRun) : World :=
  (({ w with sessions := w.sessions + 1 } : World).bind k st w.sessions).pruneCompleted cfg

/-- The ids under which an operation may register an entry. -/
def registers (w : World) (now : Nat) (op : Op) (id : ExecId) : Prop :=
  (∃ client key onCancel, op = .registerQueued client key onCancel ∧ id = key.getD []) ∨
    ∃ client key options, op = .start client key options ∧ id = w.resolvedId now key

def Started (w : World) : Prop := ∀ st ∈ w.starts, st.entry < w.entries.length

/-- Every operation writes like this, or binds a session. -/
theorem writes_perform (hregistered : Registered w) {op : Op} (h : w.perform cfg now op = some w') :
    Writes cfg (w.registers now op) w w' ∨ ∃ j sj, w.starts[j]? = some sj ∧ w.closed = false ∧ w.isTerminal sj.entry =
    false ∧ w' = w.bound cfg j sj := by
  have hframe : ∀ {w' : World}, w'.entries = w.entries → w'.runs = w.runs → w'.closed = w.closed →
      w'.consumers.length = w.consumers.length → Writes cfg (w.registers now op) w w' ∨ ∃ j sj,
        w.starts[j]? = some sj ∧ w.closed = false ∧ w.isTerminal sj.entry = false ∧ w' = w.bound cfg j sj :=
    fun he hr hc hn => .inl (Writes.frame he hr hc hn)
  cases op <;> simp only [perform] at h
  case registerQueued client id onCancel =>
    cases h
    exact .inl (Writes.answered fun w' h =>
      Writes.registerQueued hregistered (.inl ⟨client, id, onCancel, rfl, rfl⟩) h)
  case start client id options =>
    cases h
    exact .inl (Writes.answered fun w' h => Writes.start hregistered (.inr ⟨client, id, options, rfl, rfl⟩) h)
  case prepared k outcome | clientPrepared k outcome =>
    obtain ⟨st, -, h⟩ := Option.bind_eq_some_iff.1 h
    split at h <;> cases h <;> exact hframe rfl rfl rfl rfl
  case started k outcome =>
    obtain ⟨st, hst, h⟩ := Option.bind_eq_some_iff.1 h
    split at h
    · cases h
      unfold opened
      split
      · exact hframe rfl rfl rfl rfl
      · rename_i hlive
        obtain ⟨hopen, hterminal⟩ := Bool.or_eq_false_iff.1 (Bool.eq_false_iff.2 hlive)
        exact .inr ⟨k, st, hst, hopen, hterminal, rfl⟩
    · cases h
      exact hframe rfl rfl rfl rfl
    · cases h
  case lateCancelled k error | iterate k =>
    obtain ⟨st, -, h⟩ := Option.bind_eq_some_iff.1 h
    split at h <;> cases h
    exact hframe rfl rfl rfl rfl
  case released k =>
    obtain ⟨st, -, h⟩ := Option.bind_eq_some_iff.1 h
    split at h
    · split at h
      · cases h
        exact hframe rfl rfl rfl rfl
      · cases h
        exact .inl ((Writes.emit w _).trans (Writes.reject ..))
    · cases h
  case finalized k =>
    obtain ⟨st, -, h⟩ := Option.bind_eq_some_iff.1 h
    split at h <;> cases h
    exact .inl (Writes.reject ..)
  case event c event =>
    obtain ⟨run, -, h⟩ := Option.bind_eq_some_iff.1 h
    split at h <;> cases h
    have hrecord : Write cfg (w.registers now (.event c event)) w (w.modify run.entry (·.record event)) := by
      refine .modify _ _ (fun e _ => Evolves.record e event) fun e he => ?_
      unfold ExecEntry.record
      split <;> exact he
    exact .inl ((Relation.ReflTransGen.single hrecord).trans (Writes.setConsumer ..))
  case streamEnd c | streamCancelled c =>
    obtain ⟨run, -, h⟩ := Option.bind_eq_some_iff.1 h
    split at h <;> cases h
    exact .inl (Writes.drained ..)
  case streamError | consumerFinalized =>
    obtain ⟨run, -, h⟩ := Option.bind_eq_some_iff.1 h
    split at h <;> cases h
    exact hframe rfl rfl rfl (length_set ..)
  case consumerReleased c =>
    obtain ⟨run, -, h⟩ := Option.bind_eq_some_iff.1 h
    split at h
    · obtain ⟨st, -, h⟩ := Option.map_eq_some_iff.1 h
      split at h <;> cases h <;> exact hframe rfl rfl rfl (length_set ..)
    · cases h
  case setQueuePosition id position =>
    cases h
    exact .inl (Writes.setQueuePosition ..)
  case failStart id error =>
    cases h
    exact .inl (Writes.failStart ..)
  case cancel id =>
    cases h
    exact .inl (Writes.answered fun w' h => Writes.cancel h)
  case close =>
    cases h
    exact .inl ((Writes.requests fun a (ha : a ∈ w.live) => (mem_live.1 ha).2).tail
      (.frame rfl rfl (fun _ => rfl) rfl))
  case closeCancelled i =>
    obtain ⟨run, -, h⟩ := Option.bind_eq_some_iff.1 h
    split at h <;> cases h
    exact hframe rfl rfl rfl rfl
  case closeWaited i =>
    obtain ⟨run, -, h⟩ := Option.bind_eq_some_iff.1 h
    split at h <;> cases h
    exact .inl ((Writes.settles w now run.live).trans (Writes.frame rfl rfl rfl rfl))
  case advance i => exact .inl (Writes.advance h)

/-- A step moves every entry forward. -/
theorem moves_perform (hregistered : Registered w) (hstarted : Started w) {op : Op}
    (h : w.perform cfg now op = some w') : Moves w w' := by
  rcases writes_perform hregistered h with hwrites | ⟨j, sj, hj, hopen, hterminal, rfl⟩
  · exact hwrites.moves
  · have hreturned : Moves w { w with sessions := w.sessions + 1 } := Moves.of_eq rfl rfl (fun h => h) rfl
    exact (hreturned.trans (moves_bind hopen hterminal (hstarted sj (mem_of_getElem? hj)))).trans
      (moves_pruneCompleted _)

end World

end Wrenyard.Exec
