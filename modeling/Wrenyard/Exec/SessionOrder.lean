import Wrenyard.Exec.SessionProtocol

/-!
# The order of a session's frames

If the child's output comes behind its spawn and the spawn is not reported to an ended session (`Orderly`), a
confirmed start is the first published frame and output follows it (`Ordered`).  The outcome of the start is final,
and a session that is settled can always end (`protocol`).  A spawn that is reported behind the end confirms a start
whose frame is dropped (`started_missing`).
-/

namespace Wrenyard.Exec.Process

open Js Transition Option

namespace Session

variable {cfg : StartProcessOptions} {s s' : Session}

/-- The start is told first, and only once it is confirmed. -/
def Ordered (s : Session) : Prop :=
  (s.started = false → s.published = []) ∧
    (s.started = true → ∃ pid outputs, s.published = .started pid :: outputs ∧ ∀ e ∈ outputs, isOutput e = true)

theorem Ordered.congr (h : Ordered s) (hstarted : s'.started = s.started) (hpublished : s'.published = s.published) :
    Ordered s' := by
  unfold Ordered
  rw [hstarted, hpublished]
  exact h

theorem Ordered.settle (h : Ordered s) (value : ExecutionResult) (success : Bool) (errorMessage : Option JsString) :
    Ordered (s.settle value success errorMessage) :=
  h.congr (published_settle ..).2.1 (published_settle ..).1

/-- Output of a child that has started. -/
theorem Ordered.accept (h : Ordered s) {e : ExecutionEvent} (he : isOutput e = true)
    (horder : s.started = true ∨ s.terminal = true) : Ordered (s.accept e) := by
  cases hterminal : s.terminal with
  | true =>
    rw [accept_of_terminal hterminal]
    exact h
  | false =>
    cases hqueue : s.queue.push e with
    | none =>
      rw [accept_of_full hterminal hqueue]
      exact h.settle ..
    | some queue =>
      rw [accept_of_taken hterminal hqueue]
      have hstarted : s.started = true := by
        rcases horder with hstarted | hend
        · exact hstarted
        · rw [hterminal] at hend
          cases hend
      obtain ⟨pid, outputs, hpublished, houtputs⟩ := h.2 hstarted
      refine ⟨(fun hs => by rw [show s.started = false from hs] at hstarted; cases hstarted), fun _ => ?_⟩
      refine ⟨pid, outputs ++ [e], ?_, fun e' he' => ?_⟩
      · rw [published_log (not_isTail_of_isOutput he).1, hpublished]
        rfl
      · rw [List.mem_append, List.mem_singleton] at he'
        rcases he' with he' | rfl
        · exact houtputs e' he'
        · exact he

theorem push_first (h : Base s) (hpublished : s.published = []) (hterminal : s.terminal = false)
    (e : ExecutionEvent) :
    s.queue.push e = some (s.queue.hand e) := by
  have hnot := h.not_finished hterminal
  have hopen : ¬ s.queue.closed = true := fun hclosed => hnot (h.closedQueue hclosed)
  have hitems : s.queue.items = [] := by
    have hqueue := h.queue
    rw [h.frames_open hnot, hpublished] at hqueue
    exact (List.append_eq_nil_iff.1 hqueue).2
  unfold Queue.push
  rw [if_neg hopen, if_neg]
  rw [hitems]
  rintro ⟨hle, -⟩
  exact absurd hle (by decide)

theorem Ordered.confirm (h : Ordered s) (hbase : Base s) (horder : s.started = true ∨ s.terminal = false) :
    Ordered s.confirmStarted := by
  cases hstarted : s.started with
  | true =>
    rw [confirmStarted_of_started hstarted]
    exact h
  | false =>
    have hterminal : s.terminal = false := by
      rcases horder with hother | hterminal
      · rw [hstarted] at hother
        cases hother
      · exact hterminal
    have hnone := h.1 hstarted
    have hpush := push_first hbase hnone hterminal (.started s.pid)
    have hopen : s.begun.terminal = false := hterminal
    rw [confirmStarted_of_unstarted hstarted,
      accept_of_taken hopen (show s.begun.queue.push (.started s.pid) = some _ from hpush)]
    refine ⟨(fun hs => by cases hs), fun _ => ⟨s.pid, [], ?_, fun e he => by cases he⟩⟩
    have hlog := published_log (e := .started s.pid) rfl s.begun (s.queue.hand (.started s.pid))
    rw [show s.begun.published = [] from hnone] at hlog
    exact hlog

theorem Ordered.move (h : Ordered s) (hbase : Base s) (hmove : Move True s s') : Ordered s' := by
  cases hmove with
  | still hs => exact h.congr hs.started hs.published
  | prepared | refused | launched | terminate | answered | next => exact h
  | settle value success errorMessage _ => exact h.settle ..
  | accept _ he horder => exact h.accept he (horder trivial)
  | confirm _ horder => exact h.confirm hbase (horder trivial)
  | stage _ _ _ hlog hnone _ => exact h.congr rfl (frames_quiet hlog hnone).2
  | publish cleanupFailure _ _ hlog hhome =>
    obtain ⟨message, heq⟩ := publish_eq _ _ cleanupFailure
    rw [heq]
    exact h.congr rfl (frames_end hlog (frames_cleaned hhome) message _).2

theorem Ordered.moves (h : Ordered s) (hbase : Base s) (hmoves : Moves True s s') : Ordered s' := by
  have hboth : Ordered s' ∧ Base s' := by
    induction hmoves with
    | refl => exact ⟨h, hbase⟩
    | tail _ hmove ih => exact ⟨ih.1.move ih.2 hmove, ih.2.move hmove⟩
  exact hboth.1

variable {o : Except JsString Unit}

theorem startOutcome_settleStarted {o' : Except JsString Unit} (h : s.startOutcome = some o) :
    (s.settleStarted o').startOutcome = some o := by
  unfold settleStarted
  rw [h]
  rfl

theorem startOutcome_settle (value : ExecutionResult) (success : Bool) (errorMessage : Option JsString) :
    (s.settle value success errorMessage).startOutcome = s.startOutcome := by
  unfold settle
  split <;> rfl

theorem startOutcome_accept (e : ExecutionEvent) : (s.accept e).startOutcome = s.startOutcome := by
  unfold accept
  split
  · rfl
  · split
    · rfl
    · exact startOutcome_settle ..

theorem startOutcome_move {ordered : Prop} (hmove : Move ordered s s') (h : s.startOutcome = some o) :
    s'.startOutcome = some o := by
  cases hmove with
  | still hs => exact hs.startOutcome.trans h
  | prepared | launched | terminate | answered | stage | next => exact h
  | refused message _ => exact startOutcome_settleStarted h
  | settle value success errorMessage _ => exact (startOutcome_settle ..).trans h
  | accept _ _ _ => exact (startOutcome_accept _).trans h
  | confirm _ _ =>
    cases hstarted : s.started with
    | true =>
      rw [confirmStarted_of_started hstarted]
      exact h
    | false =>
      rw [confirmStarted_of_unstarted hstarted]
      exact startOutcome_settleStarted ((startOutcome_accept (s := s.begun) _).trans h)
  | publish cleanupFailure _ _ _ _ =>
    obtain ⟨message, heq⟩ := publish_eq _ _ cleanupFailure
    rw [heq]
    show (if s.started then s.startOutcome else s.startOutcome.or _) = some o
    rw [h]
    exact ite_self _

theorem startOutcome_moves {ordered : Prop} (hmoves : Moves ordered s s') (h : s.startOutcome = some o) :
    s'.startOutcome = some o := by
  induction hmoves with
  | refl => exact h
  | tail _ hmove ih => exact startOutcome_move hmove ih

def Step (cfg : StartProcessOptions) (s : Session) (op : Op) (s' : Session) : Prop := s.perform cfg op = some s'

def OrderlyStep (cfg : StartProcessOptions) (s : Session) (op : Op) (s' : Session) : Prop :=
  s.perform cfg op = some s' ∧ s.Orderly op

theorem base_initial : Base initial where
  log := ⟨[], rfl, fun _ => rfl, fun run hrun => by cases hrun⟩
  terminal := rfl
  begun := fun run hrun => by cases hrun
  queue := rfl
  waits := fun hne => absurd rfl hne
  closedQueue := fun hclosed => by cases hclosed
  unstarted := fun _ e he => by cases he
  once := Nat.zero_le 1
  resolved := fun hs => by cases hs
  finished := by
    rintro ⟨run, message, hrun, -⟩
    cases hrun
  accepted := fun hok => by cases hok
  rejected := fun m hm => by cases hm
  listens := by
    rintro (hd | hd | hd | hd | hd)
    any_goals cases hd
    · exact absurd rfl hd
  early := fun _ => ⟨rfl, rfl⟩

variable {tr : List Op}

theorem Base.run (hrun : Run (Step cfg) s tr s') (h : Base s) : Base s' :=
  hrun.invariant Base (fun _ _ _ hbase hstep => hbase.moves (perform_moves hbase hstep)) h

theorem Ordered.run (hrun : Run (OrderlyStep cfg) s tr s') (h : Ordered s) (hbase : Base s) :
    Ordered s' := by
  have hboth := hrun.invariant (fun s => Ordered s ∧ Base s) (fun s op s' hs hstep => by
    have hmoves := perform_moves hs.2 hstep.1
    rw [eq_true hstep.2] at hmoves
    exact ⟨hs.1.moves hs.2 hmoves, hs.2.moves hmoves⟩) ⟨h, hbase⟩
  exact hboth.1

theorem startOutcome_run (hrun : Run (Step cfg) s tr s') (h : Base s) (ho : s.startOutcome = some o) :
    s'.startOutcome = some o := by
  have hboth := hrun.invariant (fun s => s.startOutcome = some o ∧ Base s) (fun s op s' hs hstep =>
    have hmoves := perform_moves hs.2 hstep
    ⟨startOutcome_moves hmoves hs.1, hs.2.moves hmoves⟩) ⟨ho, h⟩
  exact hboth.1

theorem finished_publish (s : Session) (run : Settling) (cleanupFailure : Option JsString) :
    (s.publish run cleanupFailure).Finished := by
  obtain ⟨message, heq⟩ := publish_eq s run cleanupFailure
  rw [heq]
  exact ⟨_, message, rfl, rfl⟩

variable {run : Settling}

theorem finish_home (cfg : StartProcessOptions) (hrun : s.settling = some run) (hstage : run.stage = .home) :
    ∃ tr s', Run (Step cfg) s tr s' ∧ s'.Finished := by
  refine ⟨[.homeCleaned (.ok ())], _, Run.single ?_,
    finished_publish { s with log := s.log ++ [Effect.cleanHome run.success] } run none⟩
  unfold Step perform
  simp only [hrun, hstage, bind_eq_bind, bind_some]

theorem finish_files (cfg : StartProcessOptions) (hrun : s.settling = some run) {treeStopped : Bool}
    {cleanupFailure : Option JsString} {rollback : Bool}
    (hstage : run.stage = .files treeStopped cleanupFailure rollback) :
    ∃ tr s', Run (Step cfg) s tr s' ∧ s'.Finished := by
  cases treeStopped with
  | true =>
    have hstep : Step cfg s .filesCleaned { s with
        log := s.log ++ [Effect.cleanFiles run.success rollback], settling := some { run with stage := .home } } := by
      unfold Step perform
      simp only [hrun, hstage, bind_eq_bind, bind_some, if_true]
    obtain ⟨tr, s', htail, hdone⟩ := finish_home cfg (s := { s with
        log := s.log ++ [Effect.cleanFiles run.success rollback], settling :=
          some { run with stage := .home } }) rfl rfl
    exact ⟨_, s', Run.cons hstep htail, hdone⟩
  | false =>
    refine ⟨[.filesCleaned], _, Run.single ?_, finished_publish
      { s with log := s.log ++ [Effect.cleanFiles run.success rollback] } run cleanupFailure⟩
    unfold Step perform
    simp only [hrun, hstage, bind_eq_bind, bind_some, if_neg Bool.false_ne_true]

theorem finish_tree (cfg : StartProcessOptions) (hrun : s.settling = some run) (hstage : run.stage = .tree)
    {r : Except JsString Unit} (hterm : s.terminating = some (some r)) :
    ∃ tr s', Run (Step cfg) s tr s' ∧ s'.Finished := by
  have hstep : ∃ treeStopped cleanupFailure rollback, Step cfg s .settleTree { s with
      settling := some { run with stage := .files treeStopped cleanupFailure rollback } } := by
    unfold Step perform
    simp only [hrun, hterm, hstage, bind_eq_bind, bind_some]
    cases r with
    | ok | error => exact ⟨_, _, _, rfl⟩
  obtain ⟨treeStopped, cleanupFailure, rollback, hstep⟩ := hstep
  obtain ⟨tr, s', htail, hdone⟩ := finish_files cfg (s := { s with
      settling := some { run with stage := .files treeStopped cleanupFailure rollback } }) rfl rfl
  exact ⟨_, s', Run.cons hstep htail, hdone⟩

/-- A settled session can end, whatever the termination of its tree answers. -/
theorem Base.finish (h : Base s) (hterminal : s.terminal = true) : ∃ tr s', Run (Step cfg) s tr s' ∧ s'.Finished := by
  obtain ⟨run, hrun⟩ := isSome_iff_exists.1 (h.terminal.symm.trans hterminal)
  obtain ⟨answer, hterm⟩ := isSome_iff_exists.1 (h.begun run hrun)
  cases hstage : run.stage with
  | done message => exact ⟨[], s, Run.nil s, run, message, hrun, hstage⟩
  | home => exact finish_home cfg hrun hstage
  | files treeStopped cleanupFailure rollback => exact finish_files cfg hrun hstage
  | tree =>
    cases answer with
    | some r => exact finish_tree cfg hrun hstage hterm
    | none =>
      have hstep : Step cfg s (.treeTerminated (.ok ())) { s with terminating := some (some (.ok ())) } := by
        unfold Step perform
        simp only [hterm]
      obtain ⟨tr, s', htail, hdone⟩ := finish_tree cfg (s := { s with terminating := some (some (.ok ())) })
        hrun hstage rfl
      exact ⟨_, s', Run.cons hstep htail, hdone⟩

theorem isStarted_tailFrames {message : Option JsString} {value : ExecutionResult} {e : ExecutionEvent}
    (h : e ∈ tailFrames message value) : isStarted e = false := by
  unfold tailFrames at h
  rw [List.mem_append, List.mem_singleton] at h
  rcases h with h | rfl
  · obtain ⟨m, -, hm⟩ := map_eq_some_iff.1 (mem_toList.1 h)
    rw [← hm]
    rfl
  · rfl

/-- What holds in every order of events.  A session that has published its end has cleaned up its files, and its run
home unless the tree could not be terminated, before it queued at most one `error` frame and the `exit` frame, closed
the queue and resolved its result; before that it has published no end at all. -/
theorem session_end {tr : List Op} {st : Session} (h : Run (Step cfg) initial tr st) :
    (∀ run message, st.settling = some run → run.stage = .done message →
      st.frames = st.published ++ tailFrames message run.value ∧
        ∃ rollback home, st.log = st.published.map .frame ++ ([Effect.cleanFiles run.success rollback] ++ home ++
            endLog message run.value) ∧
          (home = [Effect.cleanHome run.success] ∧ st.terminating = some (some (.ok ())) ∨
            home = [] ∧ ∃ m, st.terminating = some (some (.error m)))) ∧
      (¬ st.Finished → st.frames = st.published ∧ ∀ value, Effect.resolveResult value ∉ st.log) ∧
      (∀ m, st.startOutcome = some (.error m) → ∀ e ∈ st.frames, isStarted e = false) := by
  have hbase : Base st := base_initial.run h
  have hend : ∀ run message, st.settling = some run → run.stage = .done message →
      ∃ rollback home, st.log = st.published.map .frame ++ ([Effect.cleanFiles run.success rollback] ++ home ++
          endLog message run.value) ∧
        (home = [Effect.cleanHome run.success] ∧ st.terminating = some (some (.ok ())) ∨
          home = [] ∧ ∃ m, st.terminating = some (some (.error m))) := by
    intro run message hrun hdone
    obtain ⟨ending, hlog, hending⟩ := hbase.ending hrun
    cases hending with
    | tree hother | files hother | home hother => rw [hdone] at hother; cases hother
    | done hsame hhome =>
      rw [hdone] at hsame
      cases hsame
      exact ⟨_, _, hlog, hhome⟩
  have hframes : ∀ run message, st.settling = some run → run.stage = .done message →
      st.frames = st.published ++ tailFrames message run.value := by
    intro run message hrun hdone
    obtain ⟨rollback, home, hlog, hhome⟩ := hend run message hrun hdone
    rw [← List.append_assoc] at hlog
    unfold frames
    rw [hlog]
    exact (frames_end rfl (frames_cleaned hhome) message run.value).1
  refine ⟨fun run message hrun hdone => ⟨hframes run message hrun hdone, hend run message hrun hdone⟩,
    fun hnot => ⟨hbase.frames_open hnot, ?_⟩, ?_⟩
  · intro value hmem
    obtain ⟨ending, hlog, hnil, hending⟩ := hbase.log
    rw [hlog, List.mem_append] at hmem
    rcases hmem with hmem | hmem
    · obtain ⟨e, -, he⟩ := List.mem_map.1 hmem
      cases he
    cases hrun : st.settling with
    | none =>
      rw [hnil hrun] at hmem
      cases hmem
    | some run =>
      cases hending run hrun with
      | tree => cases hmem
      | files => cases hmem
      | home =>
        rw [List.mem_singleton] at hmem
        cases hmem
      | done hdone => exact hnot ⟨run, _, hrun, hdone⟩
  · intro m hm e he
    have hnone := (hbase.rejected m hm).1
    by_cases hfinished : st.Finished
    · obtain ⟨run, message, hrun, hdone⟩ := hfinished
      rw [hframes run message hrun hdone, List.mem_append] at he
      rcases he with he | he
      · exact hnone e he
      · exact isStarted_tailFrames he
    · rw [hbase.frames_open hfinished] at he
      exact hnone e he

/-- In the orders in which output comes behind the confirmed spawn, no spawn is reported to an ended session and the
tree can be terminated: a session that was started delivers one `started` frame, output behind it, at most one `error`
frame and the `exit` frame, in this order; files and run home are cleaned up before, and the result resolves once,
behind the `exit` frame.  The outcome of the start is final and there when the session has ended, and a rejected start
has published no `started` frame; a settled session can end. -/
theorem protocol {tr : List Op} {st : Session} (h : Run (OrderlyStep cfg) initial tr st)
    (htree : ∀ m, st.terminating ≠ some (some (.error m))) :
    st.queue.delivered ++ st.queue.items = st.frames ∧
      (st.startOutcome = some (.ok ()) →
        ∃ pid outputs, st.published = .started pid :: outputs ∧ ∀ e ∈ outputs, isOutput e = true) ∧
      (∀ run message, st.settling = some run → run.stage = .done message →
        st.startOutcome.isSome = true ∧ st.frames = st.published ++ tailFrames message run.value ∧
          ∃ rollback, st.log = st.published.map .frame ++
            ([Effect.cleanFiles run.success rollback, .cleanHome run.success] ++ endLog message run.value)) ∧
      (¬ st.Finished → st.frames = st.published ∧ ∀ value, Effect.resolveResult value ∉ st.log) ∧
      (∀ m, st.startOutcome = some (.error m) → ∀ e ∈ st.frames, isStarted e = false) ∧
      (∀ o tr' st', st.startOutcome = some o → Run (Step cfg) st tr' st' → st'.startOutcome = some o) ∧
      (st.terminal = true → ∃ tr' st', Run (Step cfg) st tr' st' ∧ st'.Finished) := by
  have hrun : Run (Step cfg) initial tr st := h.mono fun _ _ _ hstep => hstep.1
  have hbase : Base st := base_initial.run hrun
  obtain ⟨hend, hopen, hrejected⟩ := session_end hrun
  refine ⟨hbase.queue, fun hok => ?_, fun run message hsettling hdone => ?_, hopen, hrejected,
    fun o tr' st' ho hrun' => startOutcome_run hrun' hbase ho, hbase.finish⟩
  · have hordered : Ordered st := Ordered.run h ⟨fun _ => rfl, fun hs => by cases hs⟩ base_initial
    exact hordered.2 (hbase.accepted hok)
  · obtain ⟨hframes, rollback, home, hlog, hhome⟩ := hend run message hsettling hdone
    refine ⟨hbase.finished ⟨run, message, hsettling, hdone⟩, hframes, rollback, ?_⟩
    rcases hhome with ⟨rfl, -⟩ | ⟨-, m, hm⟩
    · exact hlog
    · exact absurd hm (htree m)

/-- A child that says hello and ends. -/
def sampleSession : List Op :=
  [.prepare false (.ok ()) false (.ok ()), .launch (.ok (some ⟨some 7, none, false⟩)), .spawn, .next,
    .stdout [104, 105], .close (some 0) none, .treeTerminated (.ok ()), .settleTree, .filesCleaned,
    .homeCleaned (.ok ()), .next, .next]

theorem protocol_sample : ∃ st, Run (OrderlyStep ⟨false, false, false⟩) initial sampleSession st ∧ st.Finished ∧
    st.queue.delivered = [.started (some 7), .stdout [104, 105], .exit (some 0) none] ∧
    ∃ pid outputs, st.published = .started pid :: outputs ∧ ∀ e ∈ outputs, isOutput e = true := by
  have horderly : ∃ st, Run (OrderlyStep ⟨false, false, false⟩) initial sampleSession st ∧
      st.startOutcome = some (.ok ()) ∧ st.Finished ∧ st.terminating = some (some (.ok ())) ∧
      st.queue.delivered = [.started (some 7), .stdout [104, 105], .exit (some 0) none] :=
    ⟨_, .cons ⟨rfl, trivial⟩ (.cons ⟨rfl, trivial⟩ (.cons ⟨rfl, .inr rfl⟩ (.cons ⟨rfl, trivial⟩
      (.cons ⟨rfl, .inl rfl⟩ (.cons ⟨rfl, trivial⟩ (.cons ⟨rfl, trivial⟩ (.cons ⟨rfl, trivial⟩ (.cons ⟨rfl, trivial⟩
      (.cons ⟨rfl, trivial⟩ (.cons ⟨rfl, trivial⟩ (.cons ⟨rfl, trivial⟩ (.nil _)))))))))))), rfl,
      ⟨_, none, rfl, rfl⟩, rfl, rfl⟩
  obtain ⟨st, hrun, hok, hfinished, htree, hdelivered⟩ := horderly
  have hall := protocol hrun fun m hm => by
    rw [htree] at hm
    cases hm
  exact ⟨st, hrun, hfinished, hdelivered, hall.2.1 hok⟩

/-- The signal is aborted while the run is marked, and the child reports its spawn behind the cancellation. -/
def abortedSession : List Op :=
  [.prepare false (.ok ()) false (.ok ()), .launch (.ok (some ⟨some 7, none, true⟩)), .spawn,
    .treeTerminated (.ok ()),
    .settleTree, .filesCleaned, .homeCleaned (.ok ()), .next, .next]

/-- The start resolves although its `started` frame was dropped. -/
theorem started_missing : ∃ st, Run (Step ⟨true, false, false⟩) initial abortedSession st ∧ st.Finished ∧
    st.startOutcome = some (.ok ()) ∧ st.queue.delivered = [.error (js "execution cancelled"), .exit none none] ∧
    ∀ e ∈ st.frames, isStarted e = false := by
  have hrun : ∃ st, Run (Step ⟨true, false, false⟩) initial abortedSession st ∧ st.Finished ∧
      st.startOutcome = some (.ok ()) ∧ st.queue.delivered = [.error (js "execution cancelled"), .exit none none] ∧
      st.frames = [.error (js "execution cancelled"), .exit none none] :=
    ⟨_, run_of_steps rfl, ⟨_, _, rfl, rfl⟩, rfl, rfl, rfl⟩
  obtain ⟨st, hrun, hfinished, hok, hdelivered, hframes⟩ := hrun
  refine ⟨st, hrun, hfinished, hok, hdelivered, fun e he => ?_⟩
  rw [hframes] at he
  rcases List.mem_pair.1 he with rfl | rfl <;> rfl

end Session

end Wrenyard.Exec.Process
