import Wrenyard.Exec.ProcessSession
import Wrenyard.Lib.Transition
import Mathlib.Logic.Relation

/-!
# What a session tells

The log of a session is the frames it has published and then, once it is settled, its end: the cleanup of the files,
the cleanup of the run home if the tree is gone, at most one `error` frame, the `exit` frame and the result
(`Ending`).  This holds in every order of events (`Base`).  If the child's output comes behind its spawn and the spawn
is not reported to a session that has ended, the published frames are one `started` frame and output behind it
(`Ordered`).
-/

namespace Wrenyard.Exec.Process

open Js Transition List

def isTail : ExecutionEvent → Bool
  | .exit _ _ | .error _ => true
  | _ => false

def isStarted : ExecutionEvent → Bool
  | .started _ => true
  | _ => false

def isOutput : ExecutionEvent → Bool
  | .stdout _ | .stderr _ => true
  | _ => false

namespace Session

variable {cfg : StartProcessOptions} {s s' : Session}

def published (s : Session) : List ExecutionEvent := s.frames.filter fun e => !isTail e

def tailFrames (message : Option JsString) (value : ExecutionResult) : List ExecutionEvent :=
  (message.map .error).toList ++ [.exit value.exitCode value.signal]

def endLog (message : Option JsString) (value : ExecutionResult) : List Effect :=
  (tailFrames message value).map .frame ++ [.closeQueue, .resolveResult value]

/-- What a settled session has logged behind its published frames. -/
inductive Ending (terminating : Option (Option (Except JsString Unit))) (run : Settling) : List Effect → Prop where
  | tree : run.stage = .tree → Ending terminating run []
  | files {treeStopped : Bool} {cleanupFailure : Option JsString} {rollback : Bool} :
      run.stage = .files treeStopped cleanupFailure rollback →
        (treeStopped = true → terminating = some (some (.ok ()))) →
      (treeStopped = false → ∃ m, terminating = some (some (.error m))) → Ending terminating run []
  | home {rollback : Bool} : run.stage = .home → terminating = some (some (.ok ())) →
      Ending terminating run [.cleanFiles run.success rollback]
  | done {rollback : Bool} {message : Option JsString} {home : List Effect} : run.stage = .done message →
      (home = [.cleanHome run.success] ∧ terminating = some (some (.ok ())) ∨
        home = [] ∧ ∃ m, terminating = some (some (.error m))) →
      Ending terminating run ([.cleanFiles run.success rollback] ++ home ++ endLog message run.value)

def Finished (s : Session) : Prop := ∃ run message, s.settling = some run ∧ run.stage = .done message

def Listening (s : Session) : Prop :=
  s.drainTimer = true ∨ s.timer = true ∨ s.startedTimer = true ∨ s.abortListening = true ∨ s.provenance ≠ .idle

/-- What holds in every order of events. -/
structure Base (s : Session) : Prop where
  log : ∃ ending, s.log = s.published.map .frame ++ ending ∧ (s.settling = none → ending = []) ∧
    ∀ run, s.settling = some run → Ending s.terminating run ending
  terminal : s.terminal = s.settling.isSome
  begun : ∀ run, s.settling = some run → s.terminating.isSome = true
  queue : s.queue.delivered ++ s.queue.items = s.frames
  waits : s.queue.waiters ≠ 0 → s.queue.items = []
  closedQueue : s.queue.closed = true → s.Finished
  unstarted : s.started = false → ∀ e ∈ s.published, isStarted e = false
  once : (s.published.filter isStarted).length ≤ 1
  resolved : s.started = true → s.startOutcome.isSome = true
  finished : s.Finished → s.startOutcome.isSome = true
  accepted : s.startOutcome = some (.ok ()) → s.started = true
  rejected : ∀ m, s.startOutcome = some (.error m) → (∀ e ∈ s.published, isStarted e = false) ∧
    (s.terminal = true ∨ s.phase = .ended)
  listens : s.Listening → s.phase = .running
  early : s.phase = .preparing ∨ s.phase = .launching → s.started = false ∧ s.terminal = false

/-- What the protocol is about has not changed. -/
structure Still (s s' : Session) : Prop where
  log : s'.log = s.log
  settling : s'.settling = s.settling
  terminal : s'.terminal = s.terminal
  terminating : s'.terminating = s.terminating
  queue : s'.queue = s.queue
  started : s'.started = s.started
  startOutcome : s'.startOutcome = s.startOutcome
  phase : s'.phase = s.phase
  listens : s'.Listening → s.Listening ∨ s.phase = .running

theorem Still.published (h : Still s s') : s'.published = s.published := by
  unfold Session.published frames
  rw [h.log]

theorem Base.still (h : Base s) (hs : Still s s') : Base s' := by
  have hframes : s'.frames = s.frames := by unfold frames; rw [hs.log]
  have hpublished := hs.published
  have hfinished : s'.Finished ↔ s.Finished := by unfold Finished; rw [hs.settling]
  constructor
  · rw [hs.log, hpublished, hs.settling, hs.terminating]
    exact h.log
  · rw [hs.terminal, hs.settling]
    exact h.terminal
  · rw [hs.settling, hs.terminating]
    exact h.begun
  · rw [hs.queue, hframes]
    exact h.queue
  · rw [hs.queue]
    exact h.waits
  · rw [hs.queue, hfinished]
    exact h.closedQueue
  · rw [hs.started, hpublished]
    exact h.unstarted
  · rw [hpublished]
    exact h.once
  · rw [hs.started, hs.startOutcome]
    exact h.resolved
  · rw [hfinished, hs.startOutcome]
    exact h.finished
  · rw [hs.started, hs.startOutcome]
    exact h.accepted
  · rw [hs.startOutcome, hpublished, hs.terminal, hs.phase]
    exact h.rejected
  · intro hd
    rw [hs.phase]
    rcases hs.listens hd with hold | hrun
    · exact h.listens hold
    · exact hrun
  · rw [hs.phase, hs.started, hs.terminal]
    exact h.early

theorem settle_of_terminal (h : s.terminal = true) (value : ExecutionResult) (success : Bool)
    (errorMessage : Option JsString) : s.settle value success errorMessage = s := by
  unfold settle
  rw [if_pos h]

theorem settle_of_open (h : s.terminal = false) (value : ExecutionResult) (success : Bool)
    (errorMessage : Option JsString) :
    s.settle value success errorMessage = { s.clearTimers.terminateProcessTree with
      terminal := true, abortListening := false, settling := some ⟨value, success, errorMessage, .tree⟩ } := by
  unfold settle
  rw [if_neg (by rw [h]; exact Bool.false_ne_true)]

theorem published_settle (value : ExecutionResult) (success : Bool) (errorMessage : Option JsString) :
    (s.settle value success errorMessage).published = s.published ∧ (s.settle value success errorMessage).started =
    s.started ∧ (s.settle value success errorMessage).phase = s.phase ∧
    (s.settle value success errorMessage).terminal = true := by
  cases hterminal : s.terminal with
  | true =>
    rw [settle_of_terminal hterminal]
    exact ⟨rfl, rfl, rfl, hterminal⟩
  | false =>
    rw [settle_of_open hterminal]
    exact ⟨rfl, rfl, rfl, rfl⟩

theorem Base.open_log (h : Base s) (hterminal : s.terminal = false) :
    s.settling = none ∧ s.log = s.published.map .frame := by
  have hnone : s.settling = none := by
    have := h.terminal
    rw [hterminal] at this
    exact Option.not_isSome_iff_eq_none.1 (by rw [← this]; exact Bool.false_ne_true)
  obtain ⟨ending, hlog, hnil, -⟩ := h.log
  rw [hnil hnone, append_nil] at hlog
  exact ⟨hnone, hlog⟩

theorem Base.not_finished (h : Base s) (hterminal : s.terminal = false) : ¬ s.Finished := by
  rintro ⟨run, message, hrun, -⟩
  rw [(h.open_log hterminal).1] at hrun
  cases hrun

/-- Only a running session, or a launch that failed, is settled. -/
theorem Base.settle (h : Base s) (hlate : ¬ (s.phase = .preparing ∨ s.phase = .launching)) (value : ExecutionResult)
    (success : Bool) (errorMessage : Option JsString) : Base (s.settle value success errorMessage) := by
  cases hterminal : s.terminal with
  | true =>
    rw [settle_of_terminal hterminal]
    exact h
  | false =>
    obtain ⟨hnone, hlog⟩ := h.open_log hterminal
    have hopen : s.queue.closed = true → False := fun hc => h.not_finished hterminal (h.closedQueue hc)
    rw [settle_of_open hterminal]
    refine ⟨⟨[], ?_, fun _ => rfl, ?_⟩, rfl, ?_, h.queue, h.waits, fun hc => (hopen hc).elim, h.unstarted, h.once,
      h.resolved, ?_, h.accepted, ?_, ?_, fun hp => (hlate hp).elim⟩
    · rw [append_nil]
      exact hlog
    · intro run hrun
      cases hrun
      exact .tree rfl
    · intro run _
      show (s.terminating.or (some none)).isSome = true
      cases s.terminating <;> rfl
    · rintro ⟨run, message, hrun, hstage⟩
      cases hrun
      cases hstage
    · intro m hm
      exact ⟨(h.rejected m hm).1, .inl rfl⟩
    · rintro (hd | hd | hd | hd | hd)
      any_goals cases hd
      · exact h.listens (.inr (.inr (.inr (.inr hd))))

theorem late_of_running (h : s.phase = .running) : ¬ (s.phase = .preparing ∨ s.phase = .launching) := by
  rw [h]
  rintro (hp | hp) <;> cases hp

theorem Base.fail (h : Base s) (hrun : s.phase = .running) (message : JsString) : Base (s.fail message) :=
  h.settle (late_of_running hrun) ..

/-! ### Frames -/

theorem Queue.hand_order (q : Queue) (e : ExecutionEvent) (hwaits : q.waiters ≠ 0 → q.items = []) :
    (q.hand e).delivered ++ (q.hand e).items = q.delivered ++ q.items ++ [e] ∧ (q.hand e).closed = q.closed ∧
    ((q.hand e).waiters ≠ 0 → (q.hand e).items = []) := by
  unfold Process.Queue.hand
  split
  · rename_i hzero
    exact ⟨by rw [append_assoc], rfl, fun hne => absurd hzero hne⟩
  · rename_i hne
    have hnil := hwaits hne
    exact ⟨by rw [hnil, append_nil, append_nil], rfl, fun _ => hnil⟩

theorem frames_log (s : Session) (e : ExecutionEvent) (queue : Queue) :
    { s with queue := queue, log := s.log ++ [Effect.frame e] }.frames = s.frames ++ [e] := by
  unfold frames
  rw [filterMap_append]
  rfl

variable {e : ExecutionEvent}

theorem published_log (he : isTail e = false) (s : Session) (queue : Queue) :
    { s with queue := queue, log := s.log ++ [Effect.frame e] }.published = s.published ++ [e] := by
  unfold published
  rw [frames_log, filter_append, filter_cons_of_pos (by rw [he]; rfl)]
  rfl

theorem Queue.push_eq {q q' : Queue} (h : q.push e = some q') : q.closed = false ∧ q' = q.hand e := by
  unfold Process.Queue.push at h
  split at h
  · cases h
  rename_i hopen
  split at h <;> cases h
  exact ⟨by simpa using hopen, rfl⟩

variable {queue : Queue}

theorem Base.pushed (h : Base s) (hterminal : s.terminal = false)
    (hqueue : s.queue.push e = some queue) :
    { s with queue := queue, log := s.log ++ [Effect.frame e] }.log = (s.published ++ [e]).map .frame ∧
      queue.delivered ++ queue.items = s.frames ++ [e] ∧ (queue.waiters ≠ 0 → queue.items = []) ∧
      queue.closed = false := by
  obtain ⟨hopen, rfl⟩ := Queue.push_eq hqueue
  obtain ⟨horder, hclosed, hwaits⟩ := Queue.hand_order s.queue e h.waits
  refine ⟨?_, by rw [horder, h.queue], hwaits, by rw [hclosed, hopen]⟩
  rw [map_append, ← (h.open_log hterminal).2]
  rfl

/-- Output frames. -/
theorem Base.accept (h : Base s) (hrun : s.phase = .running) (he : isTail e = false)
    (hstarted : isStarted e = false) : Base (s.accept e) := by
  unfold Session.accept
  by_cases hend : s.terminal = true
  · rw [if_pos hend]
    exact h
  have hterminal : s.terminal = false := Bool.eq_false_iff.2 hend
  rw [if_neg hend]
  split
  · rename_i queue hqueue
    obtain ⟨hlog, horder, hwaits, hopen⟩ := h.pushed hterminal hqueue
    have hpublished := published_log he s queue
    have hframes := frames_log s e queue
    obtain ⟨hnone, -⟩ := h.open_log hterminal
    constructor
    · refine ⟨[], ?_, fun _ => rfl, fun run hrun => ?_⟩
      · rw [append_nil, hpublished]
        exact hlog
      · rw [show s.settling = some run from hrun] at hnone
        cases hnone
    · exact h.terminal
    · exact h.begun
    · rw [hframes]
      exact horder
    · exact hwaits
    · intro hc
      rw [show queue.closed = true from hc] at hopen
      cases hopen
    · intro hs e' he'
      rw [hpublished, mem_append, mem_singleton] at he'
      rcases he' with he' | rfl
      · exact h.unstarted hs e' he'
      · exact hstarted
    · rw [hpublished, filter_append, filter_cons_of_neg (by rw [hstarted]; exact Bool.false_ne_true),
        filter_nil, append_nil]
      exact h.once
    · exact h.resolved
    · exact h.finished
    · exact h.accepted
    · intro m hm
      obtain ⟨hnot, hend⟩ := h.rejected m hm
      refine ⟨fun e' he' => ?_, hend⟩
      rw [hpublished, mem_append, mem_singleton] at he'
      rcases he' with he' | rfl
      · exact hnot e' he'
      · exact hstarted
    · exact h.listens
    · exact h.early
  · exact h.fail hrun _

/-- An outcome that is not the one put in was there before. -/
theorem outcome_of_or {α : Type} {o : Option α} {a b : α} (h : o.or (some a) = some b) (hne : a ≠ b) :
    o = some b := by
  rcases Option.or_eq_some_iff.1 h with hout | ⟨-, hout⟩
  · exact hout
  · exact absurd (Option.some.inj hout) hne

theorem Base.confirmed (h : Base s) (hrun : s.phase = .running) (hstarted : s.started = false)
    (hterminal : s.terminal = false) (hqueue : s.queue.push (.started s.pid) = some queue)
    (startedTimer : Bool) (diagnosticsPid : Option Nat) :
    Base { s with
      queue := queue, log := s.log ++ [Effect.frame (.started s.pid)], started := true
      startOutcome := s.startOutcome.or (some (.ok ())), startedTimer := startedTimer
      diagnosticsPid := diagnosticsPid } := by
  obtain ⟨hlog, horder, hwaits, hopen⟩ := h.pushed hterminal hqueue
  have hpublished := published_log (e := .started s.pid) rfl s queue
  have hframes := frames_log s (.started s.pid) queue
  obtain ⟨hnone, -⟩ := h.open_log hterminal
  have hnot : ∀ m, s.startOutcome ≠ some (.error m) := by
    intro m hm
    rcases (h.rejected m hm).2 with hend | hend
    · rw [hterminal] at hend
      cases hend
    · rw [hrun] at hend
      cases hend
  constructor
  · refine ⟨[], ?_, fun _ => rfl, fun run hr => ?_⟩
    · rw [append_nil]
      show s.log ++ [Effect.frame (.started s.pid)] = _
      exact hlog.trans (congrArg (List.map Effect.frame) hpublished.symm)
    · rw [show s.settling = some run from hr] at hnone
      cases hnone
  · exact h.terminal
  · exact h.begun
  · exact horder.trans hframes.symm
  · exact hwaits
  · intro hc
    rw [show queue.closed = true from hc] at hopen
    cases hopen
  · exact nofun
  · have hfilter : ((s.published ++ [ExecutionEvent.started s.pid]).filter isStarted).length ≤ 1 := by
      rw [filter_append, filter_eq_nil_iff.2 fun e he => by rw [h.unstarted hstarted e he]; exact Bool.false_ne_true]
      exact Nat.le_refl 1
    rw [← hpublished] at hfilter
    exact hfilter
  · intro _
    show (s.startOutcome.or (some (.ok ()))).isSome = true
    cases s.startOutcome <;> rfl
  · intro _
    show (s.startOutcome.or (some (.ok ()))).isSome = true
    cases s.startOutcome <;> rfl
  · exact fun _ => rfl
  · exact fun m hm => absurd (outcome_of_or hm nofun) (hnot m)
  · exact fun _ => hrun
  · exact fun hp => (late_of_running hrun hp).elim

theorem Base.begin (h : Base s) (hrun : s.phase = .running) (startedTimer : Bool) (diagnosticsPid : Option Nat) :
    Base { s with
      started := true, startOutcome := s.startOutcome.or (some (.ok ())), startedTimer := startedTimer
      diagnosticsPid := diagnosticsPid } := by
  have hsome : (s.startOutcome.or (some (.ok ()))).isSome = true := by cases s.startOutcome <;> rfl
  refine ⟨h.log, h.terminal, h.begun, h.queue, h.waits, h.closedQueue, (fun hs => by cases hs), h.once,
    fun _ => hsome,
    fun _ => hsome, fun _ => rfl, fun m hm => ?_, (fun _ => hrun), fun hp => (late_of_running hrun hp).elim⟩
  exact h.rejected m (outcome_of_or hm nofun)

theorem accept_of_terminal (h : s.terminal = true) (e : ExecutionEvent) : s.accept e = s := by
  unfold accept
  rw [if_pos h]

theorem accept_of_taken (h : s.terminal = false) (hqueue : s.queue.push e = some queue) :
    s.accept e = { s with queue := queue, log := s.log ++ [.frame e] } := by
  unfold accept
  rw [if_neg (by rw [h]; exact Bool.false_ne_true), hqueue]

theorem accept_of_full (h : s.terminal = false) (hqueue : s.queue.push e = none) :
    s.accept e = s.fail (js "process event queue overflow") := by
  unfold accept
  rw [if_neg (by rw [h]; exact Bool.false_ne_true), hqueue]

/-- The state in which the `started` frame is offered. -/
def begun (s : Session) : Session :=
  { s with started := true, startedTimer := false, diagnosticsPid := s.pid.or s.diagnosticsPid }

theorem confirmStarted_of_started (h : s.started = true) : s.confirmStarted = s := by
  unfold confirmStarted
  rw [if_pos h]

theorem confirmStarted_of_unstarted (h : s.started = false) :
    s.confirmStarted = (s.begun.accept (.started s.pid)).settleStarted (.ok ()) := by
  unfold confirmStarted
  rw [if_neg (by rw [h]; exact Bool.false_ne_true)]
  rfl

theorem settleStarted_fail (h : s.terminal = false) (message : JsString) (outcome : Except JsString Unit) :
    (s.fail message).settleStarted outcome = (s.settleStarted outcome).fail message := by
  unfold fail
  rw [settle_of_open h, settle_of_open (s := s.settleStarted outcome) h]
  rfl

theorem Base.confirmStarted (h : Base s) (hrun : s.phase = .running) : Base s.confirmStarted := by
  cases hstarted : s.started with
  | true =>
    rw [confirmStarted_of_started hstarted]
    exact h
  | false =>
    rw [confirmStarted_of_unstarted hstarted]
    cases hterminal : s.terminal with
    | true =>
      rw [accept_of_terminal (show s.begun.terminal = true from hterminal)]
      exact h.begin hrun _ _
    | false =>
      have hopen : s.begun.terminal = false := hterminal
      cases hqueue : s.queue.push (.started s.pid) with
      | some queue =>
        rw [accept_of_taken hopen (show s.begun.queue.push (.started s.pid) = some queue from hqueue)]
        exact h.confirmed hrun hstarted hterminal hqueue _ _
      | none =>
        rw [accept_of_full hopen (show s.begun.queue.push (.started s.pid) = none from hqueue)]
        rw [settleStarted_fail hopen]
        exact Base.fail (h.begin hrun _ _) hrun _

/-! ### The end -/

theorem Queue.force_order (frames : List ExecutionEvent) (q : Queue) (hwaits : q.waiters ≠ 0 → q.items = [])
    (hopen : q.closed = false) :
    (frames.foldl Queue.forcePush q).delivered ++ (frames.foldl Queue.forcePush q).items =
    q.delivered ++ q.items ++ frames ∧ (frames.foldl Queue.forcePush q).closed = false := by
  induction frames generalizing q with
  | nil => exact ⟨(append_nil _).symm, hopen⟩
  | cons e frames ih =>
    have hhand : q.forcePush e = q.hand e := by
      unfold Process.Queue.forcePush
      rw [hopen]
      rfl
    obtain ⟨horder, hclosed, hwaits'⟩ := Queue.hand_order q e hwaits
    obtain ⟨hall, hlast⟩ := ih (q.hand e) hwaits' (hclosed.trans hopen)
    rw [foldl_cons, hhand]
    refine ⟨?_, hlast⟩
    rw [hall, horder, append_assoc]
    rfl

theorem Queue.close_order {q : Queue} (hopen : q.closed = false) :
    q.close.delivered ++ q.close.items = q.delivered ++ q.items ∧ q.close.waiters = 0 := by
  unfold Process.Queue.close
  rw [if_neg (by rw [hopen]; exact Bool.false_ne_true)]
  exact ⟨rfl, rfl⟩

theorem publish_eq (s : Session) (run : Settling) (cleanupFailure : Option JsString) :
    ∃ message, s.publish run cleanupFailure = { s with
      queue := ((tailFrames message run.value).foldl Queue.forcePush s.queue).close
      log := s.log ++ endLog message run.value
      settling := some { run with stage := .done message }
      startOutcome := if s.started then s.startOutcome
        else s.startOutcome.or (some (.error (message.getD (js "execution ended before process start")))) } := by
  refine ⟨joinMessages [run.errorMessage, cleanupFailure], ?_⟩
  unfold publish settleStarted acceptTerminal endLog tailFrames
  cases joinMessages [run.errorMessage, cleanupFailure] with
  | none => cases hstarted : s.started <;> simp [hstarted]
  | some message => cases s.started <;> simp

theorem isTail_tailFrames (message : Option JsString) (value : ExecutionResult) :
    (tailFrames message value).filter (fun e => !isTail e) = [] := by
  cases message <;> rfl

theorem frames_map (frames : List ExecutionEvent) : (frames.map Effect.frame).filterMap Effect.frame? = frames := by
  induction frames with
  | nil => rfl
  | cons e frames ih => exact congrArg (e :: ·) ih

theorem frames_endLog (message : Option JsString) (value : ExecutionResult) :
    (endLog message value).filterMap Effect.frame? = tailFrames message value := by
  unfold endLog
  rw [filterMap_append, frames_map]
  exact append_nil _

theorem filter_published (s : Session) : s.published.filter (fun e => !isTail e) = s.published := by
  unfold published
  rw [filter_filter]
  exact filter_congr fun e _ => Bool.and_self _

theorem frames_quiet {log ending : List Effect} (hlog : log = s.published.map .frame ++ ending)
    (hnone : ending.filterMap Effect.frame? = []) : log.filterMap Effect.frame? = s.published ∧
    (log.filterMap Effect.frame?).filter (fun e => !isTail e) = s.published := by
  have hframes : log.filterMap Effect.frame? = s.published := by
    rw [hlog, filterMap_append, frames_map, hnone, append_nil]
  exact ⟨hframes, by rw [hframes]; exact s.filter_published⟩

/-- The frames of a log with its end. -/
theorem frames_end {log ending : List Effect} (hlog : log = s.published.map .frame ++ ending)
    (hnone : ending.filterMap Effect.frame? = []) (message : Option JsString) (value : ExecutionResult) :
    (log ++ endLog message value).filterMap Effect.frame? = s.published ++ tailFrames message value ∧
    ((log ++ endLog message value).filterMap Effect.frame?).filter (fun e => !isTail e) = s.published := by
  have hframes : (log ++ endLog message value).filterMap Effect.frame? = s.published ++ tailFrames message value := by
    rw [filterMap_append, (frames_quiet hlog hnone).1, frames_endLog]
  refine ⟨hframes, ?_⟩
  rw [hframes, filter_append, filter_published, isTail_tailFrames, append_nil]

/-- What is logged of the cleanup is no frame. -/
theorem frames_cleaned {success rollback : Bool} {home : List Effect} {P Q : Prop}
    (hhome : home = [.cleanHome success] ∧ P ∨ home = [] ∧ Q) :
    ([Effect.cleanFiles success rollback] ++ home).filterMap Effect.frame? = [] := by
  rcases hhome with ⟨rfl, -⟩ | ⟨rfl, -⟩ <;> rfl

/-- A session that is not at its end has its published frames only. -/
theorem Base.frames_open (h : Base s) (hopen : ¬ s.Finished) : s.frames = s.published := by
  obtain ⟨ending, hlog, hnil, hending⟩ := h.log
  have hnone : ending.filterMap Effect.frame? = [] := by
    cases hrun : s.settling with
    | none => rw [hnil hrun]; rfl
    | some run =>
      cases hending run hrun with
      | tree => rfl
      | files => rfl
      | home => rfl
      | done hdone => exact absurd ⟨run, _, hrun, hdone⟩ hopen
  unfold frames
  rw [hlog, filterMap_append, frames_map, hnone, append_nil]

variable {run : Settling}

theorem not_finished_of_stage (hrun : s.settling = some run) (hstage : ∀ m, run.stage ≠ .done m) :
    ¬ s.Finished := by
  rintro ⟨run', m, hrun', hdone⟩
  rw [hrun] at hrun'
  cases hrun'
  exact hstage m hdone

variable (h : Base s)
include h

variable (hrun : s.settling = some run)
include hrun

/-- The end of a session whose cleanup is logged. -/
theorem Base.publish (hstage : ∀ m, run.stage ≠ .done m)
    {rollback : Bool} {home : List Effect} {log : List Effect} (cleanupFailure : Option JsString)
    (hlog : log = s.published.map .frame ++ ([.cleanFiles run.success rollback] ++ home))
    (hhome : home = [.cleanHome run.success] ∧ s.terminating = some (some (.ok ())) ∨
      home = [] ∧ ∃ m, s.terminating = some (some (.error m))) :
    Base ({ s with log := log }.publish run cleanupFailure) := by
  obtain ⟨message, heq⟩ := publish_eq { s with log := log } run cleanupFailure
  rw [heq]
  have hnot := not_finished_of_stage hrun hstage
  have hopen : s.queue.closed = false := Bool.eq_false_iff.2 fun hclosed => hnot (h.closedQueue hclosed)
  have hterminal : s.terminal = true := by rw [h.terminal, hrun]; rfl
  have hcleaned : ([Effect.cleanFiles run.success rollback] ++ home).filterMap Effect.frame? = [] :=
      frames_cleaned hhome
  obtain ⟨hframes, hpublished⟩ := frames_end hlog hcleaned message run.value
  obtain ⟨horder, hstill⟩ := Queue.force_order (tailFrames message run.value) s.queue h.waits hopen
  obtain ⟨hclose, hwaiters⟩ := Queue.close_order hstill
  have hsome : ∀ error : Except JsString Unit,
      (if s.started then s.startOutcome else s.startOutcome.or (some error)).isSome = true := by
    intro error
    split
    · rename_i hstarted
      exact h.resolved hstarted
    · cases s.startOutcome <;> rfl
  constructor
  · refine ⟨[.cleanFiles run.success rollback] ++ home ++ endLog message run.value, ?_, (fun hr => by cases hr), ?_⟩
    · show log ++ _ = (((log ++ endLog message run.value).filterMap Effect.frame?).filter fun e => !isTail e).map _ ++
          _
      rw [hpublished, hlog, append_assoc]
    · intro run' hrun'
      cases hrun'
      exact .done rfl hhome
  · exact hterminal
  · exact fun _ _ => h.begun run hrun
  · show _ = (log ++ endLog message run.value).filterMap Effect.frame?
    rw [hframes, ← h.frames_open hnot, ← h.queue, ← horder]
    exact hclose
  · exact fun hne => absurd hwaiters hne
  · exact fun _ => ⟨_, message, rfl, rfl⟩
  · intro hstarted
    show ∀ e ∈ ((log ++ endLog message run.value).filterMap Effect.frame?).filter fun e => !isTail e, _
    rw [hpublished]
    exact h.unstarted hstarted
  · show ((((log ++ endLog message run.value).filterMap Effect.frame?).filter fun e => !isTail e).filter _).length ≤ 1
    rw [hpublished]
    exact h.once
  · exact fun _ => hsome _
  · exact fun _ => hsome _
  · intro hok
    by_cases hstarted : s.started = true
    · exact hstarted
    refine h.accepted ?_
    have hok' : (if s.started then s.startOutcome else s.startOutcome.or (some (.error _))) = some (.ok ()) := hok
    rw [if_neg hstarted] at hok'
    exact outcome_of_or hok' nofun
  · intro m hm
    refine ⟨?_, .inl hterminal⟩
    show ∀ e ∈ ((log ++ endLog message run.value).filterMap Effect.frame?).filter fun e => !isTail e, _
    rw [hpublished]
    by_cases hstarted : s.started = true
    · have hm' : (if s.started then s.startOutcome else s.startOutcome.or (some (.error _))) = some (.error m) := hm
      rw [if_pos hstarted] at hm'
      exact (h.rejected m hm').1
    · exact h.unstarted (Bool.eq_false_iff.2 hstarted)
  · exact h.listens
  · exact h.early

/-- A step of the end that publishes nothing yet. -/
theorem Base.stage (hstage : ∀ m, run.stage ≠ .done m)
    {stage : Stage} (hnext : ∀ m, stage ≠ .done m) {log ending : List Effect}
    (hlog : log = s.published.map .frame ++ ending) (hnone : ending.filterMap Effect.frame? = [])
    (hending : Ending s.terminating { run with stage := stage } ending) :
    Base { s with log := log, settling := some { run with stage := stage } } := by
  have hnot := not_finished_of_stage hrun hstage
  have hterminal : s.terminal = true := by rw [h.terminal, hrun]; rfl
  obtain ⟨hquiet, hpublished⟩ := frames_quiet hlog hnone
  have hframes : log.filterMap Effect.frame? = s.frames := hquiet.trans (h.frames_open hnot).symm
  constructor
  · refine ⟨ending, ?_, (fun hr => by cases hr), ?_⟩
    · show log = ((log.filterMap Effect.frame?).filter fun e => !isTail e).map _ ++ _
      rw [hpublished, hlog]
    · intro run' hrun'
      cases hrun'
      exact hending
  · exact hterminal
  · exact fun _ _ => h.begun run hrun
  · exact h.queue.trans hframes.symm
  · exact h.waits
  · exact fun hclosed => absurd (h.closedQueue hclosed) hnot
  · intro hstarted
    show ∀ e ∈ (log.filterMap Effect.frame?).filter fun e => !isTail e, _
    rw [hpublished]
    exact h.unstarted hstarted
  · show (((log.filterMap Effect.frame?).filter fun e => !isTail e).filter _).length ≤ 1
    rw [hpublished]
    exact h.once
  · exact h.resolved
  · rintro ⟨run', m, hrun', hdone⟩
    cases hrun'
    exact absurd hdone (hnext m)
  · exact h.accepted
  · intro m hm
    refine ⟨?_, .inl hterminal⟩
    show ∀ e ∈ (log.filterMap Effect.frame?).filter fun e => !isTail e, _
    rw [hpublished]
    exact (h.rejected m hm).1
  · exact h.listens
  · exact h.early

theorem Base.ending :
    ∃ ending, s.log = s.published.map .frame ++ ending ∧ Ending s.terminating run ending := by
  obtain ⟨ending, hlog, -, hending⟩ := h.log
  exact ⟨ending, hlog, hending run hrun⟩

omit hrun

theorem Base.terminateProcessTree : Base s.terminateProcessTree := by
  obtain ⟨ending, hlog, hnil, hending⟩ := h.log
  refine ⟨⟨ending, hlog, hnil, fun run hrun => ?_⟩, h.terminal, ?_, h.queue, h.waits, h.closedQueue,
    h.unstarted, h.once,
    h.resolved, h.finished, h.accepted, h.rejected, h.listens, h.early⟩
  · have hsame : s.terminateProcessTree.terminating = s.terminating := by
      have hsome := h.begun run hrun
      unfold Session.terminateProcessTree
      cases hterm : s.terminating with
      | none =>
        rw [hterm] at hsome
        cases hsome
      | some _ => rfl
    rw [hsame]
    exact hending run hrun
  · intro run _
    show (s.terminating.or (some none)).isSome = true
    cases s.terminating <;> rfl

/-- The termination of the tree is answered. -/
theorem Base.answered (hpending : s.terminating = some none) (r : Except JsString Unit) :
    Base { s with terminating := some (some r) } := by
  obtain ⟨ending, hlog, hnil, hending⟩ := h.log
  refine ⟨⟨ending, hlog, hnil, fun run hrun => ?_⟩, h.terminal, fun _ _ => rfl, h.queue, h.waits, h.closedQueue,
    h.unstarted, h.once, h.resolved, h.finished, h.accepted, h.rejected, h.listens, h.early⟩
  have hold := hending run hrun
  rw [hpending] at hold
  cases hold with
  | tree hstage => exact .tree hstage
  | @files treeStopped _ _ _ hok herror =>
    cases treeStopped with
    | true => cases hok rfl
    | false =>
      obtain ⟨m, hm⟩ := herror rfl
      cases hm
  | home _ hok => cases hok
  | done _ hhome =>
    rcases hhome with ⟨-, hok⟩ | ⟨-, m, hm⟩
    · cases hok
    · cases hm

/-- The iterator takes a step. -/
theorem Base.next : Base { s with queue := s.queue.next } := by
  have hnext : s.queue.next.delivered ++ s.queue.next.items = s.queue.delivered ++ s.queue.items ∧
      (s.queue.next.waiters ≠ 0 → s.queue.next.items = []) ∧ s.queue.next.closed = s.queue.closed := by
    unfold Queue.next
    cases hitems : s.queue.items with
    | cons value items =>
      refine ⟨by rw [append_assoc]; rfl, fun hne => ?_, rfl⟩
      have hnil := h.waits hne
      rw [hitems] at hnil
      cases hnil
    | nil =>
      by_cases hclosed : s.queue.closed = true
      · rw [if_pos hclosed]
        exact ⟨by rw [hitems], fun _ => hitems, rfl⟩
      · rw [if_neg hclosed]
        exact ⟨rfl, fun _ => rfl, rfl⟩
  exact ⟨h.log, h.terminal, h.begun, hnext.1.trans h.queue, hnext.2.1,
    fun hclosed => h.closedQueue (hnext.2.2.symm.trans hclosed), h.unstarted, h.once, h.resolved,
      h.finished, h.accepted,
    h.rejected, h.listens, h.early⟩

theorem Base.rejected_of_phase (hphase : s.phase ≠ .ended) {P : Prop} (m : JsString)
    (hm : s.startOutcome = some (.error m)) : (∀ e ∈ s.published, isStarted e = false) ∧ (s.terminal = true ∨ P) := by
  obtain ⟨hnot, hend⟩ := h.rejected m hm
  exact ⟨hnot, .inl (hend.resolve_right hphase)⟩

theorem Base.listens_of_phase (hphase : s.phase ≠ .running) {P : Prop} (hd : s.Listening) : P :=
  absurd (h.listens hd) hphase

/-- The launch is over. -/
theorem Base.launched (hphase : s.phase = .launching) {phase : Phase}
    (hnew : phase = .running ∨ phase = .ended) (pid : Option Nat) : Base { s with phase := phase, pid := pid } := by
  refine ⟨h.log, h.terminal, h.begun, h.queue, h.waits, h.closedQueue, h.unstarted, h.once, h.resolved, h.finished,
    h.accepted, h.rejected_of_phase (by rw [hphase]; exact nofun), h.listens_of_phase (by rw [hphase]; exact nofun),
    fun hp => ?_⟩
  have hp' : phase = .preparing ∨ phase = .launching := hp
  rcases hnew with rfl | rfl <;> rcases hp' with hp' | hp' <;> cases hp'

theorem Base.prepared (hphase : s.phase = .preparing) : Base { s with phase := .launching } := by
  refine ⟨h.log, h.terminal, h.begun, h.queue, h.waits, h.closedQueue, h.unstarted, h.once, h.resolved, h.finished,
    h.accepted, h.rejected_of_phase (by rw [hphase]; exact nofun), h.listens_of_phase (by rw [hphase]; exact nofun),
    fun _ => h.early (.inl hphase)⟩

theorem Base.refused (hphase : s.phase = .preparing) (message : JsString) :
    Base { s.settleStarted (.error message) with phase := .ended } := by
  have hstarted := (h.early (.inl hphase)).1
  have hsome : (s.startOutcome.or (some (.error message))).isSome = true := by cases s.startOutcome <;> rfl
  refine ⟨h.log, h.terminal, h.begun, h.queue, h.waits, h.closedQueue, h.unstarted, h.once, fun _ => hsome,
    fun _ => hsome, fun hok => ?_, fun m _ => ⟨h.unstarted hstarted, .inr rfl⟩,
    h.listens_of_phase (by rw [hphase]; exact nofun), fun hp => ?_⟩
  · exact h.accepted (outcome_of_or hok nofun)
  · rcases hp with hp | hp <;> cases hp

omit h

/-! ### Moves -/

/-- What a step is made of.  Under `ordered`, output is published behind the confirmation of the start, and the start
of an ended session is not confirmed. -/
inductive Move (ordered : Prop) : Session → Session → Prop where
  | still {s s' : Session} : Still s s' → Move ordered s s'
  | prepared {s : Session} : s.phase = .preparing → Move ordered s { s with phase := .launching }
  | refused {s : Session} (message : JsString) : s.phase = .preparing →
      Move ordered s { s.settleStarted (.error message) with phase := .ended }
  | launched {s : Session} {phase : Phase} (pid : Option Nat) : s.phase = .launching → phase = .running ∨
    phase = .ended →
      Move ordered s { s with phase := phase, pid := pid }
  | settle {s : Session} (value : ExecutionResult) (success : Bool) (errorMessage : Option JsString) :
      ¬ (s.phase = .preparing ∨ s.phase = .launching) → Move ordered s (s.settle value success errorMessage)
  | accept {s : Session} {e : ExecutionEvent} : s.phase = .running → isOutput e = true →
      (ordered → s.started = true ∨ s.terminal = true) → Move ordered s (s.accept e)
  | confirm {s : Session} : s.phase = .running → (ordered → s.started = true ∨ s.terminal = false) →
      Move ordered s s.confirmStarted
  | terminate {s : Session} : Move ordered s s.terminateProcessTree
  | answered {s : Session} (r : Except JsString Unit) : s.terminating = some none →
      Move ordered s { s with terminating := some (some r) }
  | stage {s : Session} {run : Settling} {stage : Stage} {log ending : List Effect} : s.settling = some run →
      (∀ m, run.stage ≠ .done m) → (∀ m, stage ≠ .done m) → log = s.published.map .frame ++ ending →
      ending.filterMap Effect.frame? = [] → Ending s.terminating { run with stage := stage } ending →
      Move ordered s { s with log := log, settling := some { run with stage := stage } }
  | publish {s : Session} {run : Settling} {rollback : Bool} {home log : List Effect}
    (cleanupFailure : Option JsString) :
      s.settling = some run → (∀ m, run.stage ≠ .done m) →
      log = s.published.map .frame ++ ([.cleanFiles run.success rollback] ++ home) →
      (home = [.cleanHome run.success] ∧ s.terminating = some (some (.ok ())) ∨
        home = [] ∧ ∃ m, s.terminating = some (some (.error m))) →
      Move ordered s ({ s with log := log }.publish run cleanupFailure)
  | next {s : Session} : Move ordered s { s with queue := s.queue.next }

theorem not_isTail_of_isOutput (h : isOutput e = true) : isTail e = false ∧ isStarted e = false := by
  cases e with
  | started | exit | error => cases h
  | stdout | stderr => exact ⟨rfl, rfl⟩

variable {ordered : Prop}

theorem Base.move (h : Base s) (hmove : Move ordered s s') : Base s' := by
  cases hmove with
  | still hs => exact h.still hs
  | prepared hphase => exact h.prepared hphase
  | refused message hphase => exact h.refused hphase message
  | launched pid hphase hnew => exact h.launched hphase hnew pid
  | settle value success errorMessage hlate => exact h.settle hlate ..
  | accept hrun he _ => exact h.accept hrun (not_isTail_of_isOutput he).1 (not_isTail_of_isOutput he).2
  | confirm hrun _ => exact h.confirmStarted hrun
  | terminate => exact h.terminateProcessTree
  | answered r hpending => exact h.answered hpending r
  | stage hrun hstage hnext hlog hnone hending => exact h.stage hrun hstage hnext hlog hnone hending
  | publish cleanupFailure hrun hstage hlog hhome => exact h.publish hrun hstage cleanupFailure hlog hhome
  | next => exact h.next

abbrev Moves (ordered : Prop) : Session → Session → Prop := Relation.ReflTransGen (Move ordered)

theorem Base.moves (h : Base s) (hmoves : Moves ordered s s') : Base s' := by
  induction hmoves with
  | refl => exact h
  | tail _ hmove ih => exact ih.move hmove

def Orderly (s : Session) : Op → Prop
  | .spawn => s.started = true ∨ s.terminal = false
  | .stdout _ | .stderr _ => s.started = true ∨ s.terminal = true
  | _ => True

theorem phase_accept (e : ExecutionEvent) : (s.accept e).phase = s.phase := by
  unfold accept
  split
  · rfl
  · split
    · rfl
    · exact (published_settle ..).2.2.1

theorem phase_confirmStarted : s.confirmStarted.phase = s.phase := by
  cases hstarted : s.started with
  | true => rw [confirmStarted_of_started hstarted]
  | false =>
    rw [confirmStarted_of_unstarted hstarted]
    exact phase_accept (s := s.begun) (.started s.pid)

theorem move_fail (hrun : s.phase = .running) (message : JsString) : Move ordered s (s.fail message) :=
  .settle _ _ _ (late_of_running hrun)

theorem move_finishExit (hrun : s.phase = .running) (exitCode : Option Int) (signal : Option JsString) :
    Move ordered s (s.finishExit exitCode signal) := .settle _ _ _ (late_of_running hrun)

theorem moves_cancel (hrun : s.phase = .running) : Moves ordered s s.cancel := by
  unfold cancel
  split
  · exact .refl
  have hstill : Move ordered s { s with cancelling := true } := .still ⟨rfl, rfl, rfl, rfl, rfl, rfl, rfl, rfl, .inl⟩
  dsimp only
  split
  · exact .single hstill
  · exact (Relation.ReflTransGen.single hstill).tail (move_fail (s := { s with cancelling := true }) hrun _)

theorem moves_closed (ordered : Prop) (hrun : s.phase = .running) (hopen : s.terminal = false) (exitCode : Option Int)
    (signal : Option JsString) :
    Moves ordered s (confirmStarted { s with closed := true, childExitCode := exitCode, childSignal := signal }) ∧
      (confirmStarted { s with closed := true, childExitCode := exitCode, childSignal := signal }).phase =
        .running := by
  have hstill : Move ordered s { s with closed := true, childExitCode := exitCode, childSignal := signal } :=
    .still ⟨rfl, rfl, rfl, rfl, rfl, rfl, rfl, rfl, .inl⟩
  exact ⟨(Relation.ReflTransGen.single hstill).tail (.confirm hrun fun _ => .inr hopen),
    phase_confirmStarted.trans hrun⟩

theorem moves_onClose (hrun : s.phase = .running) (exitCode : Option Int) (signal : Option JsString) :
    Moves ordered s (s.onClose exitCode signal) := by
  unfold onClose
  split
  · exact .refl
  rename_i hend
  obtain ⟨hmoves, hrun'⟩ := moves_closed ordered hrun (Bool.eq_false_iff.2 hend) exitCode signal
  dsimp only
  split
  · split
    · exact hmoves.tail (move_fail hrun' _)
    · exact hmoves.tail (move_finishExit hrun' ..)
  · exact hmoves.tail (move_finishExit hrun' ..)

theorem phase_cancel : s.cancel.phase = s.phase := by
  unfold cancel
  split
  · rfl
  dsimp only
  split
  · rfl
  · exact (published_settle ..).2.2.1

theorem moves_replayEnd (ordered : Prop) (hrun : s.phase = .running) (hopen : s.terminal = false) (child : Child) :
    Moves ordered s (s.replayEnd child) ∧ (s.replayEnd child).phase = .running := by
  unfold replayEnd
  split
  · exact ⟨.refl, hrun⟩
  · rename_i exitCode signal _
    obtain ⟨hmoves, hrun'⟩ := moves_closed ordered hrun hopen exitCode signal
    exact ⟨hmoves.tail (move_finishExit hrun' ..), (published_settle ..).2.2.1.trans hrun'⟩

theorem moves_heedSignal (cfg : StartProcessOptions) (ordered : Prop) (hrun : s.phase = .running) (child : Child) :
    Moves ordered s (heedSignal cfg s child) ∧ (heedSignal cfg s child).phase = .running := by
  unfold heedSignal
  split
  · split
    · exact ⟨moves_cancel hrun, phase_cancel.trans hrun⟩
    · exact ⟨.single (.still ⟨rfl, rfl, rfl, rfl, rfl, rfl, rfl, rfl, fun _ => .inr hrun⟩), hrun⟩
  · exact ⟨.refl, hrun⟩

theorem moves_launched (h : Base s) (hphase : s.phase = .launching) (child : Except JsString (Option Child)) :
    Moves ordered s (s.launched cfg child) := by
  have hopen := (h.early (.inr hphase)).2
  have hfailed : ∀ message, Moves ordered s
      { s.settle ⟨[], [], none, none⟩ false (some message) with phase := .ended } := by
    intro message
    have hmove : Move ordered s { s with phase := .ended, pid := s.pid } := .launched s.pid hphase (.inr rfl)
    have hlate : ¬ (({ s with phase := Phase.ended, pid := s.pid } : Session).phase = .preparing ∨
        ({ s with phase := Phase.ended, pid := s.pid } : Session).phase = .launching) := by
      rintro (hp | hp) <;> cases hp
    have hsettle := (Relation.ReflTransGen.single hmove).tail
      (.settle ⟨[], [], none, none⟩ false (some message) hlate)
    rw [settle_of_open hopen]
    rw [settle_of_open (s := { s with phase := Phase.ended, pid := s.pid }) hopen] at hsettle
    exact hsettle
  unfold launched
  split
  · exact hfailed _
  · exact hfailed _
  rename_i child
  have hmove : Move ordered s { s with phase := .running, pid := child.pid } := .launched child.pid hphase (.inl rfl)
  obtain ⟨hreplay, hrun⟩ := moves_replayEnd ordered
    (s := { s with phase := .running, pid := child.pid }) rfl hopen child
  obtain ⟨hheed, hrun'⟩ := moves_heedSignal cfg ordered hrun child
  have hmoves := ((Relation.ReflTransGen.single hmove).trans hreplay).trans hheed
  dsimp only
  split
  · exact (hmoves.tail .terminate).tail (.still ⟨rfl, rfl, rfl, rfl, rfl, rfl, rfl, rfl, fun _ => .inr hrun'⟩)
  · exact hmoves.tail (.still ⟨rfl, rfl, rfl, rfl, rfl, rfl, rfl, rfl, fun _ => .inr hrun'⟩)

theorem perform_moves (h : Base s) {op : Op} (hstep : s.perform cfg op = some s') : Moves (s.Orderly op) s s' := by
  have hstill : ∀ {t : Session}, Still s t → Moves (s.Orderly op) s t := fun ht => .single (.still ht)
  cases op <;> simp only [perform, Option.ite_none_right_eq_some, Option.some.injEq] at hstep
  case prepare aborted files abortedAfter mark =>
    obtain ⟨hphase, hstep⟩ := hstep
    split at hstep
    · cases hstep
      exact .single (.prepared hphase)
    · cases hstep
      exact .single (.refused _ hphase)
  case launch child =>
    obtain ⟨hphase, rfl⟩ := hstep
    exact moves_launched h hphase child
  case spawn =>
    obtain ⟨hguard, rfl⟩ := hstep
    exact (hstill (t := { s with
        seenSpawn := true, provenance := if cfg.ownedRunHome ∧ s.pid.isSome then .marking else .idle })
      ⟨rfl, rfl, rfl, rfl, rfl, rfl, rfl, rfl, fun _ => .inr hguard.1⟩).tail (.confirm hguard.1 fun horder => horder)
  case error message =>
    obtain ⟨hguard, hstep⟩ := hstep
    have hmove := hstill (t := { s with seenError := true, lastStartError := some message })
      ⟨rfl, rfl, rfl, rfl, rfl, rfl, rfl, rfl, .inl⟩
    cases hstep
    split
    · exact hmove
    · exact hmove.tail
        (move_fail (s := { s with seenError := true, lastStartError := some message }) hguard.1 message)
  case exit exitCode signal =>
    obtain ⟨hguard, rfl⟩ := hstep
    split
    · exact hstill ⟨rfl, rfl, rfl, rfl, rfl, rfl, rfl, rfl, .inl⟩
    · exact hstill ⟨rfl, rfl, rfl, rfl, rfl, rfl, rfl, rfl, fun _ => .inr hguard.1⟩
  case close exitCode signal =>
    obtain ⟨hguard, rfl⟩ := hstep
    exact (hstill (t := { s with seenClose := true }) ⟨rfl, rfl, rfl, rfl, rfl, rfl, rfl, rfl, .inl⟩).trans
      (moves_onClose (s := { s with seenClose := true }) hguard.1 exitCode signal)
  case stdout chunk =>
    obtain ⟨hphase, rfl⟩ := hstep
    split
    · exact .refl
    · exact (hstill (t := { s with stdoutTail := s.stdoutTail.push chunk })
        ⟨rfl, rfl, rfl, rfl, rfl, rfl, rfl, rfl, .inl⟩).tail (.accept hphase rfl fun horder => horder)
  case stderr chunk =>
    obtain ⟨hphase, rfl⟩ := hstep
    split
    · exact .refl
    · exact (hstill (t := { s with stderrTail := s.stderrTail.push chunk })
        ⟨rfl, rfl, rfl, rfl, rfl, rfl, rfl, rfl, .inl⟩).tail (.accept hphase rfl fun horder => horder)
  case stdoutError | stdinError | writeFailed =>
    obtain ⟨hphase, rfl⟩ := hstep
    exact .single (move_fail hphase _)
  case stderrError =>
    obtain ⟨-, rfl⟩ := hstep
    exact .refl
  case abort =>
    obtain ⟨hlisten, rfl⟩ := hstep
    exact moves_cancel (h.listens (.inr (.inr (.inr (.inl hlisten)))))
  case timeout =>
    obtain ⟨htimer, hstep⟩ := hstep
    have hrun := h.listens (.inr (.inl htimer))
    have hmove := hstill (t := { s with timer := false }) ⟨rfl, rfl, rfl, rfl, rfl, rfl, rfl, rfl, fun _ => .inr hrun⟩
    cases hstep
    split
    · exact hmove
    · exact hmove.tail (move_fail (s := { s with timer := false }) hrun _)
  case startedTimeout =>
    obtain ⟨htimer, hstep⟩ := hstep
    have hrun := h.listens (.inr (.inr (.inl htimer)))
    have hmove := hstill (t := { s with startedTimer := false })
      ⟨rfl, rfl, rfl, rfl, rfl, rfl, rfl, rfl, fun _ => .inr hrun⟩
    cases hstep
    split
    · exact hmove
    · exact hmove.tail (move_fail (s := { s with startedTimer := false }) hrun _)
  case drainTimeout =>
    obtain ⟨htimer, hstep⟩ := hstep
    have hrun := h.listens (.inl htimer)
    have hmove := hstill (t := { s with drainTimer := false })
      ⟨rfl, rfl, rfl, rfl, rfl, rfl, rfl, rfl, fun _ => .inr hrun⟩
    cases hstep
    split
    · exact hmove
    rename_i hend
    have hopen : s.terminal = false := Bool.eq_false_iff.2 fun hterminal => hend (.inl hterminal)
    have hconfirm := hmove.tail (.confirm (s := { s with drainTimer := false }) hrun fun _ => .inr hopen)
    exact hconfirm.tail (move_finishExit (s := confirmStarted { s with drainTimer := false })
      (phase_confirmStarted.trans hrun) ..)
  case write sink =>
    obtain ⟨hphase, rfl⟩ := hstep
    split
    · exact .refl
    · split
      · exact .refl
      · exact .single (move_fail hphase _)
  case closeInput =>
    obtain ⟨-, rfl⟩ := hstep
    split
    · exact .refl
    · exact hstill ⟨rfl, rfl, rfl, rfl, rfl, rfl, rfl, rfl, .inl⟩
  case cancel =>
    obtain ⟨hphase, rfl⟩ := hstep
    exact moves_cancel hphase
  case marked r =>
    obtain ⟨hmarking, hstep⟩ := hstep
    have hrun := h.listens (.inr (.inr (.inr (.inr (by rw [hmarking]; exact fun he => by cases he)))))
    split at hstep
    · cases hstep
      exact hstill ⟨rfl, rfl, rfl, rfl, rfl, rfl, rfl, rfl, fun _ => .inr hrun⟩
    rename_i message
    cases hstep
    have hterminate : Moves (s.Orderly (.marked (.error message))) s s.terminateProcessTree := .single .terminate
    exact hterminate.tail (.still ⟨rfl, rfl, rfl, rfl, rfl, rfl, rfl, rfl, fun _ => .inr hrun⟩)
  case unmarked =>
    split at hstep
    · rename_i message _ hfailing _
      have hrun := h.listens (.inr (.inr (.inr (.inr (by rw [hfailing]; exact fun he => by cases he)))))
      cases hstep
      exact (hstill (t := { s with provenance := .idle })
        ⟨rfl, rfl, rfl, rfl, rfl, rfl, rfl, rfl, fun _ => .inr hrun⟩).tail
          (move_fail (s := { s with provenance := .idle }) hrun _)
    · cases hstep
  case treeTerminated r =>
    split at hstep <;> cases hstep
    rename_i hpending
    exact .single (.answered r hpending)
  case settleTree =>
    obtain ⟨run, hrun, hstep⟩ := Option.bind_eq_some_iff.1 hstep
    obtain ⟨r?, hterm, hstep⟩ := Option.bind_eq_some_iff.1 hstep
    obtain ⟨r, rfl, hstep⟩ := Option.bind_eq_some_iff.1 hstep
    obtain ⟨ending, hlog, hending⟩ := h.ending hrun
    split at hstep
    · rename_i hstage
      have hnil : ending = [] := by
        cases hending with
        | tree | files => rfl
        | home hother | done hother => rw [hstage] at hother; cases hother
      subst hnil
      have hopen : ∀ m, run.stage ≠ .done m := by
        intro m hdone
        rw [hstage] at hdone
        cases hdone
      cases r with
      | ok u =>
        cases hstep
        exact .single (.stage hrun hopen (fun m hm => by cases hm) hlog rfl
          (.files rfl (fun _ => hterm) (fun hne => by cases hne)))
      | error message =>
        cases hstep
        exact .single (.stage hrun hopen (fun m hm => by cases hm) hlog rfl
          (.files rfl (fun hne => by cases hne) fun _ => ⟨message, hterm⟩))
    · cases hstep
  case filesCleaned =>
    obtain ⟨run, hrun, hstep⟩ := Option.bind_eq_some_iff.1 hstep
    obtain ⟨ending, hlog, hending⟩ := h.ending hrun
    split at hstep
    · rename_i treeStopped cleanupFailure rollback hstage
      have hopen : ∀ m, run.stage ≠ .done m := by
        intro m hdone
        rw [hstage] at hdone
        cases hdone
      cases hending with
      | tree hother | home hother | done hother => rw [hstage] at hother; cases hother
      | files hsame hok herror =>
        rw [hstage] at hsame
        cases hsame
        rw [append_nil] at hlog
        cases treeStopped with
        | true =>
          cases hstep
          exact .single (.stage hrun hopen (fun m hm => by cases hm) (by rw [hlog]) rfl (.home rfl (hok rfl)))
        | false =>
          cases hstep
          exact .single (.publish cleanupFailure hrun hopen (by rw [hlog]; rfl) (.inr ⟨rfl, herror rfl⟩))
    · cases hstep
  case homeCleaned r =>
    obtain ⟨run, hrun, hstep⟩ := Option.bind_eq_some_iff.1 hstep
    obtain ⟨ending, hlog, hending⟩ := h.ending hrun
    split at hstep
    · rename_i hstage
      have hopen : ∀ m, run.stage ≠ .done m := by
        intro m hdone
        rw [hstage] at hdone
        cases hdone
      cases hending with
      | tree hother | files hother | done hother => rw [hstage] at hother; cases hother
      | home _ hok =>
        cases hstep
        exact .single (.publish _ hrun hopen (by rw [hlog, append_assoc]) (.inl ⟨rfl, hok⟩))
    · cases hstep
  case next =>
    obtain ⟨-, rfl⟩ := hstep
    exact .single .next

end Session

end Wrenyard.Exec.Process
