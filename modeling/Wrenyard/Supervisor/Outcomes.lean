import Wrenyard.Supervisor.Runs

/-!
# One outcome of an execution

Over a run in which no cancellation and no shutdown reaches a running session that reports no process, every execution
ends at most once and keeps its status, one event of its end is stored, and its promise settles exactly when its row
becomes terminal, with the status of the row (`one_outcome`).  A session without a process is taken for one that has
not started: cancelling it rejects the promise while the row is running (`pidless_cancellation`).
-/

namespace Wrenyard.Supervisor

open Js

variable {config : Config} {s : State}

/-- What an execution of this lifetime shows: it is registered until its row is terminal, its promise is settled from
then on, with the status of the row, and as many ends are stored as its row has. -/
def Settles (x : Execution) (e : Entry) : Prop :=
  (e.registered = true ↔ x.row.status.isTerminal = false) ∧ (e.wait.isSome ↔ x.row.status.isTerminal = true) ∧
    (∀ w, e.wait = some w → ∃ r, w = .resolved r ∧ r.status = x.row.status) ∧ ends x.events = endsOf x.row.status

theorem Sound.settles {x : Execution} {e : Entry} (h : Sound x) (he : x.entry = some e) : Settles x e := by
  have hf := (h.entry e he).1
  have hsettled : e.wait.isSome ↔ x.row.status.isTerminal = true := by
    constructor
    · intro hw
      obtain ⟨w, hw⟩ := Option.isSome_iff_exists.mp hw
      exact (hf.settled w hw).1
    · intro ht
      by_contra hw
      rw [Option.not_isSome_iff_eq_none] at hw
      rw [hf.open_ hw] at ht
      cases ht
  refine ⟨?_, hsettled, fun w hw => (hf.settled w hw).2, h.ends e he⟩
  rw [hf.registered, Option.isNone_iff_eq_none, ← Option.not_isSome_iff_eq_none, hsettled, Bool.not_eq_true]

/-- Every execution has one outcome. -/
theorem one_outcome (config : Config) (outcome : ExecutionId → KillOutcome)
    (records : OMap ExecutionId (Row × List EventType)) (ops : List Op)
    (h : Through Controlled config (boot outcome records) ops) :
    (∀ id x e, ((boot outcome records).run config ops).entryOf id = some (x, e) → Settles x e) ∧
    (∀ op, Controlled ((boot outcome records).run config ops) op →
      ∀ id x, OMap.get ((boot outcome records).run config ops).executions id = some x →
        ∃ x', OMap.get (((boot outcome records).run config ops).perform config op).executions id = some x' ∧
          Moves x x') := by
  have hconsistent : Consistent ((boot outcome records).run config ops) :=
    Through.invariant (fun _ _ hs hc => hs.perform hc) (consistent_boot outcome records) h
  constructor
  · intro id x e hx
    obtain ⟨hx, he⟩ := entryOf_eq_some.mp hx
    exact (hconsistent.sound id x hx).settles he
  · intro op hc
    exact (hconsistent.goes hc hconsistent.sound).2

def plainConfig : Config :=
  { paths := { repoRoot := fun path => path, canonical := fun path => path, sep := 47 }
    redact := fun text => text
    prepare := fun _ => none }

def plainStart (id : ExecutionId) : StartOpts :=
  { executionId := id, createdAt := id, cwd := js "/r", repoWriteLock := some false, writePaths := none
    timeoutMs := none, attached := true }

/-- The run of these operations after a start of the daemon without records. -/
def runOf (ops : List Op) : State := (boot (fun _ => .absent) []).run plainConfig ops

/-- An execution is started, its session reports a process, its stream ends and it is closed. -/
def doneOps : List Op :=
  [.start (plainStart 1), .started 1 (.session (some 7)), .streamEnd 1 (some ⟨true, none⟩), .close 1, .drained 1]

theorem one_outcome_done : Through Controlled plainConfig (boot (fun _ => .absent) []) doneOps ∧
    (∀ id x e, (runOf doneOps).entryOf id = some (x, e) → Settles x e) ∧
    ((runOf doneOps).entryOf 1).map (fun p => p.1.row.status) = some .done := by
  have h : Through Controlled plainConfig (boot (fun _ => .absent) []) doneOps := by
    simp [doneOps, Through, Controlled]
  exact ⟨h, (one_outcome plainConfig (fun _ => .absent) [] _ h).1, by decide⟩

/-- A session that reports no process is cancelled: its promise is rejected while its row is running. -/
theorem pidless_cancellation :
    ((runOf [.start (plainStart 1), .started 1 (.session none), .cancel 1]).entryOf 1).map
        (fun p => (p.1.row.status, p.2.registered, p.2.wait)) =
      some (.running, false, some (.rejected (js "Execution '1' queued terminal transaction did not commit"))) := by
  decide

end Wrenyard.Supervisor
