import Mathlib.Data.List.Induction
import Wrenyard.Js.KeyedFold
import Wrenyard.Lib.Comparator
import Wrenyard.Session.Event

/-!
# The events of a session page

Snapshots and pushes may overlap.  The page shows the last event that came under each number (`mergeEvents_batches`).
-/

namespace Wrenyard.Session

open Js List

def bySequence (events : List LedgerEvent) : OMap Nat LedgerEvent :=
  OMap.foldKeyed (fun _ event => event) [] (events.map fun event => (event.seq, event))

def mergeEvents (current incoming : List LedgerEvent) : List LedgerEvent :=
  Comparator.sort (fun a b => (a.seq : ℚ) - b.seq) ((bySequence (current ++ incoming)).map Prod.snd)

/-- The last event that came under a number. -/
def newest (events : List LedgerEvent) (seq : Nat) : Option LedgerEvent := (events.filter (·.seq = seq)).getLast?

variable {events current incoming : List LedgerEvent} {event : LedgerEvent} {seq : Nat}

theorem newest_append : newest (current ++ incoming) seq = (newest incoming seq).or (newest current seq) := by
  rw [newest, filter_append, getLast?_append]
  rfl

theorem of_newest (h : newest events seq = some event) : event ∈ events ∧ event.seq = seq := by
  simpa using mem_filter.1 (mem_of_getLast? h)

theorem get_bySequence (events : List LedgerEvent) (seq : Nat) : (bySequence events).get seq = newest events seq := by
  induction events using reverseRecOn with
  | nil => rfl
  | append_singleton events event ih =>
    rw [newest_append, ← ih, bySequence, map_append, OMap.foldKeyed, foldl_append]
    refine (@OMap.get_setKeyed _ _ _ _ (fun _ event => event) _ (event.seq, event) seq).trans ?_
    by_cases h : event.seq = seq <;> simp [newest, h, bySequence, OMap.foldKeyed]

theorem nodup_bySequence (events : List LedgerEvent) : (OMap.keys (bySequence events)).Nodup :=
  OMap.nodup_keys_foldKeyed (m := []) nodup_nil _

theorem newest_of_mem {entry : Nat × LedgerEvent} (h : entry ∈ bySequence events) :
    newest events entry.1 = some entry.2 :=
  (get_bySequence events entry.1).symm.trans (OMap.get_of_mem (nodup_bySequence events) h)

theorem mem_mergeEvents : event ∈ mergeEvents current incoming ↔
    newest (current ++ incoming) event.seq = some event := by
  rw [mergeEvents, Comparator.mem_sort, mem_map]
  constructor
  · rintro ⟨entry, hentry, rfl⟩
    have h := newest_of_mem hentry
    rwa [(of_newest h).2]
  · intro h
    exact ⟨_, OMap.mem_of_get ((get_bySequence ..).trans h), rfl⟩

theorem keys_bySequence (events : List LedgerEvent) :
    OMap.keys (bySequence events) = ((bySequence events).map Prod.snd).map LedgerEvent.seq := by
  rw [map_map]
  exact map_congr_left fun entry hentry => ((of_newest (newest_of_mem hentry)).2).symm

theorem pairwise_mergeEvents (current incoming : List LedgerEvent) :
    (mergeEvents current incoming).Pairwise fun a b => a.seq < b.seq := by
  have hnodup := nodup_bySequence (current ++ incoming)
  rw [keys_bySequence, ← ((Comparator.perm_sort _).map _).nodup_iff, Nodup, pairwise_map] at hnodup
  refine ((Comparator.pairwise_sort (Comparator.lawful_sub fun e : LedgerEvent => (e.seq : ℚ)) _).and hnodup).imp
    fun h => ?_
  rw [sub_nonpos, Nat.cast_le] at h
  exact lt_of_le_of_ne h.1 h.2

/-- However the batches overlap. -/
theorem mergeEvents_batches (batches : List (List LedgerEvent)) :
    (batches.foldl mergeEvents []).Pairwise (fun a b => a.seq < b.seq) ∧
    ∀ event, event ∈ batches.foldl mergeEvents [] ↔ newest batches.flatten event.seq = some event := by
  induction batches using reverseRecOn with
  | nil => exact ⟨.nil, fun _ => ⟨nofun, nofun⟩⟩
  | append_singleton batches batch ih =>
    rw [foldl_concat, flatten_concat]
    refine ⟨pairwise_mergeEvents .., fun event => ?_⟩
    have hnewest : newest (batches.foldl mergeEvents []) event.seq = newest batches.flatten event.seq := by
      cases hpage : newest (batches.foldl mergeEvents []) event.seq with
      | some other =>
        obtain ⟨hmem, hseq⟩ := of_newest hpage
        rw [← hseq, (ih.2 other).1 hmem]
      | none =>
        refine (Option.eq_none_iff_forall_ne_some.2 fun other h => ?_).symm
        have hseq := (of_newest h).2
        rw [← hseq, ← ih.2] at h
        simpa [hseq] using filter_eq_nil_iff.1 (getLast?_eq_none_iff.1 hpage) other h
    rw [mem_mergeEvents, newest_append, newest_append, hnewest]

end Wrenyard.Session
