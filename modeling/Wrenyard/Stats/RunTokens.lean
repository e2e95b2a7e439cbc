import Wrenyard.Stats.RunUsage
import Wrenyard.Stats.Today

/-!
# The tokens of a task run

The projection takes the cached part off the input of each completion, the ledger takes the sum of the cached parts
off the sum of the inputs.  For a run without usage of its clients both count the same tokens exactly when no
completion has more input than cached tokens while another one has fewer (`run_tokens_agree_iff`).
-/

namespace Wrenyard.Stats

open Js Transition List

/-- The sum of differences, each cut off at zero, is the difference of the sums unless they have both signs. -/
theorem sum_tsub_eq_iff (l : List (Nat × Nat)) :
    (l.map fun p => p.1 - p.2).sum = (l.map Prod.fst).sum - (l.map Prod.snd).sum ↔
      ∀ p ∈ l, ∀ q ∈ l, ¬ (p.2 < p.1 ∧ q.1 < q.2) := by
  have hbalance : (l.map Prod.fst).sum + (l.map fun p => p.2 - p.1).sum =
      (l.map Prod.snd).sum + (l.map fun p => p.1 - p.2).sum := by
    induction l with
    | nil => rfl
    | cons p l ih =>
      simp only [map_cons, sum_cons]
      omega
  have hnone : ∀ f : Nat × Nat → Nat, (l.map f).sum = 0 ↔ ∀ p ∈ l, f p = 0 := by
    intro f
    rw [sum_eq_zero_iff, forall_mem_map]
  constructor
  · intro h p hp q hq hpq
    have hsum : (l.map fun p => p.1 - p.2).sum = 0 ∨ (l.map fun p => p.2 - p.1).sum = 0 := by omega
    rcases hsum with h0 | h0
    · have := (hnone _).mp h0 p hp
      omega
    · have := (hnone _).mp h0 q hq
      omega
  · intro h
    by_cases hp : ∃ p ∈ l, p.2 < p.1
    · obtain ⟨p, hp, hlt⟩ := hp
      have h0 : (l.map fun p => p.2 - p.1).sum = 0 := (hnone _).mpr fun q hq => by
        have := h p hp q hq
        omega
      omega
    · have h0 : (l.map fun p => p.1 - p.2).sum = 0 := (hnone _).mpr fun q hq => by
        have : ¬ q.2 < q.1 := fun hlt => hp ⟨q, hq, hlt⟩
        omega
      omega

def natural (value : Option Json) : Bool := value.isNone || (readNonNegativeInteger value).isSome

theorem measured_of_natural {value : Option Json} (h : natural value = true) :
    measured? value = (readNonNegativeInteger value).map Nat.cast := by
  unfold natural at h
  cases value with
  | none => rfl
  | some v =>
    cases v with
    | num n =>
      unfold readNonNegativeInteger at h ⊢
      dsimp only at h ⊢
      split at h
      · rename_i hn
        have hvalue : rational n = (n.whole : ℚ) := by
          unfold rational
          simp [hn.1, hn.2, Rat.mkRat_one]
        show (some (rational n)).filter _ = _
        rw [hvalue, Option.filter_some, if_pos (decide_eq_true (Nat.cast_nonneg _)), if_pos hn]
        rfl
      · cases h
    | _ => cases h

namespace GatewayFacts

def tokens (c : GatewayFacts) : Partitions :=
  (((c.usage.input - c.usage.cached : Nat) : ℚ), ((c.usage.cached : Nat) : ℚ), ((c.usage.output : Nat) : ℚ))

theorem sum_tokens (l : List GatewayFacts) :
    (l.map tokens).sum = ((((l.map fun c => c.usage.input - c.usage.cached).sum : Nat) : ℚ),
      (((l.map fun c => c.usage.cached).sum : Nat) : ℚ), (((l.map fun c => c.usage.output).sum : Nat) : ℚ)) := by
  induction l with
  | nil => rfl
  | cons c l ih =>
    simp only [map_cons, sum_cons, ih, tokens, Prod.mk_add_mk, Nat.cast_add]

def Honest (usage : UsageSums) (measured : DirtyRunFlags) : Prop :=
  (measured.input = false → usage.input = 0) ∧ (measured.cached = false → usage.cached = 0) ∧
    (measured.output = false → usage.output = 0)

end GatewayFacts

open GatewayFacts

theorem honest_of_parse {value : Option Json} {eventId : Nat} {parsed : GatewayFacts}
    (h : parseGatewayCompletion value eventId = some parsed) : Honest parsed.usage parsed.measured := by
  have hfigure : ∀ o : Option Nat, o.isSome = false → o.getD 0 = 0 := by
    intro o ho
    cases o with
    | none => rfl
    | some n => cases ho
  unfold parseGatewayCompletion at h
  simp only [Option.bind_eq_bind, Option.bind_eq_some_iff] at h
  obtain ⟨data, -, h⟩ := h
  split at h
  · cases h
  · obtain ⟨id, -, h⟩ := Option.bind_eq_some_iff.mp h
    cases h
    exact ⟨hfigure _, hfigure _, hfigure _⟩

def evidenceUsage (evidence : Option GatewayEvidence) : UsageSums := (evidence.getD noEvidence).usage

theorem evidenceUsage_foldAt (evidence : Option GatewayEvidence) (l : List GatewayFacts) :
    evidenceUsage (OMap.foldAt addEvidence evidence l) =
      ⟨(evidenceUsage evidence).input + (l.map fun c => c.usage.input).sum,
        (evidenceUsage evidence).cached + (l.map fun c => c.usage.cached).sum,
        (evidenceUsage evidence).output + (l.map fun c => c.usage.output).sum⟩ := by
  induction l generalizing evidence with
  | nil => rfl
  | cons c l ih =>
    refine (ih (some (addEvidence evidence c))).trans ?_
    have hadd : evidenceUsage (some (addEvidence evidence c)) = ⟨(evidenceUsage evidence).input + c.usage.input,
        (evidenceUsage evidence).cached + c.usage.cached, (evidenceUsage evidence).output + c.usage.output⟩ := by
      cases evidence <;> rfl
    rw [hadd]
    simp only [map_cons, sum_cons, Nat.add_assoc]

theorem honest_foldAt {e : Option GatewayEvidence} {l : List GatewayFacts} (hl : ∀ c ∈ l, Honest c.usage c.measured)
    (h : ∀ g, e = some g → Honest g.usage g.measured) :
    ∀ g, OMap.foldAt addEvidence e l = some g → Honest g.usage g.measured := by
  induction l generalizing e with
  | nil => exact h
  | cons c l ih =>
    refine ih (e := some (addEvidence e c)) (fun c' hc' => hl c' (mem_cons_of_mem _ hc')) ?_
    intro g hg
    cases hg
    have hbase : Honest (e.getD noEvidence).usage (e.getD noEvidence).measured := by
      cases e with
      | none => exact ⟨fun _ => rfl, fun _ => rfl, fun _ => rfl⟩
      | some g => exact h g rfl
    have hsum : ∀ {a b : Bool} {m n : Nat}, (a = false → m = 0) → (b = false → n = 0) → (a || b) = false →
        m + n = 0 := by
      intro a b m n ha hb hab
      obtain ⟨h1, h2⟩ := Bool.or_eq_false_iff.mp hab
      rw [ha h1, hb h2]
    have hc := hl c (mem_cons_self ..)
    exact ⟨hsum hbase.1 hc.1, hsum hbase.2.1 hc.2.1, hsum hbase.2.2 hc.2.2⟩

/-! ### The ledger -/

variable {δ : Type} {attempts : List (Attempt δ)}

/-- A partition of a run without usage of its clients. -/
theorem partition_getD {field : TurnUsageEvent → Option Nat} {measured : DirtyRunFlags → Bool}
    {fallback : Nat} (hno : ∀ a ∈ attempts, a.events = [])
    (hzero : (∀ a ∈ attempts, ∀ g, a.evidence = some g → measured g.measured = false) → fallback = 0) :
    (partition attempts field measured fallback).getD 0 = fallback := by
  have hdisplayed : attempts.flatMap Attempt.displayed = [] := by
    rw [flatMap_eq_nil_iff]
    intro a ha
    unfold Attempt.displayed
    rw [hno a ha]
    rfl
  unfold partition
  rw [hdisplayed]
  by_cases hany : (attempts.any fun a => a.evidence.any fun g => measured g.measured) = true
  · rw [if_pos ⟨rfl, hany⟩]
    rfl
  rw [if_neg fun h => hany h.2, if_neg, hzero]
  · rfl
  · intro a ha g hg
    by_contra hm
    refine hany (any_eq_true.mpr ⟨a, ha, ?_⟩)
    rw [hg]
    exact Bool.not_eq_false _ ▸ hm
  · rintro ⟨⟨hne, hrows⟩, -⟩
    obtain ⟨a, ha⟩ := exists_mem_of_ne_nil _ hne
    exact hrows a ha (hno a ha)

theorem gatewaySum_eq_zero {field : UsageSums → Nat}
    (h : ∀ a ∈ attempts, ∀ g, a.evidence = some g → field g.usage = 0) : gatewaySum attempts field = 0 := by
  unfold gatewaySum
  rw [sum_eq_zero_iff]
  intro n hn
  obtain ⟨a, ha, rfl⟩ := mem_map.mp hn
  cases hg : a.evidence with
  | none => rfl
  | some g => exact h a ha g hg

namespace StatsState

variable {cal : Calendar} {s : StatsState} {run : JsString} {e : EventRecord}

/-- What the projection counts of a run: uncached input, cached input and output. -/
def effectiveUsage (s : StatsState) (run : JsString) : Partitions :=
  ((s.rows.filter fun row => row.taskRunId = some run).map fun row => row.u + row.fb).sum

def reportedUsage (usage : TaskUsage) : Partitions :=
  (((usage.inputTokens.getD 0 : Nat) : ℚ), ((usage.cachedInputTokens.getD 0 : Nat) : ℚ),
    ((usage.outputTokens.getD 0 : Nat) : ℚ))

def completionsOf (s : StatsState) (run : JsString) : List GatewayFacts :=
  s.completions.filter fun c => s.taskByExec c.executionId = some run

def NoClientUsage (s : StatsState) (run : JsString) : Prop :=
  ∀ ex ∈ s.executions, ex.taskId = some run → ∀ e ∈ s.events, e.executionId = some ex.id → e.type ≠ js "turn_usage"

def NaturalUsage (s : StatsState) (run : JsString) : Prop :=
  ∀ e ∈ s.events, s.runOf e = some run → ∀ usage, completionUsage e.data = some usage →
    natural (OMap.get usage (js "input")) = true ∧ natural (OMap.get usage (js "cachedInput")) = true ∧
      natural (OMap.get usage (js "output")) = true

theorem History.taskByExec_iff (h : s.History) {id : JsString} :
    s.taskByExec id = some run ↔ id ∈ (s.attemptOrder.filter fun ex => ex.taskId = some run).map Execution.id := by
  have hmap : id ∈ (s.attemptOrder.filter fun ex => ex.taskId = some run).map Execution.id ↔
      ∃ ex ∈ s.executions, ex.taskId = some run ∧ ex.id = id := by
    simp only [mem_map, mem_filter, mem_attemptOrder, decide_eq_true_eq, and_assoc]
  rw [hmap]
  unfold taskByExec
  rw [Option.filter_eq_some_iff, Option.bind_eq_some_iff]
  constructor
  · rintro ⟨⟨ex, hex, htask⟩, -⟩
    exact ⟨ex, mem_of_find?_eq_some hex, htask, by simpa using List.find?_some hex⟩
  · rintro ⟨ex, hex, htask, hid⟩
    refine ⟨⟨ex, ?_, htask⟩, decide_eq_true fun h0 => h.named ex hex (by rw [htask, h0])⟩
    cases hfind : s.executions.find? fun ex => ex.id = id with
    | none => exact absurd (decide_eq_true hid) (List.find?_eq_none.mp hfind ex hex)
    | some other =>
      have hother : other.id = id := by simpa using List.find?_some hfind
      rw [inj_on_of_nodup_map h.executions (mem_of_find?_eq_some hfind) hex (hother.trans hid.symm)]

theorem nodup_attemptRows (h : s.History) (run : JsString) :
    ((s.attemptOrder.filter fun ex => ex.taskId = some run).map Execution.id).Nodup := by
  have hperm : (s.attemptOrder.map Execution.id).Perm (s.executions.map Execution.id) :=
    (perm_insertionSort _ _).map _
  exact (hperm.nodup_iff.mpr h.executions).sublist (filter_sublist.map _)

/-- The attempts of a run that the ledger reads, without usage of clients. -/
theorem gatewaySum_attempts (h : s.History)
    (hattempts : attempts.map Attempt.evidence =
      ((s.attemptOrder.filter fun ex => ex.taskId = some run).map Execution.id).map fun id =>
        OMap.foldAt addEvidence none (s.completions.filter fun c => c.executionId = id))
    {field : UsageSums → Nat} (hnone : field noEvidence.usage = 0)
    (hfield : ∀ l : List GatewayFacts, field (evidenceUsage (OMap.foldAt addEvidence none l)) =
      (l.map fun c => field c.usage).sum) :
    gatewaySum attempts field = ((s.completionsOf run).map fun c => field c.usage).sum := by
  have hsum : gatewaySum attempts field =
      ((attempts.map Attempt.evidence).map fun g => field (evidenceUsage g)).sum := by
    unfold gatewaySum
    rw [map_map]
    congr 1
    apply map_congr_left
    intro a _
    rw [Function.comp_apply]
    cases a.evidence with
    | none => exact hnone.symm
    | some g => rfl
  rw [hsum, hattempts, map_map]
  refine Eq.trans ?_ ((OMap.sum_by_key GatewayFacts.executionId (fun c => field c.usage) (nodup_attemptRows h run)
    s.completions).trans ?_)
  · congr 1
    apply map_congr_left
    intro id _
    exact hfield _
  · refine congrArg (fun l : List GatewayFacts => (l.map fun c => field c.usage).sum) (filter_congr fun c _ => ?_)
    rw [decide_eq_decide]
    exact h.taskByExec_iff.symm

/-- What the ledger reports of a run without usage of its clients. -/
theorem reportedUsage_eq (h : s.History) (hplain : s.PlainIds) (husage : s.NoClientUsage run) (tables : RunTables δ) :
    reportedUsage (s.readTaskRunMetadata tables run).usage =
      (((((s.completionsOf run).map fun c => c.usage.input).sum -
          ((s.completionsOf run).map fun c => c.usage.cached).sum : Nat) : ℚ),
        ((((s.completionsOf run).map fun c => c.usage.cached).sum : Nat) : ℚ),
        ((((s.completionsOf run).map fun c => c.usage.output).sum : Nat) : ℚ)) := by
  obtain ⟨attempts, hattempts⟩ : ∃ attempts : List (Attempt δ), attempts =
      attemptsOf ((s.attemptOrder.filter fun ex => ex.taskId = some run).map Execution.id)
        ((tables.dispatches.filter fun d => d.1 = run).map Prod.snd)
        (OMap.foldKeyed (fun _ events => events) []
          (((s.attemptOrder.filter fun ex => ex.taskId = some run).map Execution.id).map fun id =>
            (id, s.readExecutionEvents id)))
        (s.readGatewayEvidence ((s.attemptOrder.filter fun ex => ex.taskId = some run).map Execution.id)) := ⟨_, rfl⟩
  have hevidence : attempts.map Attempt.evidence =
      ((s.attemptOrder.filter fun ex => ex.taskId = some run).map Execution.id).map fun id =>
        OMap.foldAt addEvidence none (s.completions.filter fun c => c.executionId = id) := by
    rw [hattempts]
    unfold attemptsOf
    rw [map_map]
    apply map_congr_left
    intro id hid
    exact get_readGatewayEvidence hplain hid
  have hno : ∀ a ∈ attempts, a.events = [] := by
    intro a ha
    rw [hattempts] at ha
    obtain ⟨id, hid, rfl⟩ := mem_map.mp ha
    show (OMap.get _ id).getD [] = []
    rw [OMap.get_foldKeyed_map s.readExecutionEvents hid, Option.getD_some]
    obtain ⟨ex, hex, rfl⟩ := mem_map.mp hid
    obtain ⟨hex, htask⟩ := mem_filter.mp hex
    unfold readExecutionEvents
    rw [map_eq_nil_iff, filter_eq_nil_iff]
    intro e he hcolumns
    obtain ⟨hcolumn, htype⟩ := of_decide_eq_true hcolumns
    exact husage ex (mem_attemptOrder.mp hex) (of_decide_eq_true htask) e he hcolumn htype
  have hhonest : ∀ a ∈ attempts, ∀ g, a.evidence = some g → Honest g.usage g.measured := by
    intro a ha
    have hmem : a.evidence ∈ attempts.map Attempt.evidence := mem_map_of_mem ha
    rw [hevidence] at hmem
    obtain ⟨id, -, hfold⟩ := mem_map.mp hmem
    rw [← hfold]
    refine honest_foldAt (fun c hc => ?_) (fun g hg => by cases hg)
    obtain ⟨e, -, hparse⟩ := mem_filterMap.mp (mem_of_mem_filter hc)
    exact honest_of_parse hparse
  have hsum : ∀ {field : UsageSums → Nat}, field noEvidence.usage = 0 →
      (∀ l : List GatewayFacts, field (evidenceUsage (OMap.foldAt addEvidence none l)) =
        (l.map fun c => field c.usage).sum) →
      gatewaySum attempts field = ((s.completionsOf run).map fun c => field c.usage).sum :=
    fun hnone hfield => gatewaySum_attempts h hevidence hnone hfield
  have hinput := @hsum UsageSums.input rfl fun l => by
    rw [evidenceUsage_foldAt]
    exact Nat.zero_add _
  have hcached := @hsum UsageSums.cached rfl fun l => by
    rw [evidenceUsage_foldAt]
    exact Nat.zero_add _
  have houtput := @hsum UsageSums.output rfl fun l => by
    rw [evidenceUsage_foldAt]
    exact Nat.zero_add _
  have husage : (s.readTaskRunMetadata tables run).usage.inputTokens = partition attempts TurnUsageEvent.input
        DirtyRunFlags.input (gatewaySum attempts UsageSums.input - gatewaySum attempts UsageSums.cached) ∧
      (s.readTaskRunMetadata tables run).usage.cachedInputTokens = partition attempts TurnUsageEvent.cached
        DirtyRunFlags.cached (gatewaySum attempts UsageSums.cached) ∧
      (s.readTaskRunMetadata tables run).usage.outputTokens = partition attempts TurnUsageEvent.output
        DirtyRunFlags.output (gatewaySum attempts UsageSums.output) := by
    rw [hattempts]
    exact ⟨rfl, rfl, rfl⟩
  unfold reportedUsage
  rw [husage.1, husage.2.1, husage.2.2, partition_getD hno, partition_getD hno, partition_getD hno, hinput,
    hcached, houtput]
  · intro hm
    exact gatewaySum_eq_zero fun a ha g hg => (hhonest a ha g hg).2.2 (hm a ha g hg)
  · intro hm
    exact gatewaySum_eq_zero fun a ha g hg => (hhonest a ha g hg).2.1 (hm a ha g hg)
  · intro hm
    have hzero : gatewaySum attempts UsageSums.input = 0 :=
      gatewaySum_eq_zero fun a ha g hg => (hhonest a ha g hg).1 (hm a ha g hg)
    rw [hzero, Nat.zero_sub]

/-! ### The projection -/

theorem parse_foremanEnvelope (eventId severity : JsString) (data : OMap JsString Json) (id : Nat) :
    parseGatewayCompletion (some (foremanEnvelope eventId severity data)) id =
      if number? (data.get (js "status")) ≠ some 200 then none
      else (text? (data.get (js "executionId"))).map fun raw =>
        ⟨trim raw, gatewaySums ((member? data (js "usage")).getD []),
          gatewayMeasured ((member? data (js "usage")).getD []),
          gatewayIdentity data id⟩ := by
  show (if number? (data.get (js "status")) ≠ some 200 then none else _) = _
  split
  · rfl
  · cases text? (data.get (js "executionId")) <;> rfl

theorem gatewayPartitions_of_natural {usage : OMap JsString Json} (hinput : natural (usage.get (js "input")) = true)
    (hcached : natural (usage.get (js "cachedInput")) = true) (houtput : natural (usage.get (js "output")) = true) :
    gatewayPartitions usage =
      ((((gatewaySums usage).input - (gatewaySums usage).cached : Nat) : ℚ), (((gatewaySums usage).cached : Nat) : ℚ),
        (((gatewaySums usage).output : Nat) : ℚ)) := by
  have hcast : ∀ o : Option Nat, (o.map (Nat.cast : Nat → ℚ)).getD 0 = ((o.getD 0 : Nat) : ℚ) := by
    intro o
    cases o with
    | none => exact Nat.cast_zero.symm
    | some n => rfl
  unfold gatewayPartitions gatewaySums
  rw [nonNegativeNumber_eq, nonNegativeNumber_eq, measured_of_natural hinput, measured_of_natural hcached,
    measured_of_natural houtput, hcast, hcast, hcast]
  refine Prod.ext ?_ rfl
  show max _ 0 = _
  rcases Nat.le_total ((readNonNegativeInteger (usage.get (js "cachedInput"))).getD 0)
    ((readNonNegativeInteger (usage.get (js "input"))).getD 0) with hle | hle
  · rw [Nat.cast_sub hle, max_eq_left (sub_nonneg.mpr (Nat.cast_le.mpr hle))]
  · rw [Nat.sub_eq_zero_of_le hle, Nat.cast_zero, max_eq_right (sub_nonpos.mpr (Nat.cast_le.mpr hle))]

/-- A completion of a run counts its tokens. -/
theorem candidate_of_run (h : s.History) (hnatural : s.NaturalUsage run) (he : e ∈ s.events)
    (hg : e.type = js "gateway.request.completed") (hrun : s.runOf e = some run) :
    candidatePartitions e.data = ((parseGatewayCompletion e.data e.id).map tokens).getD 0 := by
  have hfigures := hnatural e he hrun
  obtain ⟨eventId, severity, data, hdata⟩ := h.enveloped e he hg
  rw [h.runOf_completion he hg, hdata] at hrun
  obtain ⟨id, hnested, -⟩ := Option.bind_eq_some_iff.mp hrun
  obtain ⟨raw, hraw, -⟩ : ∃ raw, text? (data.get (js "executionId")) = some raw ∧ some (trim raw) = some id :=
    Option.bind_eq_some_iff.mp hnested
  rw [hdata, candidatePartitions_foremanEnvelope, parse_foremanEnvelope]
  by_cases hstatus : number? (data.get (js "status")) ≠ some 200
  · rw [if_pos hstatus, if_pos hstatus]
    rfl
  rw [if_neg hstatus, if_neg hstatus, hraw]
  have hcomplete : completionUsage (some (foremanEnvelope eventId severity data)) = member? data (js "usage") := by
    have hmeasured : measured? (data.get (js "status")) = some 200 := by
      unfold measured?
      rw [not_not.mp hstatus]
      rfl
    exact if_pos hmeasured
  rw [hdata, hcomplete] at hfigures
  have hnat : natural (OMap.get ((member? data (js "usage")).getD []) (js "input")) = true ∧
      natural (OMap.get ((member? data (js "usage")).getD []) (js "cachedInput")) = true ∧
      natural (OMap.get ((member? data (js "usage")).getD []) (js "output")) = true := by
    cases hmember : member? data (js "usage") with
    | none => exact ⟨rfl, rfl, rfl⟩
    | some usage => exact hfigures usage hmember
  exact gatewayPartitions_of_natural hnat.1 hnat.2.1 hnat.2.2

theorem runOf_usage_ne (h : s.History) (husage : s.NoClientUsage run) (he : e ∈ s.events)
    (htype : e.type = js "turn_usage") :
    s.runOf e ≠ some run := by
  intro hrun
  have hnested : nestedOf e = none := by
    unfold nestedOf
    rw [htype, if_neg (by decide)]
  rcases h.owned e he with ⟨hg, -⟩ | ⟨-, ex, hex, hcolumn, htask⟩
  · rw [htype] at hg
    exact absurd hg (by decide)
  unfold runOf at hrun
  rw [hnested, Option.bind_none, Option.none_or, hcolumn, htask] at hrun
  dsimp only at hrun
  split at hrun
  · obtain ⟨other, hother, hid⟩ := mem_map.mp (h.taskByExec_iff.mp hrun)
    obtain ⟨hmem, hrunOf⟩ := mem_filter.mp hother
    exact husage other (mem_attemptOrder.mp hmem) (of_decide_eq_true hrunOf) e he (by rw [hcolumn, hid]) htype
  · exact husage ex hex hrun e he hcolumn htype

theorem readDirtyRunFlags_of_noUsage (husage : s.NoClientUsage run) :
    s.readDirtyRunFlags run = ⟨false, false, false⟩ := by
  have hnone : s.runUsage run = [] := by
    unfold runUsage
    rw [flatMap_eq_nil_iff]
    intro ex hex
    obtain ⟨hex, htask⟩ := mem_filter.mp hex
    have hevents : (s.events.filter fun ev => ev.executionId = some ex.id ∧ ev.type = js "turn_usage") = [] := by
      rw [filter_eq_nil_iff]
      intro ev hev hcolumns
      obtain ⟨hcolumn, htype⟩ := of_decide_eq_true hcolumns
      exact husage ex hex (of_decide_eq_true htask) ev hev hcolumn htype
    rw [hevents]
    rfl
  unfold readDirtyRunFlags
  rw [hnone]
  rfl

/-- What the drained projection counts of a run without usage of its clients. -/
theorem effectiveUsage_eq (h : s.Consistent cal) (hpending : s.pendingEvents = []) (hclean : s.dirtyRuns = [])
    (husage : s.NoClientUsage run) (hnatural : s.NaturalUsage run) :
    s.effectiveUsage run = ((s.completionsOf run).map tokens).sum := by
  have hcores : s.effectiveUsage run = (((s.rows.map ProjectionRow.toProjectionCore).filter fun core =>
      core.taskRunId = some run).map fun core => core.u + core.fb).sum := by
    rw [filter_map, map_map]
    rfl
  have hcompletions : ((s.completionsOf run).map tokens).sum =
      (s.events.map fun e => if e.type = js "gateway.request.completed" then
        (((parseGatewayCompletion e.data e.id).filter fun c => s.taskByExec c.executionId =
          some run).map tokens).getD 0
        else 0).sum := by
    unfold completionsOf completions
    rw [filter_filterMap, OMap.sum_filterMap, OMap.sum_filter_ite]
    simp only [decide_eq_true_eq]
  rw [hcores, h.projected.rows, filter_map, map_map, drained_of_no_pending hpending, filter_filter,
    OMap.sum_filter_ite, hcompletions]
  congr 1
  apply map_congr_left
  intro e he
  have hcolumns : (s.coreOf cal e).taskRunId = s.runOf e := rfl
  by_cases hg : e.type = js "gateway.request.completed"
  · have hrelevant : relevant e = true := by
      unfold relevant
      rw [decide_eq_true hg, Bool.or_true]
    have hnested : ∀ c, parseGatewayCompletion e.data e.id = some c → s.runOf e = s.taskByExec c.executionId := by
      intro c hc
      obtain ⟨eventId, severity, data, hdata⟩ := h.history.enveloped e he hg
      rw [hdata, parse_foremanEnvelope] at hc
      split at hc
      · cases hc
      obtain ⟨raw, hraw, rfl⟩ := Option.map_eq_some_iff.mp hc
      rw [h.history.runOf_completion he hg, hdata]
      show ((text? (data.get (js "executionId"))).bind fun id => some (trim id)).bind _ = _
      rw [hraw, Option.bind_some, Option.bind_some]
    rw [if_pos hg, hrelevant, Bool.and_true]
    by_cases hr : s.runOf e = some run
    · have hdrained : e ∈ s.drained := by
        rw [drained_of_no_pending hpending]
        exact mem_filter.mpr ⟨he, hrelevant⟩
      have hterm : (s.coreOf cal e).u + (s.coreOf cal e).fb = candidatePartitions e.data := by
        have hu : (s.coreOf cal e).u = 0 := if_neg (by rw [hg]; decide)
        have hfb : (s.coreOf cal e).fb = gate (s.storedFlags (s.runOf e))
            (if e.type = js "gateway.request.completed" then candidatePartitions e.data else 0) := rfl
        rw [hu, hfb, h.storedFlags_eq hclean hdrained hg, hr, Option.map_some,
          readDirtyRunFlags_of_noUsage husage, if_pos hg,
          zero_add]
        rfl
      rw [if_pos (by simpa using hcolumns.trans hr), Function.comp_apply, hterm,
        candidate_of_run h.history hnatural he hg hr]
      cases hc : parseGatewayCompletion e.data e.id with
      | none => rfl
      | some c => rw [Option.filter_some, if_pos (decide_eq_true ((hnested c hc).symm.trans hr))]
    · rw [if_neg (by simpa using fun h0 => hr (hcolumns.symm.trans h0))]
      cases hc : parseGatewayCompletion e.data e.id with
      | none => rfl
      | some c =>
        rw [Option.filter_some, if_neg]
        · rfl
        · rw [← hnested c hc]
          simpa using hr
  · split
    · rename_i hr
      simp only [Function.comp_apply, Bool.and_eq_true, decide_eq_true_eq] at hr
      have hu : e.type ≠ js "turn_usage" := fun h0 => runOf_usage_ne h.history husage he h0 hr.1
      have hcoreU : (s.coreOf cal e).u = 0 := if_neg hu
      have hcoreFb : (s.coreOf cal e).fb = gate (s.storedFlags (s.runOf e))
          (if e.type = js "gateway.request.completed" then candidatePartitions e.data else 0) := rfl
      rw [Function.comp_apply, hcoreU, hcoreFb, if_neg hg, gate_zero, add_zero]
    · rfl

/-- On a drained projection the run's tokens are those of the ledger exactly when its completions do not mix more
input than cached tokens with fewer; a batch reads the run as the reader of one run does. -/
theorem run_tokens_agree_iff (cal : Calendar) (s : StatsState) (tables : RunTables δ) (run : JsString)
    (hs : s.Reached cal)
    (hpending : s.pendingEvents = []) (hclean : s.dirtyRuns = []) (husage : s.NoClientUsage run)
    (hnatural : s.NaturalUsage run) (hplain : s.PlainIds) :
    (s.effectiveUsage run = reportedUsage (s.readTaskRunMetadata tables run).usage ∧
      ∀ ids, run ∈ ids → OMap.get (s.readTaskRunMetadataBatch tables ids) run =
      some (s.readTaskRunMetadata tables run)) ↔
    ∀ c ∈ s.completionsOf run, ∀ c' ∈ s.completionsOf run,
      ¬ (c.usage.cached < c.usage.input ∧ c'.usage.input < c'.usage.cached) := by
  have hbatch : ∀ ids, run ∈ ids →
      OMap.get (s.readTaskRunMetadataBatch tables ids) run = some (s.readTaskRunMetadata tables run) :=
    fun ids hrun => readTaskRunMetadataBatch_get hplain tables hrun
  rw [effectiveUsage_eq hs.consistent hpending hclean husage hnatural,
    reportedUsage_eq hs.consistent.history hplain husage tables, sum_tokens]
  have hiff := sum_tsub_eq_iff ((s.completionsOf run).map fun c => (c.usage.input, c.usage.cached))
  simp only [List.map_map, Function.comp_def, List.forall_mem_map] at hiff
  rw [← hiff]
  constructor
  · intro h
    exact Nat.cast_inj.mp (congrArg Prod.fst h.1)
  · intro h
    exact ⟨by rw [h], hbatch⟩

/-- Two completed calls of a task: ten tokens of input, and five of the second kind. -/
def twoCompletions (second : String) : List StatsAction :=
  [.execution ⟨js "exec_1", some (js "task_1"), false, 0, none, none⟩,
    completed 1 "gateway_1" "input" 10 [(js "executionId", .str (js "exec_1"))],
    completed 2 "gateway_2" second 5 [(js "executionId", .str (js "exec_1"))], .drainEvents 512, .drainRuns 64]

def afterCompletions (second : String) : StatsState :=
  (steps (step oneDay) initial (twoCompletions second)).getD initial

def afterMixedCompletions : StatsState := afterCompletions "cachedInput"

/-- No dispatches and no samples. -/
def noTables : RunTables Unit := ⟨[], [], fun _ => none, fun _ => [], fun _ _ _ => rfl⟩

theorem noClientUsage_of_types (run : JsString) (h : (s.events.all fun e => e.type ≠ js "turn_usage") = true) :
    s.NoClientUsage run := by
  intro ex _ _ e he _
  simpa using all_eq_true.mp h e he

theorem naturalUsage_of_figures (run : JsString) (h : (s.events.all fun e => (completionUsage e.data).all fun usage =>
    natural (usage.get (js "input")) && natural (usage.get (js "cachedInput")) &&
      natural (usage.get (js "output"))) = true) : s.NaturalUsage run := by
  intro e he _ usage husage
  have hfigures := all_eq_true.mp h e he
  rw [husage] at hfigures
  simpa [and_assoc] using hfigures

theorem plainIds_of_trimmed (h : (s.events.all fun e => (extractedExecutionId e.data).all fun id => trim id = id) =
    true) : s.PlainIds := by
  intro e he _ id hid
  have hplain := all_eq_true.mp h e he
  rw [hid] at hplain
  simpa using hplain

/-- The projection counts ten uncached tokens, the ledger five. -/
theorem not_run_tokens_agree :
    ¬ ∀ (cal : Calendar) (s : StatsState) (tables : RunTables Unit) (run : JsString), s.Reached cal →
    s.pendingEvents = [] → s.dirtyRuns = [] → s.NoClientUsage run → s.NaturalUsage run → s.PlainIds →
    s.effectiveUsage run = reportedUsage (s.readTaskRunMetadata tables run).usage := by
  intro h
  have hagree := h oneDay afterMixedCompletions noTables (js "task_1")
    ⟨twoCompletions "cachedInput", run_of_steps (by rfl)⟩ (by rfl) (by rfl) (noClientUsage_of_types _ (by decide))
    (naturalUsage_of_figures _ (by decide)) (plainIds_of_trimmed (by decide))
  have heffective : afterMixedCompletions.effectiveUsage (js "task_1") = (10, 5, 0) := by decide +kernel
  have hreported : reportedUsage (afterMixedCompletions.readTaskRunMetadata noTables (js "task_1")).usage =
      (5, 5, 0) := by
    decide +kernel
  rw [heffective, hreported] at hagree
  exact absurd hagree (by decide)

/-- Without cached tokens both count fifteen; the mixed completions are mixed. -/
theorem run_tokens_agree_iff_mixed :
    ((afterCompletions "input").effectiveUsage (js "task_1") =
        reportedUsage ((afterCompletions "input").readTaskRunMetadata noTables (js "task_1")).usage ∧
      ∀ ids, js "task_1" ∈ ids →
        OMap.get ((afterCompletions "input").readTaskRunMetadataBatch noTables ids) (js "task_1") =
          some ((afterCompletions "input").readTaskRunMetadata noTables (js "task_1"))) ∧
    ¬ ∀ c ∈ afterMixedCompletions.completionsOf (js "task_1"),
      ∀ c' ∈ afterMixedCompletions.completionsOf (js "task_1"),
      ¬ (c.usage.cached < c.usage.input ∧ c'.usage.input < c'.usage.cached) := by
  have hplain := run_tokens_agree_iff oneDay (afterCompletions "input") noTables (js "task_1")
    ⟨twoCompletions "input", run_of_steps (by rfl)⟩ (by rfl) (by rfl) (noClientUsage_of_types _ (by decide))
    (naturalUsage_of_figures _ (by decide)) (plainIds_of_trimmed (by decide))
  exact ⟨hplain.mpr (by decide +kernel), by decide +kernel⟩

end StatsState

end Wrenyard.Stats
