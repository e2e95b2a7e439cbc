import Wrenyard.Stats.SpeedCache

/-!
# Local speed and the order of samples

The estimates made of samples whose ends differ do not depend on the order of the samples, as long as no two providers
and models share a key (`aggregate_perm`).
-/

namespace Wrenyard.Stats

open Js List

variable {samples samples' : List ExecutionTpsSample}

def DistinctEnds (samples : List ExecutionTpsSample) : Prop :=
  ∀ a ∈ samples, ∀ b ∈ samples, a.endedAt = b.endedAt → a = b

def ExactKeys (samples : List ExecutionTpsSample) : Prop :=
  ∀ a ∈ samples, ∀ b ∈ samples, groupKey a = groupKey b → a.provider = b.provider ∧ a.model = b.model

theorem DistinctEnds.subset (h : DistinctEnds samples) (hs : ∀ a ∈ samples', a ∈ samples) : DistinctEnds samples' :=
  fun a ha b hb => h a (hs a ha) b (hs b hb)

theorem ExactKeys.subset (h : ExactKeys samples) (hs : ∀ a ∈ samples', a ∈ samples) : ExactKeys samples' :=
  fun a ha b hb => h a (hs a ha) b (hs b hb)

theorem append_nul_inj {p p' m m' : JsString} (hp : (0 : UInt16) ∉ p) (hp' : (0 : UInt16) ∉ p')
    (h : p ++ [0] ++ m = p' ++ [0] ++ m') : p = p' ∧ m = m' := by
  induction p generalizing p' with
  | nil =>
    cases p' with
    | nil => simpa using h
    | cons u p' =>
      simp only [nil_append, cons_append, List.cons.injEq] at h
      exact absurd (h.1 ▸ mem_cons_self ..) hp'
  | cons u p ih =>
    cases p' with
    | nil =>
      simp only [nil_append, cons_append, List.cons.injEq] at h
      exact absurd (h.1 ▸ mem_cons_self ..) hp
    | cons u' p' =>
      simp only [cons_append, List.cons.injEq] at h
      have htail := ih (fun hm => hp (mem_cons_of_mem u hm)) (fun hm => hp' (mem_cons_of_mem u' hm)) h.2
      exact ⟨by rw [h.1, htail.1], htail.2⟩

theorem exactKeys_of_provider (h : ∀ s ∈ samples, (0 : UInt16) ∉ s.provider) : ExactKeys samples := by
  intro a ha b hb hkey
  exact append_nul_inj (h a ha) (h b hb) hkey

theorem lawful_newestFirst : Comparator.Lawful newestFirst := by
  have h := Comparator.lawful_sub fun s : ExecutionTpsSample => -(s.endedAt : ℚ)
  have heq : newestFirst = fun a b => -(a.endedAt : ℚ) - -(b.endedAt : ℚ) := by
    funext a b
    unfold newestFirst
    rw [sub_neg_eq_add, neg_add_eq_sub]
  rw [heq]
  exact h

theorem separates_newestFirst (h : DistinctEnds samples) : Comparator.Separates newestFirst samples := by
  intro a ha b hb h0
  apply h a ha b hb
  have : (b.endedAt : ℚ) = a.endedAt := sub_eq_zero.mp h0
  exact (Int.cast_injective this).symm

theorem estimateTps_perm (hd : DistinctEnds samples) (hp : samples.Perm samples') :
    estimateTps samples = estimateTps samples' := by
  have hfilter := hp.filter fun sample => isUsableTpsSample sample.outputTokens sample.durationMs
  have hsort := Comparator.sort_eq_of_perm lawful_newestFirst
    ((separates_newestFirst hd).of_subset fun a ha => mem_of_mem_filter ha) hfilter
  unfold estimateTps
  dsimp only
  rw [hsort, hfilter.length_eq]

theorem bucketSpeed_perm (hd : DistinctEnds samples)
    (hk : ∀ a ∈ samples, ∀ b ∈ samples, a.provider = b.provider ∧ a.model = b.model)
    (hp : samples.Perm samples') : bucketSpeed samples = bucketSpeed samples' := by
  unfold bucketSpeed
  rw [estimateTps_perm hd hp]
  cases samples with
  | nil => rw [hp.nil_eq]
  | cons a samples =>
    cases samples' with
    | nil => exact absurd hp.eq_nil (by simp)
    | cons b samples' =>
      have hb : b ∈ a :: samples := hp.mem_iff.mpr (mem_cons_self ..)
      obtain ⟨hprovider, hmodel⟩ := hk a (mem_cons_self ..) b hb
      simp only [List.head?_cons, Option.bind_eq_bind, Option.bind_some, hprovider, hmodel]

theorem foldAt_push {α : Type} (value : Option (List α)) (values : List α) :
    OMap.foldAt (fun (bucket : Option (List α)) a => bucket.getD [] ++ [a]) value values =
      if values = [] then value else some (value.getD [] ++ values) := by
  induction values generalizing value with
  | nil => rfl
  | cons a values ih =>
    have h := ih (some (value.getD [] ++ [a]))
    unfold OMap.foldAt at h ⊢
    rw [foldl_cons, h]
    by_cases hv : values = []
    · simp [hv]
    · simp [hv]

theorem valuesAt_key (key : ExecutionTpsSample → JsString) (k : JsString) :
    OMap.valuesAt k (samples.map fun s => (key s, s)) = samples.filter fun s => key s = k := by
  induction samples with
  | nil => rfl
  | cons s samples ih =>
    unfold OMap.valuesAt at ih ⊢
    rw [map_cons, filterMap_cons, filter_cons, ih]
    by_cases h : key s = k
    · simp [h]
    · simp [h]

theorem nodup_keys_grouped (samples : List ExecutionTpsSample) : (OMap.keys (grouped samples)).Nodup := by
  apply OMap.nodup_keys_foldKeyed
  exact nodup_nil

theorem mem_grouped {e : JsString × List ExecutionTpsSample} (h : e ∈ grouped samples) :
    e.2 = samples.filter fun s => groupKey s = e.1 := by
  have hget := OMap.get_of_mem (nodup_keys_grouped samples) h
  unfold grouped at hget
  rw [OMap.get_foldKeyed, OMap.get_nil, valuesAt_key, foldAt_push] at hget
  by_cases hempty : (samples.filter fun s => groupKey s = e.1) = []
  · rw [if_pos hempty] at hget
    cases hget
  · rw [if_neg hempty] at hget
    exact (Option.some.inj hget).symm

theorem grouped_filterMap :
    (grouped samples).filterMap (fun e => bucketSpeed e.2) =
      (OMap.keys (grouped samples)).filterMap fun k => bucketSpeed (samples.filter fun s => groupKey s = k) := by
  unfold OMap.keys
  rw [filterMap_map]
  apply filterMap_congr
  intro e he
  rw [mem_grouped he]
  rfl

theorem keys_grouped_perm (hp : samples.Perm samples') :
    (OMap.keys (grouped samples)).Perm (OMap.keys (grouped samples')) := by
  rw [perm_ext_iff_of_nodup (nodup_keys_grouped samples) (nodup_keys_grouped samples')]
  intro k
  unfold grouped
  rw [OMap.mem_keys_foldKeyed, OMap.mem_keys_foldKeyed]
  exact ((hp.map _).map _).mem_iff

theorem aggregate_perm {now : Int} (hd : DistinctEnds (samples.filter (inWindow now)))
    (hk : ExactKeys (samples.filter (inWindow now)))
    (hp : (samples.filter (inWindow now)).Perm (samples'.filter (inWindow now))) :
    (aggregateLocalSpeedSamples samples now).Perm (aggregateLocalSpeedSamples samples' now) := by
  unfold aggregateLocalSpeedSamples
  generalize samples.filter (inWindow now) = l at hd hk hp ⊢
  generalize samples'.filter (inWindow now) = l' at hp ⊢
  rw [grouped_filterMap, grouped_filterMap]
  have hbucket : (fun k => bucketSpeed (l.filter fun s => groupKey s = k)) =
      fun k => bucketSpeed (l'.filter fun s => groupKey s = k) := by
    funext k
    apply bucketSpeed_perm (hd.subset fun a ha => mem_of_mem_filter ha) ?_ (hp.filter _)
    intro a ha b hb
    rw [mem_filter, decide_eq_true_eq] at ha hb
    exact hk a ha.1 b hb.1 (ha.2.trans hb.2.symm)
  rw [hbucket]
  exact (keys_grouped_perm hp).filterMap _

end Wrenyard.Stats
