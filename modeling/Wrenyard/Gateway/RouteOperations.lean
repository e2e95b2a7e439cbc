import Wrenyard.Gateway.RouteEvolution

/-!
# The operations of the route state

For each operation of the store, what it does to the blocks: `applying` ends the blocks that are due, `mark` is fenced
off or leaves the block of the fault, and `success`, `observeCredential` and `clearProvider` drop blocks.  All of them
keep the store valid and let it evolve.
-/

namespace Wrenyard.Gateway.RouteStateStore

open Js Option

variable {c : RouteConfig} {s : RouteStateStore} {now : Instant} {provider model : JsString}

private theorem applied (h : Valid s) (withExpired : Bool) :
    Applied now provider model (c.admissionPools provider model) withExpired s.blocks s
      (s.applying c now provider model withExpired) :=
  applied_loop h (fun _ he => OMap.get_of_mem h.blocksNodup he) h.blocksNodup

theorem Valid.applying (h : Valid s) (withExpired : Bool) : Valid (s.applying c now provider model withExpired).2 :=
  (applied h withExpired).valid

theorem evolves_applying (h : Valid s) (withExpired : Bool) :
    Evolves s (s.applying c now provider model withExpired).2 := (applied h withExpired).evolves

theorem get_applying (h : Valid s) (withExpired : Bool) (key : JsString) :
    (s.applying c now provider model withExpired).2.blocks.get key =
    (s.blocks.get key).bind (lapse now provider) := by
  cases hb : s.blocks.get key with
  | none => rw [(applied h withExpired).others key (OMap.get_eq_none_iff.mp hb), hb, bind_none]
  | some block => rw [(applied h withExpired).visited key block (OMap.mem_of_get hb), bind_some]

variable {key : JsString}

theorem mem_applying (h : Valid s) {withExpired : Bool} {block : Block} :
    (key, block) ∈ (s.applying c now provider model withExpired).1 ↔
    (s.applying c now provider model withExpired).2.blocks.get key = some block ∧
    (withExpired = true ∨ block.phase = .opened) ∧ block.reads provider model (c.admissionPools provider model) =
    true := by
  rw [(applied h withExpired).result]
  constructor
  · exact fun h => h.2
  · intro hb
    refine ⟨?_, hb⟩
    by_contra hkey
    have hnone :=
        (applied h withExpired : Applied now provider model (c.admissionPools provider model) _ _ _ _).others key hkey
    rw [hb.1, OMap.get_eq_none_iff.mpr hkey] at hnone
    cases hnone

section

variable {random : Draw} {failure : MarkableFailure} {status : Nat} {credential : JsString}
  {guard : Option RouteGuard}

private def recorded (c : RouteConfig) (s : RouteStateStore) (now : Instant) (random : Draw)
    (provider model : JsString)
    (failure : MarkableFailure) (status : Nat) (credential : JsString) : RouteStateStore :=
  let key := (scopeFor c provider model failure).key
  { s.advanceGeneration key with
    blocks := s.blocks.set key
      (faultBlock c now random provider model failure status credential (s.blocks.get key) (s.sequence + 1)) }

theorem mark_stale (h : guard.any (s.stale (scopeFor c provider model failure).key provider) = true) :
    (s.mark c now random provider model failure status credential guard).2 = s := by
  unfold mark
  rw [if_pos h]

private theorem mark_fresh (h : guard.any (s.stale (scopeFor c provider model failure).key provider) = false) :
    (s.mark c now random provider model failure status credential guard).2 =
    (recorded c s now random provider model failure status credential).pruneGenerations := by
  unfold mark recorded
  rw [if_neg (by simpa using h)]
  rfl

private theorem validFor_recorded (h : Valid s) :
    ValidFor (fun _ => False) (recorded c s now random provider model failure status credential) := by
  refine h.toValidFor.advanceGeneration (OMap.nodup_keys_set h.blocksNodup _ _) ?_ ?_
  · intro key block hb
    rw [OMap.get_set] at hb
    split at hb
    · rename_i hk
      cases hb
      exact ⟨_, _, hk.symm⟩
    · exact h.keyed key block hb
  · intro key block hb
    rw [OMap.get_set] at hb
    split at hb
    · rename_i hk
      cases hb
      right
      rw [if_pos hk]
      rfl
    · rename_i hk
      rw [if_neg hk]
      exact h.held key block hb

private theorem evicts_recorded (h : Valid s) :
    Evicts (recorded c s now random provider model failure status credential)
      (recorded c s now random provider model failure status credential).pruneGenerations :=
  evicts_pruneGenerations (validFor_recorded h).generationsNodup

theorem Valid.mark (h : Valid s) : Valid (s.mark c now random provider model failure status credential guard).2 := by
  cases hstale : guard.any (s.stale (scopeFor c provider model failure).key provider) with
  | true =>
    rw [mark_stale hstale]
    exact h
  | false =>
    rw [mark_fresh hstale]
    exact ⟨(validFor_recorded h).evicts (evicts_recorded h),
      fits_pruneGenerations (validFor_recorded h).generationsNodup⟩

theorem evolves_mark (h : Valid s) : Evolves s
    (s.mark c now random provider model failure status credential guard).2 := by
  cases hstale : guard.any (s.stale (scopeFor c provider model failure).key provider) with
  | true =>
    rw [mark_stale hstale]
    exact Evolves.refl s
  | false =>
    rw [mark_fresh hstale]
    refine Evolves.trans (evolves_advanceGeneration h.toValidFor ?_ ?_) (evicts_recorded h).evolves
    · intro key hne
      rw [OMap.get_set, if_neg hne]
    · intro block hb
      rw [OMap.get_set, if_pos rfl] at hb
      cases hb
      exact Or.inr (Nat.lt_succ_self _)

variable (now random status credential) (h : Valid s)
  (hfresh : guard.any (s.stale (scopeFor c provider model failure).key provider) = false)
include h hfresh

theorem get_mark (key : JsString) :
    (s.mark c now random provider model failure status credential guard).2.blocks.get key =
      if (scopeFor c provider model failure).key = key then
        some (faultBlock c now random provider model failure status credential
          (s.blocks.get (scopeFor c provider model failure).key) (s.sequence + 1))
      else s.blocks.get key := by
  rw [mark_fresh hfresh, (evicts_recorded h).blocks]
  unfold recorded
  simp only [OMap.get_set]

theorem sequence_mark :
    (s.mark c now random provider model failure status credential guard).2.sequence = s.sequence + 1 := by
  rw [mark_fresh hfresh, (evicts_recorded h).sequence]
  rfl

theorem lt_current_mark :
    s.sequence < (s.mark c now random provider model failure status credential guard).2.current
      (scopeFor c provider model failure).key := by
  have hvalid : Valid (s.mark c now random provider model failure status credential guard).2 := h.mark
  have hget := get_mark now random status credential h hfresh (scopeFor c provider model failure).key
  rw [if_pos rfl] at hget
  unfold current
  rw [hvalid.generation_eq hget]
  exact Nat.lt_succ_self _

theorem mark_ne :
    (s.mark c now random provider model failure status credential guard).2 ≠ s := by
  intro heq
  have hlt := lt_current_mark now random status credential h hfresh
  rw [heq] at hlt
  exact absurd (h.toValidFor.current_le _) (Nat.not_le.mpr hlt)

end

variable {exempt : Block → Prop} {test : RouteStateStore → JsString × Block → Bool}

theorem generations_remove (h : ValidFor exempt s) {key' : JsString} (hne : key ≠ key')
    (hblock : s.blocks.has key' = true) : (s.remove key).generations.get key' = s.generations.get key' := by
  have hkept : OMap.has (s.blocks.delete key) key' = true := by
    rw [OMap.has, OMap.get_delete, if_neg hne]
    exact hblock
  rw [(evicts_remove h key).get key' hkept]
  change (s.advanceGeneration key).generations.get key' = _
  rw [get_advanceGeneration, if_neg hne]

theorem get_removeAll {entries : List (JsString × Block)}
    (htest : ∀ s s' : RouteStateStore, ∀ entry ∈ entries, s.generations.get entry.1 = s'.generations.get entry.1 →
      test s entry = test s' entry)
    (h : ValidFor exempt s) (hnodup : (entries.map Prod.fst).Nodup) (key : JsString) :
    (s.removeAll test entries).blocks.get key =
      if ∃ entry ∈ entries, entry.1 = key ∧ test s entry = true then none else s.blocks.get key := by
  unfold removeAll
  induction entries generalizing s with
  | nil => simp
  | cons entry entries ih =>
    rw [List.map_cons, List.nodup_cons] at hnodup
    have ih := fun {s : RouteStateStore} (h : ValidFor exempt s) =>
      ih (s := s) (fun s s' entry he => htest s s' entry (List.mem_cons_of_mem _ he)) h hnodup.2
    rw [List.foldl_cons]
    split
    · rename_i htest'
      rw [ih (h.remove entry.1), blocks_remove h, OMap.get_delete]
      by_cases hkey : entry.1 = key
      · rw [if_pos hkey, ite_self, if_pos ⟨entry, List.mem_cons_self .., hkey, htest'⟩]
      rw [if_neg hkey]
      by_cases hblock : s.blocks.has key = true
      · -- the generations of the other keys with a block are the same
        have hsame : ∀ entry' ∈ entries, entry'.1 = key → test (s.remove entry.1) entry' = test s entry' := by
          rintro entry' he rfl
          exact htest _ _ entry' (List.mem_cons_of_mem _ he) (generations_remove h hkey hblock)
        congr 1
        refine propext ⟨?_, ?_⟩
        · rintro ⟨entry', he, hk, ht⟩
          exact ⟨entry', List.mem_cons_of_mem _ he, hk, by rw [← hsame entry' he hk]; exact ht⟩
        · rintro ⟨entry', he, hk, ht⟩
          rcases List.mem_cons.mp he with rfl | he
          · exact absurd hk hkey
          · exact ⟨entry', he, hk, by rw [hsame entry' he hk]; exact ht⟩
      · have hnone : s.blocks.get key = none := by
          rw [OMap.has, Bool.not_eq_true, isSome_eq_false_iff, isNone_iff_eq_none] at hblock
          exact hblock
        rw [hnone, ite_self, ite_self]
    · rename_i htest'
      rw [ih h]
      congr 1
      refine propext ⟨?_, ?_⟩
      · rintro ⟨entry', he, hk⟩
        exact ⟨entry', List.mem_cons_of_mem _ he, hk⟩
      · rintro ⟨entry', he, hk, ht⟩
        rcases List.mem_cons.mp he with rfl | he
        · exact absurd ht htest'
        · exact ⟨entry', he, hk, ht⟩

theorem Valid.removeAll {entries : List (JsString × Block)} (h : Valid s) : Valid (s.removeAll test entries) :=
  ⟨h.toValidFor.removeAll, fits_removeAll h.toValidFor h.fits⟩

private theorem get_removeAll_blocks (h : ValidFor exempt s) (pick : Block → Bool) (key : JsString) :
    (s.removeAll (fun _ entry => pick entry.2) s.blocks).blocks.get key =
      (s.blocks.get key).filter fun block => !pick block := by
  rw [get_removeAll (fun _ _ _ _ _ => rfl) h h.blocksNodup]
  cases hb : s.blocks.get key with
  | none => rw [ite_self, filter_none]
  | some block =>
    have hiff : (∃ entry ∈ s.blocks, entry.1 = key ∧ pick entry.2 = true) ↔ pick block = true := by
      constructor
      · rintro ⟨entry, he, rfl, hpick⟩
        have hget := OMap.get_of_mem h.blocksNodup he
        rw [hb, Option.some.injEq] at hget
        rw [hget]
        exact hpick
      · intro hpick
        exact ⟨(key, block), OMap.mem_of_get hb, rfl, hpick⟩
    rw [if_congr hiff rfl rfl, filter_some]
    cases pick block <;> rfl

variable {guard : Option RouteGuard} {value : JsString}

private theorem success_eq : s.success c now provider model guard =
    (s.applying c now provider model true).2.removeAll (fun s entry => s.seen guard entry.1)
      (s.applying c now provider model true).1 := rfl

private theorem seen_congr {s s' : RouteStateStore} (h : s.generations.get key = s'.generations.get key) :
    s.seen guard key = s'.seen guard key := by
  unfold seen
  rw [h]

theorem Valid.success (h : Valid s) : Valid (s.success c now provider model guard) := by
  exact (h.applying true).removeAll

theorem evolves_success (h : Valid s) : Evolves s (s.success c now provider model guard) := by
  exact (evolves_applying h true).trans (evolves_removeAll (h.applying true).toValidFor)

private theorem nodup_applying (h : Valid s) : ((s.applying c now provider model true).1.map Prod.fst).Nodup :=
  h.blocksNodup.sublist (applied h true).sublist

theorem get_success (h : Valid s) (key : JsString) :
    (s.success c now provider model guard).blocks.get key =
      if (∃ block, (s.applying c now provider model true).2.blocks.get key = some block ∧
          block.reads provider model (c.admissionPools provider model) = true) ∧
        (s.applying c now provider model true).2.seen guard key = true then none
      else (s.applying c now provider model true).2.blocks.get key := by
  have htest : ∀ s₁ s₂ : RouteStateStore, ∀ entry ∈ (s.applying c now provider model true).1,
      s₁.generations.get entry.1 = s₂.generations.get entry.1 → s₁.seen guard entry.1 = s₂.seen guard entry.1 :=
    fun _ _ _ _ heq => seen_congr heq
  rw [success_eq, get_removeAll htest (h.applying true).toValidFor (nodup_applying h)]
  congr 1
  refine propext ⟨?_, ?_⟩
  · rintro ⟨⟨key', block⟩, he, rfl, hseen⟩
    have hread := (mem_applying h).mp he
    exact ⟨⟨block, hread.1, hread.2.2⟩, hseen⟩
  · rintro ⟨⟨block, hb, hreads⟩, hseen⟩
    exact ⟨(key, block), (mem_applying h).mpr ⟨hb, Or.inl rfl, hreads⟩, rfl, hseen⟩

theorem observeCredential_eq : s.observeCredential c provider value =
    s.removeAll (fun _ entry => entry.2.provider = provider ∧
      entry.2.credential.any (· ≠ c.fingerprint value)) s.blocks := by
  unfold observeCredential removeAll
  simp

theorem get_observeCredential (h : Valid s) (key : JsString) :
    (s.observeCredential c provider value).blocks.get key = (s.blocks.get key).filter fun block =>
      !decide (block.provider = provider ∧ block.credential.any (· ≠ c.fingerprint value) = true) := by
  rw [observeCredential_eq]
  exact get_removeAll_blocks h.toValidFor
    (fun block => decide (block.provider = provider ∧ block.credential.any (· ≠ c.fingerprint value) = true)) key

theorem Valid.observeCredential (h : Valid s) : Valid (s.observeCredential c provider value) := by
  rw [observeCredential_eq]
  exact h.removeAll

theorem evolves_observeCredential (h : Valid s) : Evolves s (s.observeCredential c provider value) := by
  rw [observeCredential_eq]
  exact evolves_removeAll h.toValidFor

private theorem validFor_reset (h : Valid s) (provider : JsString) :
    ValidFor (fun block => block.provider = provider) (s.advanceGeneration (providerKey provider)) := by
  have hvalid : ValidFor (fun block => block.provider = provider) s :=
    { h.toValidFor with held := fun key block hb => Or.inr (h.generation_eq hb) }
  refine hvalid.advanceGeneration h.blocksNodup h.keyed ?_
  intro key block hb
  by_cases hk : providerKey provider = key
  · left
    obtain ⟨scope, tag, hkey⟩ := h.keyed key block hb
    exact (scopeKey_injective (hk.trans hkey)).1.symm
  · rw [if_neg hk]
    exact Or.inr (h.generation_eq hb)

private def dropProvider (s : RouteStateStore) (provider : JsString) : RouteStateStore :=
  (s.advanceGeneration (providerKey provider)).removeAll (fun _ entry => entry.2.provider = provider) s.blocks

private theorem clearProvider_eq : s.clearProvider provider = (s.dropProvider provider).pruneGenerations := by
  unfold clearProvider dropProvider removeAll
  simp [advanceGeneration]

variable (h : Valid s)
include h

private theorem get_dropProvider (key : JsString) :
    (s.dropProvider provider).blocks.get key = (s.blocks.get key).filter fun block => block.provider ≠ provider := by
  have hdrop := get_removeAll_blocks (validFor_reset h provider) (fun block => decide (block.provider = provider)) key
  simpa [advanceGeneration, dropProvider] using hdrop

private theorem validFor_dropProvider (provider : JsString) :
    ValidFor (fun _ => False) (s.dropProvider provider) := by
  have hvalid : ValidFor (fun block => block.provider = provider) (s.dropProvider provider) :=
    (validFor_reset h provider).removeAll
  refine { hvalid with held := fun key block hb => ?_ }
  rcases hvalid.held key block hb with hp | hget
  · rw [get_dropProvider h, filter_eq_some_iff] at hb
    exact absurd hp (by simpa using hb.2)
  · exact Or.inr hget

private theorem evicts_clearProvider : Evicts (s.dropProvider provider) (s.clearProvider provider) := by
  rw [clearProvider_eq]
  exact evicts_pruneGenerations (validFor_dropProvider h provider).generationsNodup

theorem Valid.clearProvider : Valid (s.clearProvider provider) := by
  refine ⟨(validFor_dropProvider h provider).evicts (evicts_clearProvider h), ?_⟩
  rw [clearProvider_eq]
  exact fits_pruneGenerations (validFor_dropProvider h provider).generationsNodup

theorem get_clearProvider (key : JsString) :
    (s.clearProvider provider).blocks.get key = (s.blocks.get key).filter fun block => block.provider ≠ provider := by
  rw [(evicts_clearProvider h).blocks, get_dropProvider h]

private theorem evolves_reset (provider : JsString) : Evolves s (s.advanceGeneration (providerKey provider)) :=
  evolves_advanceGeneration h.toValidFor (fun _ _ => (rfl : s.blocks.get _ = s.blocks.get _))
    fun block hb => Or.inl ⟨block, hb, block.continues_refl⟩

theorem evolves_clearProvider : Evolves s (s.clearProvider provider) :=
  ((evolves_reset h provider).trans (evolves_removeAll (validFor_reset h provider))).trans
    (evicts_clearProvider h).evolves

theorem lt_current_clearProvider : s.sequence < (s.clearProvider provider).current (providerKey provider) := by
  refine Nat.lt_of_lt_of_le ?_ (((evolves_removeAll (validFor_reset h provider)).trans
    (evicts_clearProvider h).evolves).current (providerKey provider))
  rw [current_advanceGeneration, if_pos rfl]
  exact Nat.lt_succ_self _

theorem Valid.timer : Valid (s.timer now key) := by
  unfold RouteStateStore.timer
  split
  · exact h
  rename_i block hb
  split
  · exact h.expireIfDue now hb
  · exact h

theorem evolves_timer : Evolves s (s.timer now key) := by
  unfold timer
  split
  · exact Evolves.refl s
  rename_i block hb
  split
  · exact evolves_expireIfDue h.toValidFor hb
  · exact Evolves.refl s

theorem get_timer (key' : JsString) :
    (s.timer now key).blocks.get key' =
      if key = key' then (s.blocks.get key).bind (Block.expired now) else s.blocks.get key' := by
  unfold timer
  cases hb : s.blocks.get key with
  | none =>
    simp only [bind_none]
    split
    · rename_i hk
      rw [← hk, hb]
    · rfl
  | some block =>
    simp only [bind_some]
    split
    · rw [blocks_expireIfDue h.toValidFor now hb]
    rename_i hdue
    rw [Block.expired, if_pos (Or.inr (Nat.lt_of_not_le hdue))]
    split
    · rename_i hk
      rw [← hk, hb]
    · rfl

omit h

end Wrenyard.Gateway.RouteStateStore
