import Mathlib.Data.List.Perm.Subperm
import Wrenyard.Js.JsonRoundTrip
import Wrenyard.Gateway.RouteState

/-!
# How the route state evolves

What every operation of the store keeps (`Valid`: a held block is at the current generation of its key, and the
generations fit in their bound), and how an operation relates the store before it to the store after it (`Evolves`):
the generation of no key goes back, and a key that gains or loses a block reads a generation that was not drawn
before.
-/

namespace Wrenyard.Gateway

open Js List

theorem scopeKey_injective {provider provider' tag tag' : JsString} {scope scope' : Scope}
    (h : scopeKey provider scope tag = scopeKey provider' scope' tag') :
    provider = provider' ∧ scope.text = scope'.text ∧ tag = tag' := by
  have hparse := congrArg Json.parse h
  unfold scopeKey at hparse
  rw [Json.parse_stringify rfl, Json.parse_stringify rfl] at hparse
  simpa using hparse

def Block.Continues (block before : Block) : Prop := block = { before with phase := block.phase }

theorem Block.continues_refl (block : Block) : block.Continues block := rfl

theorem Block.Continues.trans {a b c : Block} (h : a.Continues b) (h' : b.Continues c) : a.Continues c := by
  unfold Continues at h h' ⊢
  rw [h, h']

def Block.expired (now : Instant) (block : Block) : Option Block :=
  if block.phase ≠ .opened ∨ now < block.until_ then some block
  else if block.resets then none
  else some { block with phase := .closed }

namespace RouteStateStore

variable {s s' s'' : RouteStateStore}

/-- What every operation keeps.  While the blocks of a provider are dropped, they are exempt from being at the current
generation of their key. -/
structure ValidFor (exempt : Block → Prop) (s : RouteStateStore) : Prop where
  blocksNodup : s.blocks.keys.Nodup
  generationsNodup : s.generations.keys.Nodup
  keyed : ∀ key block, s.blocks.get key = some block → ∃ scope tag, key = scopeKey block.provider scope tag
  held : ∀ key block, s.blocks.get key = some block → exempt block ∨ s.generations.get key = some block.generation
  bounded : ∀ entry ∈ s.generations, entry.2 ≤ s.sequence
  floor : s.retiredFloor ≤ s.sequence

/-- The table of generations is within its bound. -/
def Fits (s : RouteStateStore) : Prop := s.generations.length ≤ s.blocks.length + MAX_GENERATION_TOMBSTONES

structure Valid (s : RouteStateStore) : Prop extends ValidFor (fun _ => False) s where
  fits : s.Fits

variable {key : JsString} {block : Block}

theorem Valid.generation_eq (h : Valid s) (hb : s.blocks.get key = some block) :
    s.generations.get key = some block.generation := by
  rcases h.held key block hb with h | h
  · exact h.elim
  · exact h

theorem valid_empty : Valid empty :=
  { blocksNodup := List.nodup_nil
    generationsNodup := List.nodup_nil
    keyed := (by rintro _ _ ⟨⟩)
    held := (by rintro _ _ ⟨⟩)
    bounded := (by rintro _ ⟨⟩)
    floor := Nat.le_refl 0
    fits := Nat.zero_le _ }

variable {exempt : Block → Prop}

theorem ValidFor.get_le (h : ValidFor exempt s) {n : Nat} (hn : s.generations.get key = some n) : n ≤ s.sequence :=
  h.bounded _ (OMap.mem_of_get hn)

theorem ValidFor.current_le (h : ValidFor exempt s) (key : JsString) : s.current key ≤ s.sequence := by
  unfold current
  cases hn : s.generations.get key with
  | none => exact h.floor
  | some n => exact h.get_le hn

structure Evolves (s s' : RouteStateStore) : Prop where
  sequence : s.sequence ≤ s'.sequence
  current : ∀ key, s.current key ≤ s'.current key
  gone : ∀ key block, s.blocks.get key = some block → s'.blocks.get key = none → s.sequence < s'.current key
  kept : ∀ key block, s'.blocks.get key = some block →
    (∃ before, s.blocks.get key = some before ∧ block.Continues before) ∨ s.sequence < block.generation

theorem Evolves.refl (s : RouteStateStore) : Evolves s s where
  sequence := Nat.le_refl _
  current _ := Nat.le_refl _
  gone key block h h' := by rw [h] at h'; cases h'
  kept key block h := Or.inl ⟨block, h, block.continues_refl⟩

theorem Evolves.trans (h : Evolves s s') (h' : Evolves s' s'') : Evolves s s'' where
  sequence := h.sequence.trans h'.sequence
  current key := (h.current key).trans (h'.current key)
  gone key block hb hnone := by
    cases hb' : s'.blocks.get key with
    | none => exact (h.gone key block hb hb').trans_le (h'.current key)
    | some block' => exact h.sequence.trans_lt (h'.gone key block' hb' hnone)
  kept key block hb := by
    rcases h'.kept key block hb with ⟨before, hbefore, hcont⟩ | hlt
    · rcases h.kept key before hbefore with ⟨first, hfirst, hcont'⟩ | hlt
      · exact Or.inl ⟨first, hfirst, hcont.trans hcont'⟩
      · right
        rw [hcont]
        exact hlt
    · exact Or.inr (h.sequence.trans_lt hlt)

theorem get_advanceGeneration (s : RouteStateStore) (key key' : JsString) :
    (s.advanceGeneration key).generations.get key' =
      if key = key' then some (s.sequence + 1) else s.generations.get key' := by
  unfold advanceGeneration
  simp only [OMap.get_set, OMap.get_delete]
  by_cases h : key = key' <;> simp [h]

theorem current_advanceGeneration (s : RouteStateStore) (key key' : JsString) :
    (s.advanceGeneration key).current key' = if key = key' then s.sequence + 1 else s.current key' := by
  unfold current
  rw [get_advanceGeneration]
  split <;> rfl

theorem ValidFor.advanceGeneration {blocks : OMap JsString Block} (h : ValidFor exempt s)
    (hnodup : blocks.keys.Nodup)
    (hkeyed : ∀ key block, blocks.get key = some block → ∃ scope tag, key = scopeKey block.provider scope tag)
    (hheld : ∀ key' block, blocks.get key' = some block → exempt block ∨ if key = key'
      then block.generation = s.sequence + 1 else s.generations.get key' = some block.generation) :
    ValidFor exempt { s.advanceGeneration key with blocks := blocks } where
  blocksNodup := hnodup
  generationsNodup := OMap.nodup_keys_set (OMap.nodup_keys_delete h.generationsNodup key) _ _
  keyed := hkeyed
  held key' block hb := by
    rcases hheld key' block hb with he | he
    · exact Or.inl he
    right
    change (s.advanceGeneration key).generations.get key' = some block.generation
    rw [get_advanceGeneration]
    split at he
    · rename_i hk
      rw [if_pos hk, he]
    · rename_i hk
      rw [if_neg hk, he]
  bounded entry he := by
    rcases OMap.mem_set he with rfl | he
    · exact Nat.le_refl _
    · exact (h.bounded entry (OMap.mem_of_mem_delete he).1).trans (Nat.le_succ _)
  floor := h.floor.trans (Nat.le_succ _)

/-! ### Evicting tombstones -/

structure Evicts (s s' : RouteStateStore) : Prop where
  blocks : s'.blocks = s.blocks
  sequence : s'.sequence = s.sequence
  current : ∀ key, s.current key ≤ s'.current key
  get : ∀ key, s.blocks.has key = true → s'.generations.get key = s.generations.get key
  sublist : s'.generations.Sublist s.generations
  floor : ∀ n, s.retiredFloor ≤ n → (∀ entry ∈ s.generations, entry.2 ≤ n) → s'.retiredFloor ≤ n

private theorem Evicts.refl (s : RouteStateStore) : Evicts s s :=
  ⟨rfl, rfl, fun _ => Nat.le_refl _, fun _ _ => rfl, List.Sublist.refl _, fun _ h _ => h⟩

private theorem Evicts.trans (h : Evicts s s') (h' : Evicts s' s'') : Evicts s s'' where
  blocks := h'.blocks.trans h.blocks
  sequence := h'.sequence.trans h.sequence
  current key := (h.current key).trans (h'.current key)
  get key hkey := (h'.get key (by rw [h.blocks]; exact hkey)).trans (h.get key hkey)
  sublist := h'.sublist.trans h.sublist
  floor n hn hgen := h'.floor n (h.floor n hn hgen) fun entry he => hgen entry (h.sublist.subset he)

private theorem evicts_entry {generation : Nat} (hget : s.generations.get key = some generation)
    (hblock : s.blocks.has key ≠ true) :
    Evicts s { s with generations := s.generations.delete key, retiredFloor := max s.retiredFloor generation } where
  blocks := rfl
  sequence := rfl
  current key' := by
    unfold current
    simp only [OMap.get_delete]
    by_cases hk : key = key'
    · subst hk
      rw [hget, if_pos rfl]
      exact Nat.le_max_right _ _
    rw [if_neg hk]
    cases s.generations.get key' with
    | none => exact Nat.le_max_left _ _
    | some n => exact Nat.le_refl _
  get key' hkey := by
    rw [OMap.get_delete, if_neg]
    rintro rfl
    exact hblock hkey
  sublist := filter_sublist
  floor n hn hgen := max_le hn (hgen _ (OMap.mem_of_get hget))

variable {rest : List (JsString × Nat)}

private theorem get_delete_of_rest {m : OMap JsString Nat} {key : JsString} {generation : Nat}
    (hrest : ∀ entry ∈ (key, generation) :: rest, m.get entry.1 = some entry.2) (hkey : key ∉ rest.map Prod.fst) :
    ∀ entry ∈ rest, (m.delete key).get entry.1 = some entry.2 := by
  intro entry he
  rw [OMap.get_delete, if_neg, hrest entry (mem_cons_of_mem _ he)]
  rintro rfl
  exact hkey (mem_map_of_mem he)

private theorem evicts_pruneLoop {limit : Nat}
    (hrest : ∀ entry ∈ rest, s.generations.get entry.1 = some entry.2) (hnodup : (rest.map Prod.fst).Nodup) :
    Evicts s (pruneLoop limit rest s) := by
  induction rest generalizing s with
  | nil => exact Evicts.refl s
  | cons entry rest ih =>
    obtain ⟨key, generation⟩ := entry
    rw [map_cons, nodup_cons] at hnodup
    unfold pruneLoop
    split
    · exact Evicts.refl s
    split
    · exact ih (fun entry he => hrest entry (mem_cons_of_mem _ he)) hnodup.2
    · rename_i hblock
      refine (evicts_entry (hrest _ (mem_cons_self ..)) hblock).trans (ih ?_ hnodup.2)
      exact get_delete_of_rest hrest hnodup.1

theorem evicts_pruneGenerations (h : s.generations.keys.Nodup) : Evicts s s.pruneGenerations := by
  unfold pruneGenerations
  simp only
  split
  · exact Evicts.refl s
  · exact evicts_pruneLoop (fun entry he => OMap.get_of_mem h he) h

theorem ValidFor.evicts (h : ValidFor exempt s) (h' : Evicts s s') : ValidFor exempt s' where
  blocksNodup := by rw [h'.blocks]; exact h.blocksNodup
  generationsNodup := h.generationsNodup.sublist (h'.sublist.map _)
  keyed := by rw [h'.blocks]; exact h.keyed
  held key block hb := by
    rw [h'.blocks] at hb
    rw [h'.get key (by rw [OMap.has, hb]; rfl)]
    exact h.held key block hb
  bounded entry he := by
    rw [h'.sequence]
    exact h.bounded entry (h'.sublist.subset he)
  floor := by
    rw [h'.sequence]
    exact h'.floor _ h.floor h.bounded

theorem Evicts.evolves (h : Evicts s s') : Evolves s s' where
  sequence := h.sequence.ge
  current := h.current
  gone key block hb hnone := by
    rw [h.blocks, hb] at hnone
    cases hnone
  kept key block hb := by
    rw [h.blocks] at hb
    exact Or.inl ⟨block, hb, block.continues_refl⟩

private def evictable (blocks : OMap JsString Block) (rest : List (JsString × Nat)) : Nat :=
  rest.countP fun entry => !blocks.has entry.1

private theorem length_delete {m : OMap JsString Nat} (h : m.keys.Nodup) (hkey : key ∈ m.keys) :
    (m.delete key).length + 1 = m.length := by
  induction m with
  | nil => cases hkey
  | cons e m ih =>
    simp only [OMap.keys, map_cons, nodup_cons, mem_cons] at h hkey ih
    unfold OMap.delete at ih ⊢
    by_cases he : e.1 = key
    · subst he
      have hrest : m.filter (fun entry => entry.1 ≠ e.1) = m := by
        rw [filter_eq_self]
        intro entry hentry
        have : entry.1 ≠ e.1 := fun heq => h.1 (heq ▸ mem_map_of_mem hentry)
        simpa using this
      rw [filter_cons_of_neg (by simp), hrest, length_cons]
    · rw [filter_cons_of_pos (by simpa using he), length_cons, length_cons,
        ih h.2 (hkey.resolve_left fun heq => he heq.symm)]

private theorem length_pruneLoop {limit : Nat}
    (hrest : ∀ entry ∈ rest, s.generations.get entry.1 = some entry.2) (hnodup : (rest.map Prod.fst).Nodup)
    (hgen : s.generations.keys.Nodup) (hlen : s.generations.length ≤ limit + evictable s.blocks rest) :
    (pruneLoop limit rest s).generations.length ≤ limit := by
  induction rest generalizing s with
  | nil => exact hlen
  | cons entry rest ih =>
    obtain ⟨key, generation⟩ := entry
    rw [map_cons, nodup_cons] at hnodup
    unfold evictable at hlen ih
    rw [countP_cons] at hlen
    unfold pruneLoop
    split
    · assumption
    split
    · rename_i hblock
      refine ih (fun entry he => hrest entry (mem_cons_of_mem _ he)) hnodup.2 hgen ?_
      simpa [hblock] using hlen
    rename_i hblock
    have hget := hrest _ (mem_cons_self ..)
    have hdelete := length_delete hgen (mem_map_of_mem (f := Prod.fst) (OMap.mem_of_get hget))
    refine ih (get_delete_of_rest hrest hnodup.1) hnodup.2 (OMap.nodup_keys_delete hgen key) ?_
    change (s.generations.delete key).length ≤ _
    simp only [hblock] at hlen
    change _ ≤ limit + List.countP (fun entry => !s.blocks.has entry.1) rest
    simp at hlen hdelete
    omega

theorem fits_pruneGenerations (hgen : s.generations.keys.Nodup) : s.pruneGenerations.Fits := by
  have hevicts := evicts_pruneGenerations hgen
  unfold Fits
  rw [hevicts.blocks]
  unfold pruneGenerations
  simp only
  split
  · assumption
  refine length_pruneLoop (fun entry he => OMap.get_of_mem hgen he) hgen hgen ?_
  have hsplit := length_eq_countP_add_countP (fun entry : JsString × Nat => s.blocks.has entry.1) (l := s.generations)
  have hblocks : s.generations.countP (fun entry => s.blocks.has entry.1) ≤ s.blocks.length := by
    have hkeys : s.blocks.keys.length = s.blocks.length := length_map _
    rw [countP_eq_length_filter, ← length_map (f := Prod.fst), ← hkeys]
    refine (subperm_of_subset (hgen.sublist (filter_sublist.map _)) ?_).length_le
    intro key hkey
    rw [mem_map] at hkey
    obtain ⟨entry, hentry, rfl⟩ := hkey
    rw [mem_filter] at hentry
    exact OMap.has_eq_true_iff.mp hentry.2
  unfold evictable
  simp only [Bool.not_eq_true] at hsplit
  have hcount : s.generations.countP (fun entry => !s.blocks.has entry.1) =
      s.generations.countP (fun entry => decide (s.blocks.has entry.1 = false)) := by
    congr 1
    funext entry
    cases s.blocks.has entry.1 <;> rfl
  omega

variable (h : ValidFor exempt s)
include h

theorem evicts_remove (key : JsString) :
    Evicts { s.advanceGeneration key with blocks := s.blocks.delete key } (s.remove key) :=
  evicts_pruneGenerations (OMap.nodup_keys_set (OMap.nodup_keys_delete h.generationsNodup key) _ _)

theorem blocks_remove (key : JsString) : (s.remove key).blocks = s.blocks.delete key :=
  (evicts_remove h key).blocks

theorem ValidFor.remove (key : JsString) : ValidFor exempt (s.remove key) := by
  refine ValidFor.evicts ?_ (evicts_remove h key)
  have hget : ∀ {key' block}, OMap.get (s.blocks.delete key) key' = some block →
      key ≠ key' ∧ s.blocks.get key' = some block := by
    intro key' block hb
    rw [OMap.get_delete] at hb
    split at hb
    · cases hb
    · exact ⟨by assumption, hb⟩
  refine h.advanceGeneration (OMap.nodup_keys_delete h.blocksNodup key) ?_ ?_
  · intro key' block hb
    exact h.keyed key' block (hget hb).2
  · intro key' block hb
    obtain ⟨hne, hb⟩ := hget hb
    rw [if_neg hne]
    exact h.held key' block hb

theorem fits_remove (key : JsString) : (s.remove key).Fits :=
  fits_pruneGenerations (OMap.nodup_keys_set (OMap.nodup_keys_delete h.generationsNodup key) _ _)

theorem evolves_advanceGeneration {blocks : OMap JsString Block}
    (hblocks : ∀ key', key ≠ key' → blocks.get key' = s.blocks.get key')
    (hkey : ∀ block, blocks.get key = some block →
      (∃ before, s.blocks.get key = some before ∧ block.Continues before) ∨ s.sequence < block.generation) :
    Evolves s { s.advanceGeneration key with blocks := blocks } where
  sequence := Nat.le_succ _
  current key' := by
    change s.current key' ≤ (s.advanceGeneration key).current key'
    rw [current_advanceGeneration]
    split
    · exact (h.current_le key').trans (Nat.le_succ _)
    · exact Nat.le_refl _
  gone key' block hb hnone := by
    change s.sequence < (s.advanceGeneration key).current key'
    rw [current_advanceGeneration]
    split
    · exact Nat.lt_succ_self _
    rename_i hne
    change blocks.get key' = none at hnone
    rw [hblocks key' hne, hb] at hnone
    cases hnone
  kept key' block hb := by
    change blocks.get key' = some block at hb
    by_cases hne : key = key'
    · subst hne
      exact hkey block hb
    · rw [hblocks key' hne] at hb
      exact Or.inl ⟨block, hb, block.continues_refl⟩

theorem evolves_remove (key : JsString) : Evolves s (s.remove key) := by
  refine Evolves.trans ?_ (evicts_remove h key).evolves
  refine evolves_advanceGeneration h ?_ ?_
  · intro key' hne
    rw [OMap.get_delete, if_neg hne]
  · intro block hb
    rw [OMap.get_delete, if_pos rfl] at hb
    cases hb

omit h

def removeAll (test : RouteStateStore → JsString × Block → Bool) (entries : List (JsString × Block))
    (s : RouteStateStore) : RouteStateStore :=
  entries.foldl (fun s entry => if test s entry then s.remove entry.1 else s) s

section

variable {test : RouteStateStore → JsString × Block → Bool} {entries : List (JsString × Block)}

theorem ValidFor.removeAll (h : ValidFor exempt s) : ValidFor exempt (s.removeAll test entries) := by
  unfold RouteStateStore.removeAll
  induction entries generalizing s with
  | nil => exact h
  | cons entry entries ih =>
    rw [foldl_cons]
    split
    · exact ih (h.remove entry.1)
    · exact ih h

theorem fits_removeAll (h : ValidFor exempt s) (hfits : s.Fits) : (s.removeAll test entries).Fits := by
  unfold removeAll
  induction entries generalizing s with
  | nil => exact hfits
  | cons entry entries ih =>
    rw [foldl_cons]
    split
    · exact ih (h.remove entry.1) (fits_remove h entry.1)
    · exact ih h hfits

theorem evolves_removeAll (h : ValidFor exempt s) : Evolves s (s.removeAll test entries) := by
  unfold removeAll
  induction entries generalizing s with
  | nil => exact Evolves.refl s
  | cons entry entries ih =>
    rw [foldl_cons]
    split
    · exact (evolves_remove h entry.1).trans (ih (h.remove entry.1))
    · exact ih h

end

/-! ### Expiry -/

theorem blocks_expireIfDue (h : ValidFor exempt s) (now : Instant) (hb : s.blocks.get key = some block)
    (key' : JsString) :
    (s.expireIfDue now key block).blocks.get key' = if key = key' then block.expired now else s.blocks.get key' := by
  unfold expireIfDue Block.expired
  by_cases hdue : block.phase ≠ .opened ∨ now < block.until_
  · rw [if_pos hdue, if_pos hdue]
    split
    · rename_i hk
      rw [← hk, hb]
    · rfl
  · rw [if_neg hdue, if_neg hdue]
    by_cases hr : block.resets = true
    · rw [if_pos hr, if_pos hr, blocks_remove h, OMap.get_delete]
    · rw [if_neg hr, if_neg hr]
      simp only [OMap.get_set]

theorem Valid.expireIfDue (h : Valid s) (now : Instant) (hb : s.blocks.get key = some block) :
    Valid (s.expireIfDue now key block) := by
  unfold RouteStateStore.expireIfDue
  split
  · exact h
  split
  · exact ⟨h.toValidFor.remove key, fits_remove h.toValidFor key⟩
  have hget : ∀ {key' block'}, OMap.get (s.blocks.set key { block with phase := .closed }) key' = some block' →
      (key = key' ∧ block' = { block with phase := .closed }) ∨ s.blocks.get key' = some block' := by
    intro key' block' hb'
    rw [OMap.get_set] at hb'
    split at hb'
    · cases hb'
      exact Or.inl ⟨by assumption, rfl⟩
    · exact Or.inr hb'
  refine { blocksNodup := OMap.nodup_keys_set h.blocksNodup _ _, generationsNodup := h.generationsNodup, keyed := ?_,
           held := ?_, bounded := h.bounded, floor := h.floor, fits := ?_ }
  · intro key' block' hb'
    rcases hget hb' with ⟨rfl, rfl⟩ | hb'
    · exact h.keyed key block hb
    · exact h.keyed key' block' hb'
  · intro key' block' hb'
    rcases hget hb' with ⟨rfl, rfl⟩ | hb'
    · exact h.held key block hb
    · exact h.held key' block' hb'
  · have hlen : (s.blocks.set key { block with phase := .closed }).length = s.blocks.length := by
      have hkeys := OMap.keys_set_of_mem (mem_map_of_mem (f := Prod.fst) (OMap.mem_of_get hb))
        { block with phase := CircuitPhase.closed }
      simpa [OMap.keys] using congrArg List.length hkeys
    unfold Fits
    rw [hlen]
    exact h.fits

theorem evolves_expireIfDue (h : ValidFor exempt s) {now : Instant} (hb : s.blocks.get key = some block) :
    Evolves s (s.expireIfDue now key block) := by
  unfold expireIfDue
  split
  · exact Evolves.refl s
  split
  · exact evolves_remove h key
  refine ⟨Nat.le_refl _, fun _ => Nat.le_refl _, ?_, ?_⟩
  · intro key' block' hb' hnone
    change OMap.get (s.blocks.set key _) key' = none at hnone
    rw [OMap.get_set] at hnone
    split at hnone
    · cases hnone
    · rw [hb'] at hnone
      cases hnone
  · intro key' block' hb'
    change OMap.get (s.blocks.set key _) key' = some block' at hb'
    rw [OMap.get_set] at hb'
    split at hb'
    · rename_i hk
      cases hb'
      exact Or.inl ⟨block, hk ▸ hb, rfl⟩
    · exact Or.inl ⟨block', hb', block'.continues_refl⟩

def lapse (now : Instant) (provider : JsString) (block : Block) : Option Block :=
  if block.provider = provider then block.expired now else some block

section

variable {now : Instant} {provider model : JsString} {pools : List JsString} {withExpired : Bool}

private theorem applyingLoop_cons (key : JsString) (block : Block) (rest : List (JsString × Block)) :
    applyingLoop now provider model pools withExpired ((key, block) :: rest) s =
      if block.provider ≠ provider then applyingLoop now provider model pools withExpired rest s
      else
        let after := applyingLoop now provider model pools withExpired rest (s.expireIfDue now key block)
        match (s.expireIfDue now key block).blocks.get key with
        | none => after
        | some block =>
          if (withExpired || block.phase == .opened) && block.reads provider model pools then
            ((key, block) :: after.1, after.2)
          else after := by
  by_cases hother : block.provider ≠ provider
  · rewrite [applyingLoop.eq_def]
    exact (if_pos hother).trans (if_pos hother).symm
  · rewrite [if_neg hother, applyingLoop.eq_def]
    refine (if_neg hother).trans ?_
    cases hget : (s.expireIfDue now key block).blocks.get key <;> simp only [hget]

/-- The loop of `applying` over entries that are still in the store. -/
structure Applied (now : Instant) (provider model : JsString) (pools : List JsString) (withExpired : Bool)
    (rest : List (JsString × Block)) (s : RouteStateStore)
    (r : List (JsString × Block) × RouteStateStore) : Prop where
  valid : Valid r.2
  evolves : Evolves s r.2
  visited : ∀ key block, (key, block) ∈ rest → r.2.blocks.get key = lapse now provider block
  others : ∀ key, key ∉ rest.map Prod.fst → r.2.blocks.get key = s.blocks.get key
  result : ∀ key block, (key, block) ∈ r.1 ↔ key ∈ rest.map Prod.fst ∧ r.2.blocks.get key = some block ∧
    (withExpired = true ∨ block.phase = .opened) ∧ block.reads provider model pools = true
  sublist : (r.1.map Prod.fst).Sublist (rest.map Prod.fst)

theorem applied_loop {rest : List (JsString × Block)} (h : Valid s)
    (hrest : ∀ entry ∈ rest, s.blocks.get entry.1 = some entry.2) (hnodup : (rest.map Prod.fst).Nodup) :
    Applied now provider model pools withExpired rest s
    (applyingLoop now provider model pools withExpired rest s) := by
  induction rest generalizing s with
  | nil => exact ⟨h, Evolves.refl s, (by rintro _ _ ⟨⟩), fun _ _ => rfl, by simp [applyingLoop], List.Sublist.refl _⟩
  | cons entry rest ih =>
    obtain ⟨key, block⟩ := entry
    rw [map_cons, nodup_cons] at hnodup
    have hb := hrest _ (mem_cons_self ..)
    rw [applyingLoop_cons]
    split
    · rename_i hp
      have hloop := ih h (fun entry he => hrest entry (mem_cons_of_mem _ he)) hnodup.2
      have hkey : (applyingLoop now provider model pools withExpired rest s).2.blocks.get key = some block := by
        rw [hloop.others key hnodup.1, hb]
      refine ⟨hloop.valid, hloop.evolves, ?_, ?_, ?_, hloop.sublist.cons key⟩
      · intro key' block' hmem
        rcases mem_cons.mp hmem with heq | hmem
        · cases heq
          rw [hkey, lapse, if_neg hp]
        · exact hloop.visited key' block' hmem
      · intro key' hkey'
        rw [map_cons, mem_cons, not_or] at hkey'
        exact hloop.others key' hkey'.2
      · intro key' block'
        rw [hloop.result, map_cons, mem_cons]
        constructor
        · rintro ⟨h1, h2⟩
          exact ⟨Or.inr h1, h2⟩
        · rintro ⟨h1 | h1, h2, h3, h4⟩
          · -- an entry of another provider is not read
            subst h1
            rw [hkey] at h2
            cases h2
            simp only [Block.reads, Bool.and_eq_true, beq_iff_eq] at h4
            exact absurd h4.1 hp
          · exact ⟨h1, h2, h3, h4⟩
    · rename_i hp
      simp only [ne_eq, not_not] at hp
      have hget := blocks_expireIfDue h.toValidFor now hb
      have hloop := ih (h.expireIfDue now hb) (fun entry he => by
        rw [hget, if_neg, hrest entry (mem_cons_of_mem _ he)]
        intro hk
        have hmem := mem_map_of_mem (f := Prod.fst) he
        rw [← hk] at hmem
        exact hnodup.1 hmem) hnodup.2
      have hkey := hloop.others key hnodup.1
      rw [hget, if_pos rfl] at hkey
      rw [hget, if_pos rfl]
      generalize hafter : applyingLoop now provider model pools withExpired rest (s.expireIfDue now key block) = after
        at hloop hkey
      -- only the result depends on whether the entry is read
      have happlied : ∀ result : List (JsString × Block),
          (∀ key' block', (key', block') ∈ result ↔
            (key', block') ∈ after.1 ∨ key' = key ∧ block.expired now = some block' ∧
            (withExpired = true ∨ block'.phase = .opened) ∧ block'.reads provider model pools = true) →
          (result.map Prod.fst).Sublist (key :: rest.map Prod.fst) →
          Applied now provider model pools withExpired ((key, block) :: rest) s (result, after.2) := by
        intro result hresult hsub
        refine ⟨hloop.valid, (evolves_expireIfDue h.toValidFor hb).trans hloop.evolves, ?_, ?_, ?_, hsub⟩
        · intro key' block' hmem
          rcases mem_cons.mp hmem with heq | hmem
          · cases heq
            rw [hkey, lapse, if_pos hp]
          · exact hloop.visited key' block' hmem
        · intro key' hkey'
          rw [map_cons, mem_cons, not_or] at hkey'
          rw [hloop.others key' hkey'.2, hget, if_neg fun hk => hkey'.1 hk.symm]
        · intro key' block'
          rw [hresult, hloop.result, map_cons, mem_cons]
          constructor
          · rintro (⟨h1, h2⟩ | ⟨rfl, h2, h3⟩)
            · exact ⟨Or.inr h1, h2⟩
            · exact ⟨Or.inl rfl, hkey.trans h2, h3⟩
          · rintro ⟨h1 | h1, h2, h3⟩
            · subst h1
              exact Or.inr ⟨rfl, hkey.symm.trans h2, h3⟩
            · exact Or.inl ⟨h1, h2, h3⟩
      split
      · rename_i hnone
        refine happlied after.1 (fun key' block' => ?_) (hloop.sublist.cons key)
        rw [hnone]
        simp
      rename_i block' hsome
      split
      · rename_i hread
        simp only [Bool.and_eq_true, Bool.or_eq_true, beq_iff_eq] at hread
        refine happlied ((key, block') :: after.1) (fun key'' block'' => ?_) (hloop.sublist.cons_cons key)
        rw [hsome, mem_cons, Prod.mk.injEq, Option.some.injEq]
        constructor
        · rintro (⟨rfl, rfl⟩ | h)
          · exact Or.inr ⟨rfl, rfl, hread⟩
          · exact Or.inl h
        · rintro (h | ⟨rfl, rfl, -⟩)
          · exact Or.inr h
          · exact Or.inl ⟨rfl, rfl⟩
      · rename_i hread
        simp only [Bool.and_eq_true, Bool.or_eq_true, beq_iff_eq] at hread
        refine happlied after.1 (fun key'' block'' => ?_) (hloop.sublist.cons key)
        rw [hsome]
        constructor
        · exact Or.inl
        · rintro (h | ⟨-, heq, hread'⟩)
          · exact h
          · cases heq
            exact absurd hread' hread

end

end RouteStateStore

end Wrenyard.Gateway
