import Mathlib.Data.List.Nodup
import Mathlib.Data.List.Perm.Subperm

/-!
# Depth-first search on finite directed graphs

A directed graph is given by the successors of each vertex.  `cyclesFrom` follows every path from a vertex and reports
those that come back to themselves; where it reports none for any vertex of a finite set of keys, no nonempty part of
the keys has a successor of its own for each of its elements (`exists_no_succ`).  `visit` is the post-order of a
depth-first search; it lists every key it is started from (`mem_visitAll`).

Both searches are given fuel: a path without repetition is no longer than the list of keys.
-/

namespace Digraph

open List

variable {α : Type} [DecidableEq α]

/-- The paths from a vertex that come back to a vertex of the path, each from that vertex on. -/
def cyclesFrom (succ : α → List α) : Nat → List α → α → List (List α)
  | 0, _, _ => []
  | fuel + 1, path, a =>
    if a ∈ path then [path.dropWhile (· ≠ a)] else (succ a).flatMap (cyclesFrom succ fuel (path ++ [a]))

theorem cyclesFrom_ne_nil {succ : α → List α} {keys : List α} {P : α → Prop} (hkeys : ∀ a, P a → a ∈ keys)
    (hsucc : ∀ a, P a → ∃ b ∈ succ a, P b) (fuel : Nat) (path : List α) (a : α) (ha : P a) (hnodup : path.Nodup)
    (hsub : path ⊆ keys) (hfuel : keys.length < fuel + path.length) : cyclesFrom succ fuel path a ≠ [] := by
  induction fuel generalizing path a with
  | zero =>
    have := (subperm_of_subset hnodup hsub).length_le
    omega
  | succ fuel ih =>
    unfold cyclesFrom
    split
    · exact cons_ne_nil _ _
    rename_i hnot
    obtain ⟨b, hb, hPb⟩ := hsucc a ha
    have hnodup' : (path ++ [a]).Nodup := by
      rw [nodup_append]
      refine ⟨hnodup, nodup_singleton a, ?_⟩
      rintro c hc _ hd rfl
      exact hnot (mem_singleton.mp hd ▸ hc)
    have hsub' : path ++ [a] ⊆ keys := by
      intro c hc
      rcases mem_append.mp hc with hc | hc
      · exact hsub hc
      · exact mem_singleton.mp hc ▸ hkeys a ha
    have hne := ih (path ++ [a]) b hPb hnodup' hsub' (by rw [length_append, length_singleton]; omega)
    intro hnil
    exact hne (flatMap_eq_nil_iff.mp hnil b hb)

theorem exists_no_succ {succ : α → List α} {keys : List α}
    (hcycles : ∀ a ∈ keys, cyclesFrom succ (keys.length + 1) [] a = []) {P : α → Prop} (hkeys : ∀ a, P a → a ∈ keys)
    {a : α} (ha : P a) : ∃ b, P b ∧ ∀ c ∈ succ b, ¬ P c := by
  by_contra hnone
  have hsucc : ∀ a, P a → ∃ b ∈ succ a, P b := by
    intro b hb
    by_contra hb'
    exact hnone ⟨b, hb, fun c hc hPc => hb' ⟨c, hc, hPc⟩⟩
  exact cyclesFrom_ne_nil hkeys hsucc (keys.length + 1) [] a ha nodup_nil (by simp) (by simp)
    (hcycles a (hkeys a ha))

/-- A reported path lies on a cycle. -/
theorem of_mem_cyclesFrom {R : α → α → Prop} {succ : α → List α} (hR : ∀ a, ∀ b ∈ succ a, R a b) {cycle : List α}
    {fuel : Nat} {path : List α} {a : α} (h : cycle ∈ cyclesFrom succ fuel path a)
    (hpath : path.Pairwise (Relation.TransGen R)) (ha : ∀ b ∈ path, Relation.TransGen R b a) :
    cycle ≠ [] ∧ ∀ b ∈ cycle, Relation.TransGen R b b := by
  induction fuel generalizing path a with
  | zero => cases h
  | succ fuel ih =>
    unfold cyclesFrom at h
    split at h
    · next hmem =>
      obtain ⟨before, after, rfl, hnot⟩ := eq_append_cons_of_mem hmem
      rw [dropWhile_append_of_pos fun b hb => by simpa using fun heq : b = a => hnot (heq ▸ hb),
        dropWhile_cons_of_neg (by simp), mem_singleton] at h
      subst h
      refine ⟨cons_ne_nil _ _, fun b hb => ?_⟩
      have hback := ha b (mem_append_right _ hb)
      rcases mem_cons.mp hb with rfl | hb
      · exact hback
      · exact hback.trans ((pairwise_cons.mp (pairwise_append.mp hpath).2.1).1 b hb)
    · obtain ⟨b, hb, hcycle⟩ := mem_flatMap.mp h
      refine ih hcycle (pairwise_append.mpr ⟨hpath, pairwise_singleton .., by simpa using ha⟩) fun c hc => ?_
      rcases mem_append.mp hc with hc | hc
      · exact (ha c hc).tail (hR a b hb)
      · rw [mem_singleton.mp hc]
        exact .single (hR a b hb)

omit [DecidableEq α] in
theorem length_filter_lt {l : List α} {p q : α → Bool} (h : ∀ a ∈ l, p a = true → q a = true) {a : α} (ha : a ∈ l)
    (hq : q a = true) (hp : p a = false) : (l.filter p).length < (l.filter q).length := by
  have heq : l.filter p = (l.filter q).filter p := by
    rw [filter_filter]
    refine filter_congr fun b hb => ?_
    cases hpb : p b with
    | false => rfl
    | true => rw [h b hb hpb]; rfl
  rw [heq]
  exact length_filter_lt_length_iff_exists.mpr ⟨a, mem_filter.mpr ⟨ha, hq⟩, by simp [hp]⟩

/-- A depth-first visit: the vertices seen, and the order in which keys were left. -/
def visit (succ : α → List α) (isKey : α → Bool) : Nat → List α × List α → α → List α × List α
  | 0, st, _ => st
  | fuel + 1, st, a =>
    if a ∈ st.1 then st
    else if isKey a then
      let st' := (succ a).foldl (visit succ isKey fuel) (st.1 ++ [a], st.2)
      (st'.1, st'.2 ++ [a])
    else (st.1 ++ [a], st.2)

def visitAll (succ : α → List α) (isKey : α → Bool) (fuel : Nat) (starts : List α) : List α :=
  (starts.foldl (visit succ isKey fuel) ([], [])).2

variable {succ : α → List α} {isKey : α → Bool}

private structure Extends (isKey : α → Bool) (st st' : List α × List α) : Prop where
  seen : st.1 ⊆ st'.1
  left : st.2 ⊆ st'.2
  done : ∀ k ∈ st'.1, isKey k = true → k ∈ st.1 ∨ k ∈ st'.2

omit [DecidableEq α] in
private theorem Extends.refl (st : List α × List α) : Extends isKey st st :=
  ⟨fun _ h => h, fun _ h => h, fun _ h _ => Or.inl h⟩

omit [DecidableEq α] in
private theorem Extends.trans {st st' st'' : List α × List α} (h : Extends isKey st st')
    (h' : Extends isKey st' st'') : Extends isKey st st'' := by
  refine ⟨fun _ hk => h'.seen (h.seen hk), fun _ hk => h'.left (h.left hk), fun k hk hkey => ?_⟩
  rcases h'.done k hk hkey with hk | hk
  · exact (h.done k hk hkey).imp_right fun hk => h'.left hk
  · exact Or.inr hk

/-- The keys not seen yet bound the depth of a visit. -/
private def unseen (keys : List α) (st : List α × List α) : Nat := (keys.filter (· ∉ st.1)).length

private theorem unseen_mono {keys : List α} {st st' : List α × List α} (h : st.1 ⊆ st'.1) :
    unseen keys st' ≤ unseen keys st := by
  refine List.Sublist.length_le (monotone_filter_right keys fun k hk => ?_)
  simp only [decide_eq_true_eq] at hk ⊢
  exact fun hk' => hk (h hk')

private theorem unseen_lt {keys : List α} {st st' : List α × List α} (h : st.1 ⊆ st'.1) {a : α} (ha : a ∈ keys)
    (hnot : a ∉ st.1) (hnow : a ∈ st'.1) : unseen keys st' < unseen keys st := by
  refine length_filter_lt (fun k _ hk => ?_) ha (decide_eq_true hnot) (by simp [hnow])
  simp only [decide_eq_true_eq] at hk ⊢
  exact fun hk' => hk (h hk')

private theorem visit_spec {keys : List α} (hkeys : ∀ a, isKey a = true → a ∈ keys) (fuel : Nat)
    (st : List α × List α) (a : α) (hfuel : unseen keys st < fuel) :
    Extends isKey st (visit succ isKey fuel st a) ∧ a ∈ (visit succ isKey fuel st a).1 := by
  induction fuel generalizing st a with
  | zero => omega
  | succ fuel ih =>
    unfold visit
    split
    · rename_i hseen
      exact ⟨.refl st, hseen⟩
    rename_i hseen
    split
    · rename_i hkey
      have hstart : unseen keys (st.1 ++ [a], st.2) < fuel := by
        have hsub : st.1 ⊆ (st.1 ++ [a], st.2).1 := subset_append_left ..
        have := unseen_lt hsub (hkeys a hkey) hseen (mem_append_right _ (mem_singleton_self a))
        omega
      have hfold : ∀ (bs : List α) (st' : List α × List α), unseen keys st' < fuel →
          Extends isKey st' (bs.foldl (visit succ isKey fuel) st') := by
        intro bs
        induction bs with
        | nil => exact fun st' _ => .refl st'
        | cons b bs ihbs =>
          intro st' hst'
          have hvisit := (ih st' b hst').1
          exact hvisit.trans (ihbs _ (Nat.lt_of_le_of_lt (unseen_mono hvisit.seen) hst'))
      have hext := hfold (succ a) _ hstart
      refine ⟨⟨fun k hk => hext.seen (mem_append_left _ hk), fun k hk => mem_append_left _ (hext.left hk),
        fun k hk hkeyk => ?_⟩, hext.seen (mem_append_right _ (mem_singleton_self a))⟩
      rcases hext.done k hk hkeyk with hk | hk
      · rcases mem_append.mp hk with hk | hk
        · exact Or.inl hk
        · exact Or.inr (mem_append_right _ hk)
      · exact Or.inr (mem_append_left _ hk)
    · rename_i hkey
      refine ⟨⟨subset_append_left .., fun _ hk => hk, fun k hk hkeyk => ?_⟩,
        mem_append_right _ (mem_singleton_self a)⟩
      rcases mem_append.mp hk with hk | hk
      · exact Or.inl hk
      · exact absurd (mem_singleton.mp hk ▸ hkeyk) hkey

theorem mem_visitAll {keys : List α} (hkeys : ∀ a, isKey a = true → a ∈ keys) {starts : List α} {a : α}
    (ha : a ∈ starts) (hkey : isKey a = true) : a ∈ visitAll succ isKey (keys.length + 1) starts := by
  have hfuel : ∀ st : List α × List α, unseen keys st < keys.length + 1 :=
    fun st => Nat.lt_succ_of_le (length_filter_le _ _)
  have hfold : ∀ (bs : List α) (st : List α × List α),
      Extends isKey st (bs.foldl (visit succ isKey (keys.length + 1)) st) ∧
        ∀ b ∈ bs, b ∈ (bs.foldl (visit succ isKey (keys.length + 1)) st).1 := by
    intro bs
    induction bs with
    | nil => exact fun st => ⟨.refl st, by simp⟩
    | cons b bs ih =>
      intro st
      obtain ⟨hvisit, hb⟩ := @visit_spec _ _ succ _ _ hkeys (keys.length + 1) st b (hfuel st)
      obtain ⟨hrest, hbs⟩ := ih (visit succ isKey (keys.length + 1) st b)
      refine ⟨hvisit.trans hrest, fun c hc => ?_⟩
      rcases mem_cons.mp hc with rfl | hc
      · exact hrest.seen hb
      · exact hbs c hc
  obtain ⟨hext, hseen⟩ := hfold starts ([], [])
  rcases hext.done a (hseen a ha) hkey with h | h
  · cases h
  · exact h

end Digraph
