import Wrenyard.Gateway.RouteMachine

/-!
# The generation fence

A completion is fenced by the generations that its request captured: a scope that was faulted, cleared or reset since
then reads a generation that was drawn after the capture, also when its history was evicted.  So a late fault is not
recorded, of the requests that were in flight when a fault was recorded no other one raises the failure count, and a
late success drops only blocks that it has seen.
-/

namespace Wrenyard.Gateway

open Js Transition Option

variable {c : RouteConfig} {w w' w₀ w₁ w₂ w₃ w₄ w₅ : RouteWorld} {e e' : RouteLabel}
  {tr tr' tr₁ tr₂ : List RouteLabel}
  {key : JsString}

inductive Touches (c : RouteConfig) (w : RouteWorld) (a : RouteAction) (w' : RouteWorld) (key : JsString) : Prop where
  | faulted : a.faultKey c = some key → w'.store ≠ w.store → Touches c w a w' key
  | cleared : w.store.blocks.has key = true → w'.store.blocks.has key = false → Touches c w a w' key
  | reset {provider : JsString} : a = .clearProvider provider → key = providerKey provider → Touches c w a w' key

def Admits (c : RouteConfig) (w : RouteWorld) (request : Nat) (w' : RouteWorld) : Prop :=
  ∃ e, RouteStep c w e w' ∧ request = w.guards.length ∧ w'.guards.length = request + 1

private theorem get_foldl_set (f : JsString → Nat) (keys : List JsString) (m : OMap JsString Nat) (key : JsString) :
    OMap.get (keys.foldl (fun m key => m.set key (f key)) m) key = if key ∈ keys then some (f key)
    else m.get key := by
  induction keys generalizing m with
  | nil => simp
  | cons k keys ih =>
    rw [List.foldl_cons, ih, OMap.get_set]
    by_cases hk : k = key
    · subst hk
      simp
    · have hk' : key ≠ k := fun h => hk h.symm
      by_cases hmem : key ∈ keys <;> simp [hmem, hk, hk']

theorem get_capture (s : RouteStateStore) (provider model key : JsString) :
    (s.capture c provider model).generations.get key =
      if key ∈ applicableKeys c provider model then some ((s.generations.get key).getD s.sequence) else none := by
  unfold RouteStateStore.capture
  rw [get_foldl_set]
  rfl

theorem get_capture_le {s : RouteStateStore} (h : s.Valid) {provider model key : JsString} {n : Nat}
    (hn : (s.capture c provider model).generations.get key = some n) : n ≤ s.sequence := by
  rw [get_capture] at hn
  split at hn <;> cases hn
  cases hget : s.generations.get key with
  | none => exact Nat.le_refl _
  | some m => exact h.toValidFor.get_le hget

def RouteWorld.Drawn (w : RouteWorld) : Prop :=
  ∀ guard ∈ w.guards, ∀ key n, guard.generations.get key = some n → n ≤ w.store.sequence

theorem drawn_step (h : RouteStep c w e w') (hw : w.store.Valid) (hd : w.Drawn) : w'.Drawn := by
  have hold : ∀ guard ∈ w.guards, ∀ key n, guard.generations.get key = some n → n ≤ w'.store.sequence :=
    fun guard hg key n hn => (hd guard hg key n hn).trans (evolves_step h hw).sequence
  rcases (routeStepped h).guards with hguards | ⟨provider, model, hguards⟩ <;> intro guard hg
  · rw [hguards] at hg
    exact hold guard hg
  rw [hguards, List.mem_append, List.mem_singleton] at hg
  rcases hg with hg | rfl
  · exact hold guard hg
  · intro key n hn
    exact get_capture_le (valid_step h hw) hn

/-- A run leaves no guard ahead of the sequence. -/
theorem drawn_run (h : Run (RouteStep c) w tr w') (hw : w.store.Valid) (hd : w.Drawn) : w'.Drawn :=
  (h.invariant (fun w => w.store.Valid ∧ w.Drawn)
    (fun _ _ _ hw hstep => ⟨valid_step hstep hw.1, drawn_step hstep hw.1 hw.2⟩) ⟨hw, hd⟩).2

theorem drawn_reached (h : RouteReached c w) : w.Drawn := by
  obtain ⟨start, tr, hrun⟩ := h
  exact drawn_run hrun RouteStateStore.valid_empty (by rintro _ ⟨⟩)

theorem guard_run {request : Nat} (h : Run (RouteStep c) w tr w') (hlt : request < w.guards.length) :
    w'.guards[request]? = w.guards[request]? := by
  obtain ⟨rest, hrest⟩ := guards_prefix_run h
  rw [← hrest, List.getElem?_append_left hlt]

theorem guardOf_le (hd : w.Drawn) (h : Run (RouteStep c) w tr w') {request : Nat} (hlt : request < w.guards.length)
    {guard : Option RouteGuard} (hguard : w'.guardOf (some request) = some guard) :
    ∃ g, guard = some g ∧ ∀ key n, g.generations.get key = some n → n ≤ w.store.sequence := by
  change w'.guards[request]?.map some = some guard at hguard
  rw [guard_run h hlt, List.getElem?_eq_getElem hlt, map_some, Option.some.injEq] at hguard
  exact ⟨_, hguard.symm, hd _ (List.getElem_mem hlt)⟩

theorem lt_current_of_touches (hw : w.store.Valid) (h : RouteStep c w e w') (ht : Touches c w e.1 w' key) :
    w.store.sequence < w'.store.current key := by
  have hevolves := evolves_step h hw
  cases ht with
  | faulted hkey hne =>
    obtain ⟨random, provider, model, failure, code, credential, guard, rfl, -, hstale, hstore⟩ :=
        store_of_fault h hkey hne
    rw [hstore]
    exact RouteStateStore.lt_current_mark _ _ _ _ hw hstale
  | cleared hhas hnot =>
    rw [OMap.has, isSome_iff_exists] at hhas
    obtain ⟨block, hb⟩ := hhas
    rw [OMap.has, isSome_eq_false_iff, isNone_iff_eq_none] at hnot
    exact hevolves.gone key block hb hnot
  | reset ha hkey =>
    obtain ⟨guard, -, hstore⟩ := (routeStepped h).store
    rw [ha] at hstore
    change w'.store = w.store.clearProvider _ at hstore
    rw [hstore, hkey]
    exact RouteStateStore.lt_current_clearProvider hw

theorem lt_current_of_touched (hw : w₁.store.Valid) (hrun : Run (RouteStep c) w₁ tr₁ w₂) (hstep : RouteStep c w₂ e w₃)
    (hrun' : Run (RouteStep c) w₃ tr₂ w₄) (ht : Touches c w₂ e.1 w₃ key) :
    w₁.store.sequence < w₄.store.current key := by
  have hw₂ := valid_run hrun hw
  calc w₁.store.sequence ≤ w₂.store.sequence := (evolves_run hrun hw).sequence
    _ < w₃.store.current key := lt_current_of_touches hw₂ hstep ht
    _ ≤ w₄.store.current key := (evolves_run hrun' (valid_step hstep hw₂)).current key

variable {random : Draw} {provider model : JsString} {failure : MarkableFailure} {code : Nat} {credential : JsString}
  {request : Nat} {o : RouteOutcome}

/-- A fault is fenced off once its scope, or its provider, was touched after its request was admitted. -/
private theorem store_eq_of_touched (hw : w₁.store.Valid) (hd : w₁.Drawn) (hlt : request < w₁.guards.length)
    (hrun : Run (RouteStep c) w₁ tr₁ w₂) (hstep : RouteStep c w₂ e w₃) (hrun' : Run (RouteStep c) w₃ tr₂ w₄)
    (hmark : RouteStep c w₄ (.mark random provider model failure code credential (some request), o) w₅)
    (ht : Touches c w₂ e.1 w₃ (scopeFor c provider model failure).key ∨ Touches c w₂ e.1 w₃ (providerKey provider)) :
    w₅.store = w₄.store := by
  obtain ⟨guard, hguard, hstore⟩ := (routeStepped hmark).store
  obtain ⟨g, rfl, hg⟩ := guardOf_le hd (hrun.append (Run.cons hstep hrun')) hlt hguard
  have hle : ∀ key, (g.generations.get key).getD 0 ≤ w₁.store.sequence := by
    intro key
    cases hget : g.generations.get key with
    | none => exact Nat.zero_le _
    | some n => exact hg key n hget
  rw [hstore]
  refine RouteStateStore.mark_stale ?_
  rw [any_some, RouteStateStore.stale, Bool.or_eq_true, decide_eq_true_eq, decide_eq_true_eq]
  rcases ht with ht | ht
  · exact Or.inl ((hle _).trans_lt (lt_current_of_touched hw hrun hstep hrun' ht))
  · exact Or.inr ((hle _).trans_lt (lt_current_of_touched hw hrun hstep hrun' ht))

def RouteStateStore.failures (s : RouteStateStore) (key : JsString) : Nat :=
  ((s.blocks.get key).map Block.failures).getD 0

def raises (key : JsString) (requests : Nat) (w : RouteWorld) (a : RouteAction) (w' : RouteWorld) : Bool :=
  match a with
  | .mark _ _ _ _ _ _ (some request) => request < requests && w.store.failures key < w'.store.failures key
  | _ => false

/-- How often the first requests raise the failure count of a scope while some actions are taken. -/
def raisesOf (c : RouteConfig) (key : JsString) (requests : Nat) : RouteWorld → List RouteAction → Nat
  | _, [] => 0
  | w, a :: as =>
    match routeStep c w a with
    | none => 0
    | some (w', _) => (if raises key requests w a w' then 1 else 0) + raisesOf c key requests w' as

private theorem of_raises {requests : Nat} {a : RouteAction} (hw : w.store.Valid) (h : RouteStep c w (a, o) w')
    (hraises : raises key requests w a w' = true) : ∃ random provider model failure code credential request, a =
    .mark random provider model failure code credential (some request) ∧ request < requests ∧
    (scopeFor c provider model failure).key = key ∧ w'.store ≠ w.store := by
  unfold raises at hraises
  split at hraises
  · rename_i random provider model failure code credential request
    simp only [Bool.and_eq_true, decide_eq_true_eq] at hraises
    refine ⟨random, provider, model, failure, code, credential, request, rfl, hraises.1, ?_, ?_⟩
    · obtain ⟨guard, -, hstore⟩ := (routeStepped h).store
      change w'.store = (w.store.mark c w.now random provider model failure code credential guard).2 at hstore
      by_contra hkey
      cases hstale : guard.any (w.store.stale (scopeFor c provider model failure).key provider) with
      | true =>
        rw [hstore, RouteStateStore.mark_stale hstale] at hraises
        exact absurd hraises.2 (Nat.lt_irrefl _)
      | false =>
        have hget := RouteStateStore.get_mark w.now random code credential hw hstale key
        rw [if_neg hkey] at hget
        rw [hstore, RouteStateStore.failures, RouteStateStore.failures, hget] at hraises
        exact absurd hraises.2 (Nat.lt_irrefl _)
    · intro heq
      rw [heq] at hraises
      exact absurd hraises.2 (Nat.lt_irrefl _)
  · cases hraises

/-- After a fault of a scope, no request admitted before it raises the failure count. -/
private theorem raisesOf_eq_zero (hw : w₁.store.Valid) (hd : w₁.Drawn) (hstep : RouteStep c w₁ e w₂)
    (ht : Touches c w₁ e.1 w₂ key) {w : RouteWorld} (hrun : Run (RouteStep c) w₂ tr w) (as : List RouteAction) :
    raisesOf c key w₁.guards.length w as = 0 := by
  induction as generalizing w tr with
  | nil => rfl
  | cons a as ih =>
    unfold raisesOf
    split
    · rfl
    rename_i w' o hnext
    have hnext' : RouteStep c w (a, o) w' := hnext
    rw [ih (hrun.append (Run.single hnext')), Nat.add_zero, if_neg]
    intro hraises
    obtain ⟨random, provider, model, failure, code, credential, request, rfl, hlt, rfl, hne⟩ :=
      of_raises (valid_run hrun (valid_step hstep hw)) hnext' hraises
    exact hne (store_eq_of_touched hw hd hlt (Run.nil _) hstep hrun hnext' (Or.inl ht))

/-- A block that a guarded success drops, other than by its reset, was recorded before the guard was captured, and its
scope was not touched since. -/
private theorem success_drops {block : Block} (hw : w₁.store.Valid) (hd : w₁.Drawn) (hlt : request < w₁.guards.length)
    (hrun : Run (RouteStep c) w₁ tr w₂) (hsuccess : RouteStep c w₂ (.success provider model (some request), o) w₃)
    (hb : w₂.store.blocks.get key = some block) (hgone : w₃.store.blocks.get key = none) :
    (block.resets = true ∧ block.until_ ≤ w₂.now) ∨
      ((∃ before, w₁.store.blocks.get key = some before ∧ block.Continues before) ∧
        ∀ tr₁ w e w' tr₂, tr = tr₁ ++ e :: tr₂ → Run (RouteStep c) w₁ tr₁ w → RouteStep c w e w' →
          Run (RouteStep c) w' tr₂ w₂ → ¬Touches c w e.1 w' key) := by
  have hw₂ := valid_run hrun hw
  obtain ⟨guard, hguard, hstore⟩ := (routeStepped hsuccess).store
  obtain ⟨g, rfl, hg⟩ := guardOf_le hd hrun hlt hguard
  change w₃.store = w₂.store.success c w₂.now provider model (some g) at hstore
  have happlying : (w₂.store.applying c w₂.now provider model true).2.blocks.get key =
      (w₂.store.blocks.get key).bind (RouteStateStore.lapse w₂.now provider) :=
        RouteStateStore.get_applying hw₂ true key
  rw [hstore, RouteStateStore.get_success hw₂] at hgone
  split at hgone
  · -- the success drops the block: the guard holds its generation
    rename_i hdropped
    obtain ⟨⟨block', hb', -⟩, hseen⟩ := hdropped
    right
    have hgen : block'.generation = block.generation := by
      rw [happlying, hb, bind_some] at hb'
      unfold RouteStateStore.lapse Block.expired at hb'
      split at hb'
      · split at hb'
        · cases hb'
          rfl
        split at hb'
        · cases hb'
        · cases hb'
          rfl
      · cases hb'
        rfl
    rw [RouteStateStore.seen, all_some, beq_iff_eq, (hw₂.applying true).generation_eq hb', hgen] at hseen
    have hle := hg key _ hseen
    refine ⟨?_, ?_⟩
    · rcases (evolves_run hrun hw).kept key block hb with hbefore | hlt
      · exact hbefore
      · exact absurd hle (Nat.not_le.mpr hlt)
    · intro tr₁ w e w' tr₂ _ hrun₁ hstep hrun₂ ht
      have hcurrent := lt_current_of_touched hw hrun₁ hstep hrun₂ ht
      rw [RouteStateStore.current, hw₂.generation_eq hb, getD_some] at hcurrent
      exact absurd hle (Nat.not_le.mpr hcurrent)
  · left
    rw [happlying, hb, bind_some] at hgone
    unfold RouteStateStore.lapse Block.expired at hgone
    split at hgone
    · split at hgone
      · cases hgone
      rename_i hdue
      rw [not_or, Nat.not_lt] at hdue
      split at hgone
      · rename_i hresets
        exact ⟨hresets, hdue.2⟩
      · cases hgone
    · cases hgone

/-- Stale completions never override newer route health. -/
theorem stale_completions_fenced (c : RouteConfig) :
    -- a guarded fault changes the store only if neither its scope nor its provider was touched since its admission
    (∀ {w₀ w₁ w₂ w₃ w₄ w₅ : RouteWorld} {tr₁ tr₂ : List RouteLabel} {e : RouteLabel} {random : Draw}
        {provider model : JsString} {failure : MarkableFailure} {code : Nat} {credential : JsString} {request : Nat}
        {o : RouteOutcome}, RouteReached c w₀ → Admits c w₀ request w₁ → Run (RouteStep c) w₁ tr₁ w₂ →
        RouteStep c w₂ e w₃ → Run (RouteStep c) w₃ tr₂ w₄ →
        RouteStep c w₄ (.mark random provider model failure code credential (some request), o) w₅ →
        w₅.store ≠ w₄.store →
        ¬Touches c w₂ e.1 w₃ (scopeFor c provider model failure).key ∧ ¬Touches c w₂ e.1 w₃ (providerKey provider)) ∧
    -- of the requests admitted before a fault is recorded, at most one raises the failure count of its scope
    (∀ {w w' : RouteWorld} {a : RouteAction} {o : RouteOutcome} {key : JsString}, RouteReached c w →
        RouteStep c w (a, o) w' → a.faultKey c = some key → w'.store ≠ w.store → ∀ as,
        raisesOf c key w.guards.length w (a :: as) ≤ 1) ∧
    -- a guarded success drops only blocks recorded before its admission, whose scopes were not touched since
    (∀ {w₀ w₁ w₂ w₃ : RouteWorld} {tr : List RouteLabel} {provider model key : JsString} {request : Nat}
        {o : RouteOutcome} {block : Block}, RouteReached c w₀ → Admits c w₀ request w₁ → Run (RouteStep c) w₁ tr w₂ →
        RouteStep c w₂ (.success provider model (some request), o) w₃ →
        w₂.store.blocks.get key = some block → w₃.store.blocks.get key = none →
        (block.resets = true ∧ block.until_ ≤ w₂.now) ∨
          ((∃ before, w₁.store.blocks.get key = some before ∧ block.Continues before) ∧
            ∀ tr₁ w e w' tr₂, tr = tr₁ ++ e :: tr₂ → Run (RouteStep c) w₁ tr₁ w → RouteStep c w e w' →
              Run (RouteStep c) w' tr₂ w₂ → ¬Touches c w e.1 w' key)) := by
  have hadmitted : ∀ {w₀ w₁ : RouteWorld} {request : Nat}, RouteReached c w₀ → Admits c w₀ request w₁ →
      w₁.store.Valid ∧ w₁.Drawn ∧ request < w₁.guards.length := by
    rintro w₀ w₁ request hw ⟨e, hstep, -, hlen⟩
    have hw₁ := reached_step hw hstep
    exact ⟨valid_reached hw₁, drawn_reached hw₁, by omega⟩
  refine ⟨?_, ?_, ?_⟩
  · intro w₀ w₁ w₂ w₃ w₄ w₅ tr₁ tr₂ e random provider model failure code credential request o hw hadmits hrun hstep
      hrun'
      hmark hne
    obtain ⟨hvalid, hdrawn, hlt⟩ := hadmitted hw hadmits
    exact ⟨fun ht => hne (store_eq_of_touched hvalid hdrawn hlt hrun hstep hrun' hmark (Or.inl ht)),
      fun ht => hne (store_eq_of_touched hvalid hdrawn hlt hrun hstep hrun' hmark (Or.inr ht))⟩
  · intro w w' a o key hw hstep hkey hne as
    have ht : Touches c w a w' key := .faulted hkey hne
    have hstep' : routeStep c w a = some (w', o) := hstep
    unfold raisesOf
    rw [hstep']
    simp only
    rw [raisesOf_eq_zero (valid_reached hw) (drawn_reached hw) hstep ht (Run.nil w') as]
    split <;> omega
  · intro w₀ w₁ w₂ w₃ tr provider model key request o block hw hadmits hrun hsuccess hb hgone
    obtain ⟨hvalid, hdrawn, hlt⟩ := hadmitted hw hadmits
    exact success_drops hvalid hdrawn hlt hrun hsuccess hb hgone

/-- Of two requests that fail together one raises the count; a request that completes after time has passed is not
fenced off; and a success drops the fault that was there when it was admitted. -/
theorem stale_completions_fenced_together :
    let admitRoute := RouteAction.admitRoute (js "p") (js "m")
    let fault := fun request => RouteAction.mark 0 (js "p") (js "m") missingModel 404 [] request
    let key := scopeKey (js "p") .route (js "m")
    raisesOf poollessConfig key 2 (poollessAfter [admitRoute, admitRoute]) [fault (some 0), fault (some 1)] ≤ 1 ∧
      ¬Touches poollessConfig (poollessAfter [admitRoute]) (.tick 5) (poollessAfter [admitRoute, .tick 5]) key ∧
      ∃ before, (poollessAfter [fault none, .capture (js "p") (js "m")]).store.blocks.get key = some before := by
  intro admitRoute fault key
  have hfenced := stale_completions_fenced poollessConfig
  refine ⟨?_, ?_, ?_⟩
  · have hstep : RouteStep poollessConfig (poollessAfter [admitRoute, admitRoute])
        (fault (some 0), .status (some ⟨.modelUnavailable, 60000, .modelUnavailable, .opened, false⟩))
        (poollessAfter [admitRoute, admitRoute, fault (some 0)]) := by
      unfold RouteStep StepOf
      decide
    exact hfenced.2.1 (reached_poolless (by decide)) hstep rfl (by decide) [fault (some 1)]
  · have hpass : RouteStep poollessConfig (poollessAfter [])
        (admitRoute, .admission (.admitRoute (RouteStateStore.empty.capture poollessConfig (js "p") (js "m"))))
        (poollessAfter [admitRoute]) := by
      unfold RouteStep StepOf
      decide
    have htick : RouteStep poollessConfig (poollessAfter [admitRoute]) (.tick 5, .done)
        (poollessAfter [admitRoute, .tick 5]) := by
      unfold RouteStep StepOf
      decide
    have hmark : RouteStep poollessConfig (poollessAfter [admitRoute, .tick 5])
        (fault (some 0), .status (some ⟨.modelUnavailable, 60005, .modelUnavailable, .opened, false⟩))
        (poollessAfter [admitRoute, .tick 5, fault (some 0)]) := by
      unfold RouteStep StepOf
      decide
    exact (hfenced.1 (reached_poolless (by decide) : RouteReached _ (poollessAfter [])) ⟨_,
      hpass, by decide, by decide⟩
      (Run.nil _) htick (Run.nil _) hmark (by decide)).1
  · have hcapture : RouteStep poollessConfig (poollessAfter [fault none])
        (.capture (js "p") (js "m"), .captured ((poollessAfter [fault none]).store.capture poollessConfig
          (js "p") (js "m")))
        (poollessAfter [fault none, .capture (js "p") (js "m")]) := by
      unfold RouteStep StepOf
      decide
    have hsuccess : RouteStep poollessConfig (poollessAfter [fault none, .capture (js "p") (js "m")])
        (.success (js "p") (js "m") (some 0), .done)
        (poollessAfter [fault none, .capture (js "p") (js "m"), .success (js "p") (js "m") (some 0)]) := by
      unfold RouteStep StepOf
      decide
    obtain ⟨block, hblock, hresets⟩ : ∃ block,
        (poollessAfter [fault none, .capture (js "p") (js "m")]).store.blocks.get key = some block ∧
          block.resets = false := by
      have hany : ((poollessAfter [fault none, .capture (js "p") (js "m")]).store.blocks.get key).any
          (fun block => block.resets = false) = true := by decide
      rw [Option.any_eq_true] at hany
      obtain ⟨block, hb, hr⟩ := hany
      exact ⟨block, hb, by simpa using hr⟩
    rcases hfenced.2.2 (reached_poolless (by decide)) ⟨_, hcapture, by decide, by decide⟩
      (Run.nil _) hsuccess hblock (by decide) with hreset | hbefore
    · rw [hresets] at hreset
      exact absurd hreset.1 (by decide)
    · obtain ⟨⟨before, hbefore, -⟩, -⟩ := hbefore
      exact ⟨before, hbefore⟩

end Wrenyard.Gateway
