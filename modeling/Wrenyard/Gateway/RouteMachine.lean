import Wrenyard.Lib.Transition
import Wrenyard.Gateway.RouteOperations

/-!
# Runs of the route state

The store over time: requests are admitted and keep the guard they were given, they complete with a fault or a success
in any order, timers fire or not, and the clock moves on between any two of these.
-/

namespace Wrenyard.Gateway

open Js Transition

structure RouteWorld where
  store : RouteStateStore
  now : Instant
  guards : List RouteGuard
deriving DecidableEq

/-- A call of the store, or its environment.  A completion names the request whose guard it presents, if it presents
one. -/
inductive RouteAction where
  | tick (ms : Nat)
  | timer (key : JsString)
  | status (provider model : JsString)
  | capture (provider model : JsString)
  | admitRoute (provider model : JsString)
  | mark (random : Draw) (provider model : JsString) (failure : MarkableFailure) (status : Nat)
    (credential : JsString)
      (request : Option Nat)
  | success (provider model : JsString) (request : Option Nat)
  | observeCredential (provider value : JsString)
  | clearProvider (provider : JsString)

inductive RouteOutcome where
  | done
  | status (status : Option RouteStatus)
  | captured (guard : RouteGuard)
  | admission (admission : Admission)
deriving DecidableEq

def RouteWorld.guardOf (w : RouteWorld) : Option Nat → Option (Option RouteGuard)
  | none => some none
  | some request => w.guards[request]?.map some

def routeStep (c : RouteConfig) (w : RouteWorld) : RouteAction → Option (RouteWorld × RouteOutcome)
  | .tick ms => some ({ w with now := w.now + ms }, .done)
  | .timer key => some ({ w with store := w.store.timer w.now key }, .done)
  | .status provider model =>
    let (status, store) := w.store.status c w.now provider model
    some ({ w with store := store }, .status status)
  | .capture provider model =>
    let guard := w.store.capture c provider model
    some ({ w with guards := w.guards ++ [guard] }, .captured guard)
  | .admitRoute provider model =>
    match w.store.admitRoute c w.now provider model with
    | (.admitRoute guard, store) =>
      some ({ w with store := store, guards := w.guards ++ [guard] }, .admission (.admitRoute guard))
    | (.blocked status, store) => some ({ w with store := store }, .admission (.blocked status))
  | .mark random provider model failure status credential request =>
    (w.guardOf request).map fun guard =>
      let (status, store) := w.store.mark c w.now random provider model failure status credential guard
      ({ w with store := store }, .status status)
  | .success provider model request =>
    (w.guardOf request).map fun guard =>
      ({ w with store := w.store.success c w.now provider model guard }, .done)
  | .observeCredential provider value => some ({ w with store := w.store.observeCredential c provider value }, .done)
  | .clearProvider provider => some ({ w with store := w.store.clearProvider provider }, .done)

abbrev RouteLabel := RouteAction × RouteOutcome

abbrev RouteStep (c : RouteConfig) : RouteWorld → RouteLabel → RouteWorld → Prop := StepOf (routeStep c)

def RouteReached (c : RouteConfig) (w : RouteWorld) : Prop :=
  ∃ start tr, Run (RouteStep c) ⟨.empty, start, []⟩ tr w

variable {c : RouteConfig} {w w' : RouteWorld} {e : RouteLabel} {tr : List RouteLabel}

def RouteAction.apply (c : RouteConfig) (w : RouteWorld) (guard : Option RouteGuard) : RouteAction → RouteStateStore
  | tick _ => w.store
  | timer key => w.store.timer w.now key
  | status provider model => (w.store.applying c w.now provider model false).2
  | capture _ _ => w.store
  | admitRoute provider model => (w.store.applying c w.now provider model false).2
  | mark random provider model failure code credential _ =>
    (w.store.mark c w.now random provider model failure code credential guard).2
  | success provider model _ => w.store.success c w.now provider model guard
  | observeCredential provider value => w.store.observeCredential c provider value
  | clearProvider provider => w.store.clearProvider provider

def RouteAction.request : RouteAction → Option Nat
  | mark _ _ _ _ _ _ request => request
  | success _ _ request => request
  | _ => none

def RouteAction.faultKey (c : RouteConfig) : RouteAction → Option JsString
  | mark _ provider model failure _ _ _ => some (scopeFor c provider model failure).key
  | _ => none

/-- How long an action takes. -/
def RouteAction.elapsed : RouteAction → Nat
  | tick ms => ms
  | _ => 0

structure RouteStepped (c : RouteConfig) (w : RouteWorld) (a : RouteAction) (w' : RouteWorld) : Prop where
  store : ∃ guard, w.guardOf a.request = some guard ∧ w'.store = a.apply c w guard
  now : w'.now = w.now + a.elapsed
  guards : w'.guards = w.guards ∨ ∃ provider model, w'.guards = w.guards ++ [w'.store.capture c provider model]

theorem routeStepped (h : RouteStep c w e w') : RouteStepped c w e.1 w' := by
  obtain ⟨a, o⟩ := e
  unfold RouteStep StepOf at h
  cases a with
  | tick ms =>
    cases h
    exact ⟨⟨none, rfl, rfl⟩, rfl, Or.inl rfl⟩
  | capture provider model =>
    cases h
    exact ⟨⟨none, rfl, rfl⟩, rfl, Or.inr ⟨provider, model, rfl⟩⟩
  | admitRoute provider model =>
    simp only [routeStep, RouteStateStore.admitRoute] at h
    split at h
    · rename_i guard store hpass
      split at hpass <;> cases hpass
      cases h
      exact ⟨⟨none, rfl, rfl⟩, rfl, Or.inr ⟨provider, model, rfl⟩⟩
    rename_i status store hpass
    split at hpass <;> cases hpass
    cases h
    exact ⟨⟨none, rfl, rfl⟩, rfl, Or.inl rfl⟩
  | mark | success =>
    simp only [routeStep, Option.map_eq_some_iff] at h
    obtain ⟨guard, hguard, h⟩ := h
    cases h
    exact ⟨⟨guard, hguard, rfl⟩, rfl, Or.inl rfl⟩
  | _ =>
    cases h
    exact ⟨⟨none, rfl, rfl⟩, rfl, Or.inl rfl⟩

theorem RouteStateStore.Valid.apply (h : w.store.Valid) {guard : Option RouteGuard} (a : RouteAction) :
    (a.apply c w guard).Valid := by
  cases a with
  | tick | capture => exact h
  | timer key => exact h.timer
  | status | admitRoute => exact h.applying false
  | mark random provider model failure status credential request => exact h.mark
  | success provider model request => exact h.success
  | observeCredential provider value => exact h.observeCredential
  | clearProvider provider => exact h.clearProvider

theorem RouteStateStore.evolves_apply (h : w.store.Valid) {guard : Option RouteGuard} (a : RouteAction) :
    w.store.Evolves (a.apply c w guard) := by
  cases a with
  | tick | capture => exact Evolves.refl _
  | timer key => exact evolves_timer h
  | status | admitRoute => exact evolves_applying h false
  | mark random provider model failure status credential request => exact evolves_mark h
  | success provider model request => exact evolves_success h
  | observeCredential provider value => exact evolves_observeCredential h
  | clearProvider provider => exact evolves_clearProvider h

theorem valid_step (h : RouteStep c w e w') (hw : w.store.Valid) : w'.store.Valid := by
  obtain ⟨guard, -, hstore⟩ := (routeStepped h).store
  rw [hstore]
  exact hw.apply e.1

theorem evolves_step (h : RouteStep c w e w') (hw : w.store.Valid) : w.store.Evolves w'.store := by
  obtain ⟨guard, -, hstore⟩ := (routeStepped h).store
  rw [hstore]
  exact RouteStateStore.evolves_apply hw e.1

/-- A run keeps the store valid. -/
theorem valid_run (h : Run (RouteStep c) w tr w') (hw : w.store.Valid) : w'.store.Valid :=
  h.invariant (fun w => w.store.Valid) (fun _ _ _ hw hstep => valid_step hstep hw) hw

theorem valid_reached (h : RouteReached c w) : w.store.Valid := by
  obtain ⟨start, tr, hrun⟩ := h
  exact valid_run hrun RouteStateStore.valid_empty

variable (h : Run (RouteStep c) w tr w')
include h

/-- A run lets the store evolve. -/
theorem evolves_run (hw : w.store.Valid) : w.store.Evolves w'.store := by
  induction h with
  | nil => exact RouteStateStore.Evolves.refl _
  | cons hstep _ ih => exact (evolves_step hstep hw).trans (ih (valid_step hstep hw))

theorem now_le_run : w.now ≤ w'.now := by
  induction h with
  | nil => exact Nat.le_refl _
  | cons hstep _ ih =>
    refine Nat.le_trans ?_ ih
    rw [(routeStepped hstep).now]
    exact Nat.le_add_right _ _

theorem guards_prefix_run : w.guards <+: w'.guards := by
  induction h with
  | nil => exact List.prefix_refl _
  | cons hstep _ ih =>
    refine List.IsPrefix.trans ?_ ih
    rcases (routeStepped hstep).guards with hguards | ⟨provider, model, hguards⟩
    · rewrite [hguards]
      exact List.prefix_refl _
    · rw [hguards]
      exact List.prefix_append _ _

omit h

theorem reached_step (h : RouteReached c w) (hstep : RouteStep c w e w') : RouteReached c w' := by
  obtain ⟨start, tr, hrun⟩ := h
  exact ⟨start, tr ++ [e], hrun.append (Run.single hstep)⟩

theorem reached_run (h : RouteReached c w) (hrun : Run (RouteStep c) w tr w') : RouteReached c w' := by
  obtain ⟨start, tr', hrun'⟩ := h
  exact ⟨start, tr' ++ tr, hrun'.append hrun⟩

/-- A recorded fault was not stale. -/
theorem store_of_fault {key : JsString} (h : RouteStep c w e w') (hkey : e.1.faultKey c = some key)
    (hne : w'.store ≠ w.store) :
    ∃ random provider model failure code credential guard, key = (scopeFor c provider model failure).key ∧
      w'.now = w.now ∧ guard.any (w.store.stale (scopeFor c provider model failure).key provider) = false ∧
      w'.store = (w.store.mark c w.now random provider model failure code credential guard).2 := by
  obtain ⟨guard, -, hstore⟩ := (routeStepped h).store
  have hnow := (routeStepped h).now
  obtain ⟨a, o⟩ := e
  cases a <;> simp only [RouteAction.faultKey, Option.some.injEq, reduceCtorEq] at hkey
  rename_i random provider model failure code credential request
  change w'.store = (w.store.mark c w.now random provider model failure code credential guard).2 at hstore
  refine ⟨random, provider, model, failure, code, credential, guard, hkey.symm, hnow, ?_, hstore⟩
  by_contra hstale
  rw [RouteStateStore.mark_stale (Bool.not_eq_false _ ▸ hstale)] at hstore
  exact hne hstore

def poollessConfig : RouteConfig := ⟨fun _ _ => [], none, fun _ => none, id⟩

/-- A fault of a route's own scope. -/
def missingModel : MarkableFailure := ⟨.modelUnavailable, none, none, none, none⟩

/-- The world that a fresh store reaches by some actions. -/
def poollessAfter (as : List RouteAction) : RouteWorld :=
  as.foldl (fun w a => ((routeStep poollessConfig w a).map Prod.fst).getD w) ⟨.empty, 0, []⟩

theorem reached_poolless {as : List RouteAction}
    (h : (exec (routeStep poollessConfig) ⟨.empty, 0, []⟩ as).map Prod.fst = some (poollessAfter as)) :
    RouteReached poollessConfig (poollessAfter as) := by
  rw [Option.map_eq_some_iff] at h
  obtain ⟨⟨w, os⟩, hexec, rfl⟩ := h
  exact ⟨0, _, run_of_exec hexec⟩

end Wrenyard.Gateway
