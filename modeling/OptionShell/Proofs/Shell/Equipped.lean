import OptionShell.Proofs.Prime.Command
import OptionShell.Proofs.Shell.WritableVariables

/-!
# Shells that the extension can be loaded into

Whatever a shell has run, the extension can be loaded unless it is loaded already: no option of the shell has the name
of one of its options, and the variable that it shows its candidate in can be assigned. While it is loaded all of its
options are registered.
-/
namespace OptionShell

namespace Shell

variable {core : Registry (Host Unit)} {s : Options (Host Unit)} {d : Definition (Host Unit)}
  {w after : Workspace Unit}

/-! ## Loading -/

theorem accepted_eq (hs : Sound s) {defs : List (Definition (Host Unit))} (hDefs : ∀ d ∈ defs, d ∈ Family) :
    s.registry.accepted defs = defs := by
  induction defs generalizing s with
  | nil => rfl
  | cons d rest ih =>
    obtain ⟨hd, hRest⟩ := List.forall_mem_cons.mp hDefs
    rw [Registry.accepted, if_pos (isAccepted_add hs.consistent hs.within hd)]
    exact congrArg (d :: ·) (ih (hs.add hd) hRest)

/-- The options after the extension has started over. -/
def primeEntered (s : Options (Host Unit)) : Options (Host Unit) :=
  let vars := s.host.vars.bind Prime.candidateName (toString Prime.firstCandidate)
  let prime := s.host.prime.consider Prime.firstCandidate
  { s with host := { s.host with vars, prime } }

/-- The workspace after the extension was loaded. -/
def primeLoaded (w : Workspace Unit) : Workspace Unit :=
  { w with options := primeEntered (w.options.addEach primeOptions), loaded := w.loaded ++ ["prime"] }

theorem primeLoaded_setState (t : Prime.State) (w : Workspace Unit) :
    primeLoaded (Prime.setState t w) = Prime.setState (t.consider Prime.firstCandidate) (primeLoaded w) := by
  have hAdded : (Prime.setState t w).options.addEach primeOptions =
      (w.options.addEach primeOptions).mapHost fun host => { host with prime := t } :=
    Options.addEach_mapHost primeOptions (fun host => { host with prime := t }) w.options
  rw [primeLoaded, primeLoaded, hAdded]
  generalize w.options.addEach primeOptions = added
  rfl

theorem prime_primeLoaded (w : Workspace Unit) :
    (primeLoaded w).options.host.prime = w.options.host.prime.consider Prime.firstCandidate := by
  change (w.options.addEach primeOptions).host.prime.consider Prime.firstCandidate = _
  rw [Options.host_addEach]

theorem run_enterHook (hVars : s.host.vars.OnlyRosters) : Prime.enter s = some (.ok (), primeEntered s) := by
  have hShown : s.host.vars.assign Prime.candidateName (toString Prime.firstCandidate) = .ok _ :=
    Prime.assign_candidate hVars _
  rw [Prime.enter]
  split
  · rename_i vars hEdit
    cases hShown.symm.trans hEdit
    rfl
  · rename_i error hRefused
    cases hShown.symm.trans hRefused

theorem run_load (hw : Writable w.options) (hNew : "prime" ∉ w.loaded) :
    (catalog.load "prime").run w = some (.ok (), primeLoaded w) := by
  have hAdd : Extension.addAll "prime" [] primeOptions w.options = some (.ok (), w.options.addEach primeOptions) := by
    obtain ⟨result, hRun, hResult⟩ := Extension.exists_run_addAll "prime" [] primeOptions w.options
    have hAll := accepted_eq hw.sound fun d hd => mem_family_of_prime hd
    cases hResult with
    | complete hAccepted => exact hRun
    | refused accepted d letters? host hAccepted hPrefix hRefused =>
      rw [← hAccepted, hAll] at hPrefix
      have hLength := hPrefix.length_le
      rw [List.length_append, List.length_singleton] at hLength
      omega
  have hHost := Options.host_addEach primeOptions w.options
  rw [primeLoaded]
  generalize w.options.addEach primeOptions = added at hAdd hHost ⊢
  have hHook : Prime.enter added = some (.ok (), primeEntered added) := run_enterHook (hHost ▸ hw.vars)
  have hEnter : primeExtension.enter w.options = some (.ok (), primeEntered added) := by
    change (Extension.addAll "prime" [] primeOptions w.options).bind _ = _
    rw [hAdd]
    change (Prime.enter added).bind _ = _
    rw [hHook]
    rfl
  rw [Catalog.load, find?_catalog_prime]
  change (ite (w.loaded.contains "prime" = true) _ _ : Action Unit Unit).run w = _
  rw [if_neg fun hContains => hNew (List.contains_iff_mem.mp hContains)]
  change ((Action.attempt primeExtension.enter).run w).bind _ = _
  rw [Action.run_attempt, hEnter]
  rfl

theorem run_load_of_loaded (hLoaded : "prime" ∈ w.loaded) : (catalog.load "prime").run w = some (.ok (), w) := by
  rw [Catalog.load, find?_catalog_prime]
  change (ite (w.loaded.contains "prime" = true) _ _ : Action Unit Unit).run w = _
  rw [if_pos (List.contains_iff_mem.mpr hLoaded)]
  rfl

/-- Stocked workspaces in which the variables of the extension can be assigned, and where all of its options are
registered while it is loaded. -/
structure Equipped (core : Registry (Host Unit)) (w : Workspace Unit) : Prop where
  stocked : Stocked core w
  vars : w.vars.OnlyRosters
  offered : "prime" ∈ w.loaded → ∀ d ∈ primeOptions, d ∈ w.options.registry.entries

namespace Equipped

theorem writable (h : Equipped core w) : Writable w.options := ⟨h.stocked.sound, h.vars⟩

theorem congr (h : Equipped core w) (hSound : Sound after.options) (hVars : after.vars.OnlyRosters)
    (hRegistry : after.options.registry = w.options.registry) (hLoaded : after.loaded = w.loaded) :
    Equipped core after := by
  refine ⟨h.stocked.congr hSound hRegistry hLoaded, hVars, ?_⟩
  rw [hRegistry, hLoaded]
  exact h.offered

theorem clean (h : Equipped core w) (hUnloaded : "prime" ∉ w.loaded) : Clean core w := by
  obtain hClean | ⟨hPrime, -⟩ := h.stocked.stock
  · exact hClean
  · rw [hPrime] at hUnloaded
    exact absurd List.mem_cons_self hUnloaded

theorem load (h : Equipped core w) {name : String} {result : Except ShellError Unit}
    (hRun : (catalog.load name).run w = some (result, after)) : Equipped core after := by
  have hSteps := (loads_load name w result after hRun).1
  have hVars := (writable_of_loadSteps hSteps h.writable).vars
  refine ⟨h.stocked.load hRun, hVars, ?_⟩
  cases Catalog.loadResult_of_run hRun with
  | unknown hFound => exact h.offered
  | again ext hFound hLoaded => exact h.offered
  | failed ext hFound hNew error options hEntered =>
    obtain rfl := name_eq_of_find?_catalog hFound
    exact fun hLoaded => absurd hLoaded hNew
  | loaded ext hFound hNew options hEntered =>
    obtain rfl := eq_of_find?_catalog hFound
    cases hEntered with
    | entered hAccepted options hHook =>
      have hRegistry : options.registry = w.options.registry.addEach primeOptions :=
        (registry_of_enterHook _ _ options hHook).trans (Options.registry_addEach primeOptions w.options)
      obtain ⟨-, hEntries⟩ := Registry.consistent_addEach identified_family h.stocked.sound.consistent
        h.stocked.sound.within.live (fun d hd => mem_family_of_prime hd) hAccepted
      change _ → ∀ d ∈ primeOptions, d ∈ options.registry.entries
      rw [hRegistry]
      exact fun _ d hd => (hEntries d).mpr (.inr hd)

theorem unload (h : Equipped core w) {name : String} {result : Except ShellError Unit}
    (hRun : (catalog.unload name).run w = some (result, after)) : Equipped core after := by
  have hSteps := (loads_unload name w result after hRun).1
  have hVars := (writable_of_loadSteps hSteps h.writable).vars
  refine ⟨h.stocked.unload hRun, hVars, ?_⟩
  by_cases hLoaded : name ∈ w.loaded
  · have hPrime := h.stocked.loaded_eq hLoaded
    obtain rfl : name = "prime" := List.mem_singleton.mp (hPrime ▸ hLoaded)
    rw [((h.stocked.ensures_unload hPrime).allows result after hRun).loaded]
    exact nofun
  · rw [run_unload_of_not_loaded hLoaded] at hRun
    cases hRun
    exact h.offered

end Equipped

theorem Move.equipped (hMove : Move w after) (h : Equipped core w) : Equipped core after := by
  obtain ⟨hRegistry, hLoaded⟩ | ⟨name, result, hRun⟩ | ⟨name, result, hRun⟩ := hMove.registry_cases h.stocked.sound
  · have hWritable := hMove.writable h.writable
    exact h.congr hWritable.sound hWritable.vars hRegistry hLoaded
  · exact h.load hRun
  · exact h.unload hRun

theorem equipped_of_moves (hMoves : Moves w after) (h : Equipped core w) : Equipped core after := by
  induction hMoves with
  | refl => exact h
  | tail _ hMove ih => exact hMove.equipped ih

end Shell

end OptionShell
