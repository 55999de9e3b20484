import OptionShell.Proofs.Interpreter.Unloading
import OptionShell.Proofs.Shell.Sessions

/-!
# Cleaning up after a session

While nothing is loaded the registry is the one that the start made; while the extension is loaded it is that registry
up to the options of the extension. Lines keep this whatever they do, so unloading at the end of a session always
works and leaves the registry of the start.
-/
namespace OptionShell

theorem Registry.accepted_subset {σ : Type} (defs : List (Definition σ)) (r : Registry σ) : r.accepted defs ⊆ defs := by
  induction defs generalizing r with
  | nil => exact List.Subset.refl _
  | cons d rest ih =>
    rw [accepted]
    split
    · exact List.cons_subset_cons d (ih _)
    · exact List.nil_subset _

namespace SetInvariant

variable {defs : Set (Definition (Host Unit))} {I : Options (Host Unit) → Prop} {s : Options (Host Unit)}

theorem setNames (h : SetInvariant defs I) (names : List String) (why : Access) (value : Int32) (hs : I s) :
    Ensures (names.forM fun name => do let _ ← Update.setNamed name why value) s fun _ after => I after :=
  .forEach (fun name _ _ hs => (h.setNamed name why value hs).bind fun _ _ hAfter => .pure hAfter) hs

theorem applyConfig (h : SetInvariant defs I) (config : Config) (hs : I s) :
    Ensures (Shell.applyConfig config) s fun _ after => I after :=
  (h.setNames config.turnedOn .arguments 1 hs).bind fun _ _ hMid => h.setNames config.turnedOff .arguments 0 hMid

theorem applyAll (h : SetInvariant defs I) (settings : List Setting) (hs : I s) :
    Ensures (Arguments.applyAll settings) s fun _ after => I after := by
  induction settings generalizing s with
  | nil => exact .pure hs
  | cons setting rest ih =>
    have hOne : Ensures setting.apply s fun _ after => I after := by
      cases setting with
      | letter c on => exact h.setLettered c .arguments _ hs
      | setO name on => exact h.setNamed name .arguments _ hs
      | shopt name on => exact h.setNamed name .arguments _ hs
    refine hOne.bind fun outcome mid hMid => ?_
    split
    · exact ih hMid
    · exact .pure hMid

/-- Besides settings, a start only attaches the variables, marks a login shell and refreshes the rosters. -/
theorem startOptions (h : SetInvariant defs I) (hAdd : (Shell.standard.addTo s).1 = .ok () ∧
      I (Shell.standard.addTo s).2) (hAttach : ∀ s, I s → I s.attach)
    (hMark : ∀ login s, I s → I (Shell.standard.markLogin login s)) (hRefresh : ∀ s, I s → I s.refreshAll)
    (config : Config) (arguments : Arguments) :
    Ensures (Shell.startOptions config arguments) s fun result after => result = .ok () → I after := by
  have hAdded : Ensures (modifyGet Shell.standard.addTo : Update (Host Unit) _) s fun result after =>
      result = .ok () ∧ I after := .modifyGet hAdd
  refine hAdded.bind ?_
  rintro _ added ⟨rfl, hStart⟩
  have hAttached : Ensures (modify Options.attach : Update (Host Unit) PUnit) added fun _ after => I after :=
    .modify (hAttach added hStart)
  refine hAttached.bind fun _ attached hAttached => ?_
  refine (h.applyConfig config hAttached).bind fun _ configured hConfigured => ?_
  refine (h.applyAll arguments.settings hConfigured).bind fun result applied hApplied => ?_
  cases result with
  | error error => exact .pure nofun
  | ok answer =>
    have hMarked : Ensures (modify (Shell.standard.markLogin arguments.login) : Update (Host Unit) PUnit) applied
        fun _ after => I after := .modify (hMark arguments.login applied hApplied)
    refine hMarked.bind fun _ marked hMarked => ?_
    exact (h.openRosters _ hMarked hRefresh).bind fun _ _ hAfter => .pure fun _ => hAfter

end SetInvariant

namespace Shell

variable {core : Registry (Host Unit)} {s : Options (Host Unit)} {w after : Workspace Unit}

/-- Sound options with the registry `core`. -/
structure SoundOver (core : Registry (Host Unit)) (s : Options (Host Unit)) : Prop where
  sound : Sound s
  registry : s.registry = core

/-- Nothing is loaded, and the registry is `core`. -/
structure Clean (core : Registry (Host Unit)) (w : Workspace Unit) : Prop where
  loaded : w.loaded = []
  registry : w.options.registry = core

/-- Sound options over the registry `core`: it is the registry while nothing is loaded, and what is left of the registry
without the options of the extension while that is loaded. -/
structure Stocked (core : Registry (Host Unit)) (w : Workspace Unit) : Prop where
  sound : Sound w.options
  /-- None of the options of the extension belongs to `core`. -/
  apart : core.removeEach primeOptions = core
  stock : Clean core w ∨ w.loaded = ["prime"] ∧ w.options.registry.removeEach primeOptions = core

theorem Clean.congr (h : Clean core w) (hRegistry : after.options.registry = w.options.registry)
    (hLoaded : after.loaded = w.loaded) : Clean core after := ⟨hLoaded.trans h.loaded, hRegistry.trans h.registry⟩

theorem Stocked.congr (h : Stocked core w) (hSound : Sound after.options)
    (hRegistry : after.options.registry = w.options.registry) (hLoaded : after.loaded = w.loaded) :
    Stocked core after := by
  refine ⟨hSound, h.apart, h.stock.imp (·.congr hRegistry hLoaded) fun hPrime => ?_⟩
  rw [hRegistry, hLoaded]
  exact hPrime

/-! ## Loading and unloading -/

theorem registry_of_enterHook (s : Options (Host Unit)) :
    Allows primeExtension.onLoad s fun _ after => after.registry = s.registry := by
  intro result after hRun
  change Prime.enter s = _ at hRun
  rw [Prime.enter] at hRun
  split at hRun
  · cases hRun
    rfl
  · cases hRun
    rfl

theorem Stocked.load (h : Stocked core w) {name : String} {result : Except ShellError Unit}
    (hRun : (catalog.load name).run w = some (result, after)) : Stocked core after := by
  have hSound : Sound after.options := sound_of_loadSteps (loads_load name w result after hRun).1 h.sound
  cases Catalog.loadResult_of_run hRun with
  | unknown hFound => exact h
  | again ext hFound hLoaded => exact h
  | failed ext hFound hLoaded error options hEntered =>
    obtain rfl := eq_of_find?_catalog hFound
    obtain rfl := name_eq_of_find?_catalog hFound
    have hLeft := Catalog.registry_of_failed_enter registry_of_enterHook hEntered
    obtain hClean | ⟨hPrime, -⟩ := h.stock
    · refine ⟨hSound, h.apart, .inl ⟨hClean.loaded, hLeft.trans ?_⟩⟩
      rw [hClean.registry]
      refine Registry.removeEach_eq_self_iff.mpr fun d hd => ?_
      exact Registry.removeEach_eq_self_iff.mp h.apart d (Registry.accepted_subset _ _ hd)
    · exact absurd (hPrime ▸ List.mem_cons_self) hLoaded
  | loaded ext hFound hLoaded options hEntered =>
    obtain rfl := eq_of_find?_catalog hFound
    obtain rfl := name_eq_of_find?_catalog hFound
    cases hEntered with
    | entered hAccepted options hHook =>
      obtain hClean | ⟨hPrime, -⟩ := h.stock
      · have hAdded : options.registry = core.addEach primeOptions := by
          rw [registry_of_enterHook _ _ options hHook, ← hClean.registry, Options.registry_addEach]
          rfl
        refine ⟨hSound, h.apart, .inr ⟨?_, ?_⟩⟩
        · rw [hClean.loaded]
          rfl
        · rw [hAdded, Registry.removeEach_addEach, h.apart]
      · exact absurd (hPrime ▸ List.mem_cons_self) hLoaded

theorem setInvariant_soundOver (core : Registry (Host Unit)) : SetInvariant Family (SoundOver core) where
  within _ hs := hs.sound.within
  set _ hd why value s hs := (ensures_set hd why value hs.sound.nesting).mono fun _ after hResult => by
    refine ⟨hs.sound.setResult hResult, ?_⟩
    obtain ⟨storage, host, rfl⟩ := hResult.exists_eq
    exact hs.registry

/-- The extension can always be left. -/
theorem ensures_leave (hs : Sound s) :
    Ensures primeExtension.leave s fun _ after => after.registry = s.registry.removeEach primeOptions := by
  have hSet := setInvariant_soundOver s.registry
  have hHook : Ensures Prime.leave s fun _ mid => SoundOver s.registry mid := .modify ⟨hs.congr rfl rfl, rfl⟩
  refine hHook.bind fun _ mid hMid => ?_
  refine .bind (.forEach (I := SoundOver s.registry) (fun d hd mid hMid => ?_) hMid) fun _ mid hMid => ?_
  · split
    · exact .bind (hSet.set d (mem_family_of_prime hd) .unload _ mid hMid) fun _ _ hAfter => .pure hAfter
    · exact .pure hMid
  · refine .modify ?_
    obtain ⟨letters?, host, hRemoved⟩ := Options.exists_removeEach_eq primeOptions mid
    have hSame : primeExtension.options = primeOptions := rfl
    rw [hSame, hRemoved, ← hMid.registry]

theorem find?_catalog_prime : catalog.find? "prime" = some primeExtension := rfl

/-- Unloading the extension always works and leaves `core`. -/
theorem Stocked.ensures_unload (h : Stocked core w) (hLoaded : w.loaded = ["prime"]) :
    Ensures (catalog.unload "prime").run w fun _ after => Clean core after := by
  obtain ⟨answer, options, hLeave, hRegistry⟩ := ensures_leave h.sound
  refine ⟨.ok (), { w with options, loaded := [] }, ?_, rfl, ?_⟩
  · have hUnload : (catalog.unload "prime").run w = _ :=
      Catalog.run_unload find?_catalog_prime (hLoaded ▸ List.mem_cons_self)
    rw [hUnload, hLeave, hLoaded]
    rfl
  · obtain hClean | ⟨-, hCore⟩ := h.stock
    · rw [hClean.loaded] at hLoaded
      cases hLoaded
    · exact hRegistry.trans hCore

theorem Stocked.loaded_eq (h : Stocked core w) {name : String} (hLoaded : name ∈ w.loaded) : w.loaded = ["prime"] := by
  obtain hClean | ⟨hPrime, -⟩ := h.stock
  · rw [hClean.loaded] at hLoaded
    cases hLoaded
  · exact hPrime

theorem run_unload_of_not_loaded {name : String} (hNew : name ∉ w.loaded) :
    (catalog.unload name).run w = some (.error (ExtensionError.notLoaded name).toShellError, w) := by
  change (ite (w.loaded.contains name = true) _ _ : Action Unit Unit).run w = _
  rw [if_neg fun hContains => hNew (List.contains_iff_mem.mp hContains)]
  rfl

theorem Stocked.unload (h : Stocked core w) {name : String} {result : Except ShellError Unit}
    (hRun : (catalog.unload name).run w = some (result, after)) : Stocked core after := by
  have hSound : Sound after.options := sound_of_loadSteps (loads_unload name w result after hRun).1 h.sound
  by_cases hLoaded : name ∈ w.loaded
  · have hPrime := h.loaded_eq hLoaded
    obtain rfl : name = "prime" := List.mem_singleton.mp (hPrime ▸ hLoaded)
    exact ⟨hSound, h.apart, .inl ((h.ensures_unload hPrime).allows result after hRun)⟩
  · rw [run_unload_of_not_loaded hLoaded] at hRun
    cases hRun
    exact h

/-! ## Moves and lines -/

/-- Only loading and unloading touch the registry and the list of what is loaded. -/
theorem Move.registry_cases (hMove : Move w after) (h : Sound w.options) :
    (after.options.registry = w.options.registry ∧ after.loaded = w.loaded) ∨
      (∃ name result, (catalog.load name).run w = some (result, after)) ∨
      ∃ name result, (catalog.unload name).run w = some (result, after) := by
  have hSet := setInvariant_soundOver w.options.registry
  cases hMove with
  | set d why value outcome options hFound hWhy hRun =>
    have hKept := hSet.set d (mem_family_of_finds h.within hFound) why value w.options ⟨h, rfl⟩
    exact .inl ⟨(hKept.allows outcome options hRun).registry, rfl⟩
  | note d why hLive =>
    obtain ⟨host, hHost⟩ := Options.exists_noted d why w.options
    have hKept : (w.options.noted d why).registry = w.options.registry := by rw [hHost]
    exact .inl ⟨hKept, rfl⟩
  | prime f => exact .inl ⟨rfl, rfl⟩
  | vars vars hEdit => exact .inl ⟨rfl, rfl⟩
  | load name result after hRun => exact .inr (.inl ⟨name, result, hRun⟩)
  | unload name result after hRun => exact .inr (.inr ⟨name, result, hRun⟩)
  | openScope => exact .inl ⟨rfl, rfl⟩
  | saveFlags frame outer hScopes => exact .inl ⟨rfl, rfl⟩
  | closeScope outer hScopes => exact .inl ⟨rfl, rfl⟩
  | restoreFlags saved outer count options hScopes hRun =>
    exact .inl ⟨((hSet.reinstateFlags saved ⟨h, rfl⟩).allows count options hRun).registry, rfl⟩
  | aside diagnostics exit? => exact .inl ⟨rfl, rfl⟩

theorem Move.stocked (hMove : Move w after) (h : Stocked core w) : Stocked core after := by
  obtain ⟨hRegistry, hLoaded⟩ | ⟨name, result, hRun⟩ | ⟨name, result, hRun⟩ := hMove.registry_cases h.sound
  · exact h.congr (hMove.sound h.sound) hRegistry hLoaded
  · exact h.load hRun
  · exact h.unload hRun

theorem stocked_of_moves (hMoves : Moves w after) (h : Stocked core w) : Stocked core after := by
  induction hMoves with
  | refl => exact h
  | tail _ hMove ih => exact hMove.stocked ih

theorem keptByLines_stocked (core : Registry (Host Unit)) :
    KeptByLines fun shell => Stocked core shell.session.toWorkspace := by
  intro shell line result last h hSubmit
  have hFresh : Stocked core (shell.freshLine line).toWorkspace := h.congr h.sound rfl rfl
  exact stocked_of_moves (moves_submit hSubmit) hFresh

/-! ## The start -/

variable {config : Config} {arguments : Arguments} {environ : List (String × String)} {shell : Shell}

/-- Nothing between adding the standard options and loading the extensions touches the registry. -/
theorem soundOver_of_startOptions (config : Config) (arguments : Arguments) (environ : List (String × String)) :
    Ensures (startOptions config arguments) (blankOptions environ) fun result after =>
      result = .ok () → SoundOver (standard.addTo (blankOptions environ)).2.registry after := by
  obtain ⟨registry, letters?, hAdded, hSound, -⟩ := addTo_blankOptions environ
  rw [hAdded]
  refine (setInvariant_soundOver registry).startOptions ?_ (fun s hs => ?_) (fun login s hs => ?_) (fun s hs => ?_)
    config arguments
  · rw [hAdded]
    exact ⟨rfl, hSound, rfl⟩
  · exact ⟨hs.sound.congr rfl rfl, hs.registry⟩
  · exact ⟨hs.sound.congr rfl rfl, hs.registry⟩
  · obtain ⟨f, hf⟩ := Options.refreshAll_eq_mapHost s
    rw [hf]
    exact ⟨hs.sound.congr rfl rfl, hs.registry⟩

theorem stocked_of_startOptions {options : Options (Host Unit)}
    (hRun : startOptions config arguments (blankOptions environ) = some (.ok (), options)) :
    Stocked (standard.addTo (blankOptions environ)).2.registry { options } := by
  obtain ⟨hSound, hRegistry⟩ := (soundOver_of_startOptions config arguments environ).allows _ options hRun rfl
  have hApart : (standard.addTo (blankOptions environ)).2.registry.removeEach primeOptions =
      (standard.addTo (blankOptions environ)).2.registry := by
    obtain ⟨registry, letters?, hAdded, hCore, hOnly⟩ := addTo_blankOptions environ
    rw [hAdded]
    refine Registry.removeEach_eq_self_iff.mpr fun d hd => Bool.eq_false_iff.mpr fun hHeld => ?_
    obtain ⟨e, he, hId⟩ := (Registry.holds_iff hCore.consistent).mp hHeld
    have hLow := id_lt_size (hOnly e he)
    have hHigh := size_le_id hd
    omega
  exact ⟨hSound, hApart, .inl ⟨rfl, hRegistry⟩⟩

theorem leads_loadAll (names : List String) (w : Workspace Unit) :
    Leads (Effects catalog) (names.forM catalog.load).run w :=
  Leads.each (fun name _ _ result after hRun => .single (.load name result after hRun)) w

theorem stocked_of_start (hStart : Shell.start config arguments environ = some (.ok shell)) :
    Stocked (standard.addTo (blankOptions environ)).2.registry shell.session.toWorkspace := by
  obtain ⟨options, work, hRun, hLoads, hSession⟩ := exists_run_start hStart
  have hEffects := leads_loadAll _ _ _ work hLoads
  have hLoaded := stocked_of_moves (balanced_of_effects hEffects).moves (stocked_of_startOptions hRun)
  rw [hSession]
  exact hLoaded.congr hLoaded.sound rfl rfl

/-! ## The end -/

/-- Cleaning up always works. -/
theorem ensures_unloadAll (h : Stocked core w) :
    Ensures catalog.unloadAll.run w fun _ after => Clean core after := by
  refine .get_bind ?_
  obtain hClean | ⟨hPrime, -⟩ := h.stock
  · rw [hClean.loaded]
    exact .pure hClean
  · rw [hPrime]
    refine .andThen (Q := fun _ mid => Clean core mid) ?_ (fun _ mid hMid => .pure hMid) fun _ _ hMid => hMid
    refine .andThen (Q := fun _ mid => Clean core mid) (.tryCatch (Q := fun _ mid => Clean core mid) ?_
      (fun _ _ hMid => hMid) fun error mid hMid => .pure hMid) (fun result mid hMid => ?_) fun _ _ hMid => hMid
    · exact .andThen (h.ensures_unload hPrime) (fun _ mid hMid => .pure hMid) fun _ _ hMid => hMid
    · cases result <;> exact .pure hMid

theorem exists_close (h : Stocked core shell.session.toWorkspace) :
    ∃ last, shell.close = some last ∧ Clean core last.session.toWorkspace := by
  obtain ⟨result, work, hRun, hClean⟩ := ensures_unloadAll h
  refine ⟨{ shell with session := { shell.session with toWorkspace := work } }, ?_, hClean⟩
  rw [close, hRun]
  rfl

/-- A session has a result if its input has one. After it nothing is loaded, and the registry is the one that the
standard options made at the start. -/
theorem cleaned_up_after_session (config : Config) (arguments : Arguments) (environ : List (String × String))
    (terminal : Terminal) (hStart : Shell.start config arguments environ = some (.ok terminal.shell))
    (command? : Option String) (input : List UInt8) (interactive : Bool) :
    (terminal.serve command? input interactive).isSome = (terminal.runInput command? input interactive).isSome ∧
      ∀ status after, terminal.serve command? input interactive = some (status, after) →
        after.shell.session.loaded = [] ∧
          after.shell.options.registry = (standard.addTo (blankOptions environ)).2.registry ∧
          ∀ d, d ∈ after.shell.options.registry.entries ↔ d ∈ standardOptions := by
  have hCore : ∀ d, d ∈ (standard.addTo (blankOptions environ)).2.registry.entries ↔ d ∈ standardOptions := by
    obtain ⟨registry, letters?, hAdded, hSound, hOnly⟩ := addTo_blankOptions environ
    rw [hAdded]
    exact fun d => ⟨hOnly d, hSound.complete d⟩
  rw [Terminal.serve_eq]
  cases hRun : terminal.runInput command? input interactive with
  | none =>
    refine ⟨rfl, fun status after hAfter => ?_⟩
    cases hAfter
  | some ran =>
    have hRan := Terminal.kept_runInput (keptByLines_stocked _) (stocked_of_start hStart) hRun
    obtain ⟨last, hClose, hClean⟩ := exists_close hRan
    have hServed : ran.2.close = some { ran.2 with shell := last } := by
      rw [Terminal.close, hClose]
      rfl
    rw [Option.bind_some, hServed]
    refine ⟨rfl, ?_⟩
    rintro status after hAfter
    cases hAfter
    exact ⟨hClean.loaded, hClean.registry, fun d => by rw [Shell.options, hClean.registry]; exact hCore d⟩

/-- The extension is loaded at the start, comes and goes, and then the input cannot be read. -/
theorem cleaned_up_after_unreadable_input :
    ∃ shell after, Shell.start { extensions := ["prime"] } {} [] = some (.ok shell) ∧
      ({ shell } : Terminal).serve none ("enable -d prime\nenable -f prime\nfalse\n".toUTF8.toList ++ [255]) false =
        some (.error .invalidUtf8, after) ∧
      after.shell.session.loaded = [] ∧
      after.shell.options.registry = (standard.addTo (blankOptions [])).2.registry := by
  let input := "enable -d prime\nenable -f prime\nfalse\n".toUTF8.toList ++ [255]
  have hRuns : ((Shell.start { extensions := ["prime"] } {} []).bind Except.toOption).any (fun shell =>
      (({ shell } : Terminal).serve none input false).any fun ran => ran.1 matches .error .invalidUtf8) = true := by
    decide +kernel
  obtain ⟨shell, hStart, hServed⟩ := exists_of_any_start hRuns
  obtain ⟨⟨status, after⟩, hServe, hStatus⟩ := (Option.any_eq_true _ _).mp hServed
  obtain ⟨-, hCleaned⟩ := cleaned_up_after_session { extensions := ["prime"] } {} [] { shell } hStart none input false
  obtain ⟨hLoaded, hRegistry, -⟩ := hCleaned status after hServe
  obtain ⟨⟩ | _ := status
  · exact ⟨shell, after, hStart, hServe, hLoaded, hRegistry⟩
  · cases hStatus

end Shell

end OptionShell
