import OptionShell.Interpreter.Extension
import OptionShell.Proofs.Registry.Selection
import OptionShell.Proofs.Result

/-!
# What loading an extension does

Loading adds the options of an extension, runs its hook and puts its name on the list. If an option is refused or the
hook fails, the options that were accepted so far are removed. `LoadResult` lists the ways in which this can end.
-/
namespace OptionShell

namespace Options

variable {σ : Type}

/-- Adds definitions in order, and goes on after those that are refused. -/
def addEach (defs : List (Definition σ)) (s : Options σ) : Options σ := defs.foldl (fun s d => (s.add d).2) s

theorem addEach_nil (s : Options σ) : s.addEach [] = s := rfl

theorem addEach_cons (d : Definition σ) (rest : List (Definition σ)) (s : Options σ) :
    s.addEach (d :: rest) = (s.add d).2.addEach rest := rfl

theorem exists_addEach_eq (defs : List (Definition σ)) (s : Options σ) :
    ∃ letters?, s.addEach defs = { s with registry := s.registry.addEach defs, letters? } := by
  induction defs generalizing s with
  | nil => exact ⟨s.letters?, rfl⟩
  | cons d rest ih =>
    obtain ⟨letters?, hRest⟩ := ih (s.add d).2
    exact ⟨letters?, hRest⟩

theorem addEach_mapHost (defs : List (Definition σ)) (f : σ → σ) (s : Options σ) :
    (s.mapHost f).addEach defs = (s.addEach defs).mapHost f := by
  induction defs generalizing s with
  | nil => rfl
  | cons d rest ih => exact ih (s.add d).2

@[simp] theorem registry_addEach (defs : List (Definition σ)) (s : Options σ) :
    (s.addEach defs).registry = s.registry.addEach defs := by
  obtain ⟨letters?, hAdded⟩ := exists_addEach_eq defs s
  rw [hAdded]

@[simp] theorem host_addEach (defs : List (Definition σ)) (s : Options σ) : (s.addEach defs).host = s.host := by
  obtain ⟨letters?, hAdded⟩ := exists_addEach_eq defs s
  rw [hAdded]

-- The options of an extension are given as a list, and nothing should try to add them one by one.
attribute [irreducible] addEach

variable [HostVariables σ]

theorem exists_removeEach_eq (defs : List (Definition σ)) (s : Options σ) :
    ∃ letters? host, defs.foldl (fun s d => (s.remove d).2) s =
      { s with registry := s.registry.removeEach defs, letters?, host } := by
  induction defs generalizing s with
  | nil => exact ⟨s.letters?, s.host, rfl⟩
  | cons d rest ih =>
    obtain ⟨host, hFirst⟩ := exists_remove_eq d s
    obtain ⟨letters?, host, hRest⟩ := ih (s.remove d).2
    rw [hFirst] at hRest
    rw [List.foldl_cons, hFirst, hRest]
    exact ⟨letters?, host, rfl⟩

end Options

variable {α β : Type}

namespace Action

theorem run_update (change : Update (Host α) β) (work : Workspace α) :
    (update change).run work =
      (change work.options).map fun result => (.ok result.1, { work with options := result.2 }) := by
  change ((change work.options).bind _).bind _ = _
  cases change work.options <;> rfl

theorem run_attempt (change : Update (Host α) (Except ShellError β)) (work : Workspace α) :
    (attempt change).run work =
      (change work.options).map fun result => (result.1, { work with options := result.2 }) := by
  change ((update change).run work).bind _ = _
  rw [run_update]
  cases change work.options with
  | none => rfl
  | some result =>
    obtain ⟨_ | answer, after⟩ := result <;> rfl

theorem run_editVars (edit : Variables → Except VariableError Variables) (work : Workspace α) :
    (editVars edit).run work = match edit work.vars with
      | .ok vars => some (.ok (), work.mapHost fun host => { host with vars })
      | .error error => some (.error error.toShellError, work) := by
  change (match edit work.vars with
    | .ok vars => set (work.mapHost fun host => { host with vars })
    | .error error => throw error.toShellError : Action α Unit).run work = _
  cases edit work.vars <;> rfl

variable {action : Action α β} {work : Workspace α} {p : Except ShellError β × Workspace α → Bool}

theorem exists_error_of_any
    (h : (action.run work).any (fun result => result.1.toOption.isNone && p result) = true) :
    ∃ error after, action.run work = some (.error error, after) ∧ p (.error error, after) = true := by
  obtain ⟨⟨error | answer, after⟩, hRun, hResult⟩ := (Option.any_eq_true _ _).mp h
  · exact ⟨error, after, hRun, hResult⟩
  · cases hResult

theorem exists_ok_of_any
    (h : (action.run work).any (fun result => result.1.toOption.isSome && p result) = true) :
    ∃ answer after, action.run work = some (.ok answer, after) ∧ p (.ok answer, after) = true := by
  obtain ⟨⟨error | answer, after⟩, hRun, hResult⟩ := (Option.any_eq_true _ _).mp h
  · cases hResult
  · exact ⟨answer, after, hRun, hResult⟩

end Action

/-! ## Adding the options -/

namespace Extension

/-- The ways in which adding the options of an extension can end, after those in `added`. -/
inductive Admission (name : String) (added rest : List (Definition (Host α))) (s : Options (Host α)) :
    Except ExtensionError Unit × Options (Host α) → Prop where
  | complete (hAccepted : s.registry.accepted rest = rest) : Admission name added rest s (.ok (), s.addEach rest)
  | refused (accepted : List (Definition (Host α))) (d : Definition (Host α)) (letters? : Option (List Char))
      (host : Host α) (hAccepted : s.registry.accepted rest = accepted) (hPrefix : accepted ++ [d] <+: rest)
      (hRefused : ((s.registry.addEach accepted).add d).1.isAccepted = false) :
      Admission name added rest s (.error (.refused name d.label ((s.registry.addEach accepted).add d).1),
        { s with registry := (s.registry.addEach accepted).removeEach (added ++ accepted), letters?, host })

theorem exists_run_addAll (name : String) (added rest : List (Definition (Host α))) (s : Options (Host α)) :
    ∃ result, addAll name added rest s = some result ∧ Admission name added rest s result := by
  -- Each accepted definition moves from `rest` to `added`, where a refusal later on finds it.
  induction rest generalizing added s with
  | nil =>
    have hDone : Admission name added [] s (.ok (), s.addEach []) := .complete rfl
    rw [Options.addEach_nil] at hDone
    exact ⟨_, rfl, hDone⟩
  | cons d rest ih =>
    have hRun : addAll name added (d :: rest) s =
        (if (s.registry.add d).1.isAccepted then addAll name (added ++ [d]) rest
          else do
            removeAll added
            return .error (.refused name d.label (s.registry.add d).1)) (s.add d).2 := rfl
    rw [hRun]
    cases hAccepted : (s.registry.add d).1.isAccepted with
    | true =>
      have hFirst : s.registry.accepted (d :: rest) = d :: (s.add d).2.registry.accepted rest := by
        rw [Registry.accepted, if_pos hAccepted]
        rfl
      obtain ⟨result, hRest, hResult⟩ := ih (added ++ [d]) (s.add d).2
      refine ⟨result, hRest, ?_⟩
      cases hResult with
      | complete hAll =>
        rw [← Options.addEach_cons]
        exact .complete (hFirst.trans (congrArg (d :: ·) hAll))
      | refused accepted e letters? host hAll hPrefix hRefused =>
        rw [← List.append_cons]
        exact .refused (d :: accepted) e letters? host (hFirst.trans (congrArg (d :: ·) hAll))
          ((List.prefix_cons_inj d).mpr hPrefix) hRefused
    | false =>
      have hNone : s.registry.accepted (d :: rest) = [] := by
        rw [Registry.accepted, hAccepted]
        rfl
      have hKept : (s.add d).2 = s := by
        apply Options.add_of_ne_ok
        intro hOk
        rw [show (s.registry.add d).1 = .ok from hOk] at hAccepted
        cases hAccepted
      obtain ⟨letters?, host, hRemoved⟩ := Options.exists_removeEach_eq added s
      refine ⟨(.error (.refused name d.label (s.registry.add d).1),
        { s with registry := s.registry.removeEach added, letters?, host }), ?_, ?_⟩
      · change some (_, added.foldl (fun s d => (s.remove d).2) (s.add d).2) = _
        rw [hKept, hRemoved]
      · have hFirst : Admission name added (d :: rest) s _ :=
          .refused [] d letters? host hNone ⟨rest, rfl⟩ hAccepted
        rw [List.append_nil] at hFirst
        exact hFirst

/-- The ways in which adding the options and running the hook can end. -/
inductive EnterResult (ext : Extension α) (s : Options (Host α)) : Except ShellError Unit × Options (Host α) → Prop where
  | refused (error : ExtensionError) (after : Options (Host α))
      (hRefused : Admission ext.name [] ext.options s (.error error, after)) :
      EnterResult ext s (.error error.toShellError, after)
  | failed (hAccepted : s.registry.accepted ext.options = ext.options) (error : ShellError)
      (entered : Options (Host α)) (hHook : ext.onLoad (s.addEach ext.options) = some (.error error, entered))
      (letters? : Option (List Char)) (host : Host α) :
      EnterResult ext s (.error error,
        { entered with registry := entered.registry.removeEach ext.options, letters?, host })
  | entered (hAccepted : s.registry.accepted ext.options = ext.options) (after : Options (Host α))
      (hHook : ext.onLoad (s.addEach ext.options) = some (.ok (), after)) : EnterResult ext s (.ok (), after)

theorem enterResult_of_run {ext : Extension α} {s : Options (Host α)}
    {result : Except ShellError Unit × Options (Host α)} (hRun : ext.enter s = some result) :
    EnterResult ext s result := by
  obtain ⟨added, hAdded, hAdmission⟩ := exists_run_addAll ext.name [] ext.options s
  change (addAll ext.name [] ext.options s).bind _ = _ at hRun
  rw [hAdded] at hRun
  cases hAdmission with
  | refused accepted d letters? host hAccepted hPrefix hRefused =>
    cases hRun
    exact .refused _ _ (.refused accepted d letters? host hAccepted hPrefix hRefused)
  | complete hAccepted =>
    change (ext.onLoad (s.addEach ext.options)).bind _ = _ at hRun
    cases hHook : ext.onLoad (s.addEach ext.options) with
    | none =>
      rw [hHook] at hRun
      cases hRun
    | some ran =>
      obtain ⟨_ | _, entered⟩ := ran
      · rename_i error
        rw [hHook] at hRun
        obtain ⟨letters?, host, hRemoved⟩ := Options.exists_removeEach_eq ext.options entered
        change some (_, ext.options.foldl (fun s d => (s.remove d).2) entered) = _ at hRun
        rw [hRemoved] at hRun
        cases hRun
        exact .failed hAccepted error entered hHook letters? host
      · rw [hHook] at hRun
        cases hRun
        exact .entered hAccepted entered hHook

end Extension

/-! ## Loading -/

namespace Catalog

variable {catalog : Catalog α} {name : String} {work : Workspace α}

/-- The ways in which loading can end. -/
inductive LoadResult (catalog : Catalog α) (name : String) (work : Workspace α) :
    Except ShellError Unit × Workspace α → Prop where
  | unknown (hFound : catalog.find? name = none) :
      LoadResult catalog name work (.error (ExtensionError.unknown name).toShellError, work)
  | again (ext : Extension α) (hFound : catalog.find? name = some ext) (hLoaded : name ∈ work.loaded) :
      LoadResult catalog name work (.ok (), work)
  | failed (ext : Extension α) (hFound : catalog.find? name = some ext) (hLoaded : name ∉ work.loaded)
      (error : ShellError) (after : Options (Host α))
      (hEntered : ext.EnterResult work.options (.error error, after)) :
      LoadResult catalog name work (.error error, { work with options := after })
  | loaded (ext : Extension α) (hFound : catalog.find? name = some ext) (hLoaded : name ∉ work.loaded)
      (after : Options (Host α)) (hEntered : ext.EnterResult work.options (.ok (), after)) :
      LoadResult catalog name work (.ok (), { work with options := after, loaded := work.loaded ++ [name] })

theorem loadResult_of_run {result : Except ShellError Unit × Workspace α}
    (hRun : (catalog.load name).run work = some result) : LoadResult catalog name work result := by
  rw [load] at hRun
  split at hRun
  · rename_i hFound
    cases hRun
    exact .unknown hFound
  · rename_i ext hFound
    change (ite (work.loaded.contains name = true) _ _ : Action α Unit).run work = _ at hRun
    split at hRun
    · rename_i hLoaded
      cases hRun
      exact .again ext hFound (List.contains_iff_mem.mp hLoaded)
    · rename_i hLoaded
      have hNew : name ∉ work.loaded := fun hMem => hLoaded (List.contains_iff_mem.mpr hMem)
      change ((Action.attempt ext.enter).run work).bind _ = _ at hRun
      rw [Action.run_attempt] at hRun
      cases hEnter : ext.enter work.options with
      | none =>
        rw [hEnter] at hRun
        cases hRun
      | some entered =>
        have hEntered := Extension.enterResult_of_run hEnter
        rw [hEnter] at hRun
        obtain ⟨error | _, after⟩ := entered
        · cases hRun
          exact .failed ext hFound hNew error after hEntered
        · cases hRun
          exact .loaded ext hFound hNew after hEntered

/-! ## Loads that fail -/

/-- The options that a load of this name gets accepted. -/
def acceptedOptions (catalog : Catalog α) (name : String) (r : Registry (Host α)) : List (Definition (Host α)) :=
  (catalog.find? name).elim [] fun ext => r.accepted ext.options

theorem registry_of_failed_enter {ext : Extension α} {s after : Options (Host α)} {error : ShellError}
    (hHook : ∀ s, Allows ext.onLoad s fun _ entered => entered.registry = s.registry)
    (h : ext.EnterResult s (.error error, after)) :
    after.registry = s.registry.removeEach (s.registry.accepted ext.options) := by
  cases h with
  | refused error after hRefused =>
    cases hRefused with
    | refused accepted d letters? host hAccepted hPrefix hRefused =>
      rw [hAccepted]
      exact Registry.removeEach_addEach accepted s.registry
  | failed hAccepted error entered hRun letters? host =>
    change entered.registry.removeEach ext.options = _
    rw [hAccepted, hHook _ _ entered hRun, Options.registry_addEach]
    exact Registry.removeEach_addEach ext.options s.registry

/-- A load that fails removes the options that were accepted before the failure. It leaves no trace exactly if none of
them was registered already. -/
theorem registry_after_failed_load (catalog : Catalog α) (name : String) (work after : Workspace α)
    (error : ShellError)
    (hHook : ∀ ext, catalog.find? name = some ext → ∀ s, Allows ext.onLoad s fun _ entered =>
      entered.registry = s.registry)
    (hRun : (catalog.load name).run work = some (.error error, after)) :
    let r := work.options.registry
    after.loaded = work.loaded ∧ after.options.registry = r.removeEach (catalog.acceptedOptions name r) ∧
      (after.options.registry = r ↔ ∀ d ∈ catalog.acceptedOptions name r, r.holds d = false) := by
  intro r
  have hRemoved : after.loaded = work.loaded ∧
      after.options.registry = r.removeEach (catalog.acceptedOptions name r) := by
    have hResult := loadResult_of_run hRun
    cases hResult with
    | unknown hFound =>
      rw [acceptedOptions, hFound]
      exact ⟨rfl, rfl⟩
    | failed ext hFound hLoaded error after hEntered =>
      rw [acceptedOptions, hFound]
      exact ⟨rfl, registry_of_failed_enter (hHook ext hFound) hEntered⟩
  refine ⟨hRemoved.1, hRemoved.2, ?_⟩
  rw [hRemoved.2]
  exact Registry.removeEach_eq_self_iff

/-- Two new options come and go before a third turns out to have a name that is taken. -/
theorem registry_after_failed_load_of_taken_name :
    let taken : Definition (Host Unit) := { id := 0, name? := some "taken" }
    let options : List (Definition (Host Unit)) :=
      [{ id := 1, name? := some "fresh", letter? := some 'f' }, { id := 2, letter? := some 'g' },
        { id := 3, name? := some "taken" }]
    let catalog : Catalog Unit := Catalog.add { name := "clash", description := "", options } .empty
    let work : Workspace Unit := { options := { registry := (Registry.empty.add taken).2, host := { user := () } } }
    (∀ ext, catalog.find? "clash" = some ext → ∀ s, Allows ext.onLoad s fun _ entered =>
      entered.registry = s.registry) ∧
      ∃ error after, (catalog.load "clash").run work = some (.error error, after) ∧
        after.options.registry = work.options.registry := by
  intro taken options catalog work
  have hHook : ∀ ext, catalog.find? "clash" = some ext → ∀ s, Allows ext.onLoad s fun _ entered =>
      entered.registry = s.registry := by
    intro ext hFound s _ _ hRun
    cases hFound
    cases hRun
    rfl
  have hFails : ((catalog.load "clash").run work).any (fun result => result.1.toOption.isNone &&
      result.2.loaded.isEmpty) = true := by decide +kernel
  obtain ⟨error, after, hRun, -⟩ := Action.exists_error_of_any hFails
  refine ⟨hHook, error, after, hRun, ?_⟩
  refine (registry_after_failed_load catalog "clash" work after error hHook hRun).2.2.mpr ?_
  decide +kernel

/-- An option of a loaded extension goes when another extension brings it along and cannot be loaded. -/
theorem shared_option_lost_in_failed_load :
    let taken : Definition (Host Unit) := { id := 0, name? := some "taken" }
    let shared : Definition (Host Unit) := { id := 1, name? := some "x", letter? := some 'x' }
    let clash : Definition (Host Unit) := { id := 2, name? := some "taken" }
    let first : Extension Unit := { name := "first", description := "", options := [shared] }
    let second : Extension Unit := { name := "second", description := "", options := [shared, clash] }
    let catalog : Catalog Unit := Catalog.add second (Catalog.add first .empty)
    let work : Workspace Unit := { options := { registry := (Registry.empty.add taken).2, host := { user := () } } }
    ∃ loaded error after, (catalog.load "first").run work = some (.ok (), loaded) ∧
      (catalog.load "second").run loaded = some (.error error, after) ∧
      loaded.options.registry.entries.map (·.id) = [0, 1] ∧ loaded.options.registry.letters = ['x'] ∧
      after.options.registry.entries.map (·.id) = [0] ∧ after.options.registry.letters = [] := by
  intro taken shared clash first second catalog work
  have hLoads : ((catalog.load "first").run work).any (fun loaded => loaded.1.toOption.isSome &&
      (loaded.2.options.registry.entries.map (·.id) = [0, 1] && loaded.2.options.registry.letters = ['x'] &&
        ((catalog.load "second").run loaded.2).any fun after => after.1.toOption.isNone &&
          (after.2.options.registry.entries.map (·.id) = [0] && after.2.options.registry.letters = []))) = true := by
    decide +kernel
  obtain ⟨_, loaded, hFirst, hLoads⟩ := Action.exists_ok_of_any hLoads
  rw [Bool.and_eq_true, Bool.and_eq_true, decide_eq_true_eq, decide_eq_true_eq] at hLoads
  obtain ⟨error, after, hSecond, hLost⟩ := Action.exists_error_of_any hLoads.2
  rw [Bool.and_eq_true, decide_eq_true_eq, decide_eq_true_eq] at hLost
  exact ⟨loaded, error, after, hFirst, hSecond, hLoads.1.1, hLoads.1.2, hLost.1, hLost.2⟩

end Catalog

end OptionShell
