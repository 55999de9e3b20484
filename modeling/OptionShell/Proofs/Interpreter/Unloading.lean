import OptionShell.Proofs.Interpreter.LoadedRosters
import OptionShell.Proofs.Options.RosterCoherence

/-!
# Unloading

While an extension is loaded, the variable of a roster can lag behind: it holds the text of the roster, or the text
that the roster would have without the options of the extension. Setting and removing options keep this up, so when
the options of the extension are gone the variables are right again.
-/
namespace OptionShell

variable {σ : Type} [HostVariables σ]

namespace Options

/-- The variable of each roster holds its text, or the text that it would have over the registry `base`. -/
structure Trailing (defs : Set (Definition σ)) (base : Registry σ) (s : Options σ) : Prop where
  attached : s.attached = true
  within : s.registry.Within defs
  shows : ∀ roster, s.Shows roster ∨ Shows roster { s with registry := base }

variable {defs : Set (Definition σ)} {base : Registry σ} {s after : Options σ} {d : Definition σ} {roster : Roster}

theorem Spared.shows (h : Spared defs s after) (hLive : ∀ e ∈ s.registry.entries, e ∈ defs) (hShows : s.Shows roster) :
    after.Shows roster :=
  hShows.congr (h.shown roster) (h.rosterText_eq hLive roster)

/-- Sparing the options does not depend on which of them are registered. -/
theorem Spared.over (h : Spared defs s after) (base : Registry σ) :
    Spared defs { s with registry := base } { after with registry := base } := by
  refine ⟨?_, h.shown, h.read⟩
  obtain ⟨host, rfl⟩ := h.host
  exact ⟨host, rfl⟩

variable [LawfulHostVariables σ]

/-- A refresh makes up for the lag of the rosters that list the option. -/
theorem shows_or_shows_over_refreshFor (hAttached : s.attached = true) (hDetermined : s.Determined roster)
    (hBase : Determined roster { s with registry := base })
    (h : roster.mirrors d = false → s.Shows roster ∨ Shows roster { s with registry := base }) :
    (s.refreshFor d).Shows roster ∨ Shows roster { s.refreshFor d with registry := base } := by
  cases hMirrored : roster.mirrors d with
  | true =>
    refine .inl (shows_refreshFor hAttached hDetermined fun hOut => ?_)
    rw [hMirrored] at hOut
    cases hOut
  | false =>
    refine (h hMirrored).imp (fun hShows => shows_refreshFor hAttached hDetermined fun _ => hShows) fun hShows => ?_
    refine hShows.congr ?_ ?_
    · change (HostVariables.lookup (s.refreshFor d).host roster.varName).map (·.value) = _
      rw [lookup_refreshFor hMirrored]
      rfl
    · obtain ⟨f, hf⟩ := refreshFor_eq_mapHost d s
      rw [hf]
      exact rosterText_mapHost hBase f

namespace Trailing

omit [LawfulHostVariables σ] in
theorem spared (hBase : base.Within defs) (h : Trailing defs base s) (hSpared : Spared defs s after) :
    Trailing defs base after := by
  have hShows : ∀ roster, after.Shows roster ∨ Shows roster { after with registry := base } := fun roster =>
    (h.shows roster).imp (hSpared.shows h.within.live) ((hSpared.over base).shows hBase.live)
  obtain ⟨host, rfl⟩ := hSpared.host
  exact ⟨h.attached, h.within, hShows⟩

theorem setResult (hOwn : OwnCells defs) (hBase : base.Within defs) (h : Trailing defs base s) (hd : d ∈ defs)
    {admitted : Bool} {value : Int32} {outcome : Outcome} (hResult : SetResult d admitted value s (outcome, after)) :
    Trailing defs base after := by
  have hShows : ∀ roster, after.Shows roster ∨ Shows roster { after with registry := base } := by
    intro roster
    cases hResult with
    | kept outcome hOutcome hKept => exact h.shows roster
    | same cell hAdmitted hCell hValue =>
      exact (h.shows roster).imp (·.writeCell_same (hOwn.determined h.within roster) hValue)
        (·.writeCell_same (s := { s with registry := base }) (hOwn.determined hBase roster) hValue)
    | changed cell hAdmitted hCell hValue =>
      refine shows_or_shows_over_refreshFor h.attached (hOwn.determined h.within roster)
        (hOwn.determined hBase roster) fun hOut => ?_
      exact (h.shows roster).imp (·.congr rfl (hOwn.rosterText_writeCell h.within hd hCell value hOut))
        (·.congr rfl (hOwn.rosterText_writeCell (s := { s with registry := base }) hBase hd hCell value hOut))
  obtain ⟨storage, host, rfl⟩ := hResult.exists_eq
  exact ⟨h.attached, h.within, hShows⟩

theorem remove (hOwn : OwnCells defs) (hBase : base.Within defs) (h : Trailing defs base s) (hd : d ∈ defs) :
    Trailing defs base (s.remove d).2 := by
  have hShows : ∀ roster, (s.remove d).2.Shows roster ∨ Shows roster { (s.remove d).2 with registry := base } := by
    intro roster
    obtain hShown | hLagging := h.shows roster
    · exact .inl (hShown.remove hOwn h.within h.attached hd)
    -- The text over `base` stays the same, so the variable lags on unless the removal refreshes it.
    · rw [Options.remove]
      split
      · dsimp only
        split
        · exact shows_or_shows_over_refreshFor h.attached
            (hOwn.determined (s := { s with registry := s.registry.remove d }) (h.within.remove d) roster)
            (hOwn.determined hBase roster) fun _ => .inr hLagging
        · exact .inr hLagging
      · exact .inr hLagging
  obtain ⟨host, hRemoved⟩ := exists_remove_eq d s
  rw [hRemoved] at hShows ⊢
  exact ⟨h.attached, h.within.remove d, hShows⟩

theorem removeEach (hOwn : OwnCells defs) (hBase : base.Within defs) {items : List (Definition σ)}
    (hItems : ∀ d ∈ items, d ∈ defs) (h : Trailing defs base s) :
    Trailing defs base (items.foldl (fun s d => (s.remove d).2) s) := by
  induction items generalizing s with
  | nil => exact h
  | cons d rest ih =>
    obtain ⟨hd, hRest⟩ := List.forall_mem_cons.mp hItems
    exact ih hRest (h.remove hOwn hBase hd)

theorem setInvariant (hPlain : Plain defs) (hBase : base.Within defs) (current : Registry σ) :
    SetInvariant defs fun s => Trailing defs base s ∧ s.registry = current where
  within _ h := h.1.within
  set d hd why value s h :=
    (ensures_set (hPlain.noSetter d hd) why value s).mono fun _ after hResult => by
      refine ⟨h.1.setResult (ownCells_of_plain hPlain) hBase hd hResult, ?_⟩
      obtain ⟨storage, host, rfl⟩ := hResult.exists_eq
      exact h.2

end Trailing

end Options

/-! ## Leaving and unloading -/

variable {α : Type} {defs : Set (Definition (Host α))} {base : Registry (Host α)} {ext : Extension α}
  {s : Options (Host α)}

open Options

theorem Extension.ensures_leave (hPlain : Plain defs) (hBase : base.Within defs)
    (hOptions : ∀ d ∈ ext.options, d ∈ defs) (hHook : ∀ s, Ensures ext.onUnload s fun _ after => s.Spared defs after)
    (h : Trailing defs base s) :
    Ensures ext.leave s fun _ after =>
      Trailing defs base after ∧ after.registry = s.registry.removeEach ext.options := by
  have hSet := Trailing.setInvariant hPlain hBase s.registry
  refine .bind (Q := fun _ mid => Trailing defs base mid ∧ mid.registry = s.registry) ?_ fun _ mid hMid => ?_
  · refine (hHook s).mono fun _ after hSpared => ⟨h.spared hBase hSpared, ?_⟩
    obtain ⟨host, rfl⟩ := hSpared.host
    rfl
  refine .bind (.forEach (I := fun mid => Trailing defs base mid ∧ mid.registry = s.registry)
    (fun d hd mid hMid => ?_) hMid) fun _ mid hMid => ?_
  · split
    · exact .bind (hSet.set d (hOptions d hd) .unload _ mid hMid) fun _ _ hAfter => .pure hAfter
    · exact .pure hMid
  · refine .modify ⟨hMid.1.removeEach (ownCells_of_plain hPlain) hBase hOptions, ?_⟩
    obtain ⟨letters?, host, hRemoved⟩ := exists_removeEach_eq ext.options mid
    rw [hRemoved, ← hMid.2]

namespace Catalog

variable {catalog : Catalog α} {name : String} {work loaded : Workspace α}

theorem run_unload (hFound : catalog.find? name = some ext) (hLoaded : name ∈ work.loaded) :
    (catalog.unload name).run work = (ext.leave work.options).map fun result =>
      (.ok (), { work with options := result.2, loaded := work.loaded.erase name }) := by
  change (ite (work.loaded.contains name = true) _ _ : Action α Unit).run work = _
  rw [if_pos (List.contains_iff_mem.mpr hLoaded), hFound]
  exact Action.run_update ext.leave { work with loaded := work.loaded.erase name }

/-- After a load the rosters trail the registry from before. -/
theorem trailing_of_load (hFound : catalog.find? name = some ext) (hOptions : ∀ d ∈ ext.options, d ∈ defs)
    (hHook : ∀ s, Allows ext.onLoad s fun _ after => s.Spared defs after) (hAttached : work.options.attached = true)
    (hWithin : work.options.registry.Within defs) (hShown : ∀ roster, work.options.Shows roster)
    (hRun : (catalog.load name).run work = some (.ok (), loaded)) :
    Trailing defs work.options.registry loaded.options ∧
      (name ∈ work.loaded ∧ loaded = work ∨
        name ∉ work.loaded ∧ loaded.loaded = work.loaded ++ [name] ∧
          work.options.registry.accepted ext.options = ext.options ∧
          loaded.options.registry = work.options.registry.addEach ext.options) := by
  cases loadResult_of_run hRun with
  | again found hFoundToo hLoaded =>
    exact ⟨⟨hAttached, hWithin, fun roster => .inl (hShown roster)⟩, .inl ⟨hLoaded, rfl⟩⟩
  | loaded found hFoundToo hNew entered hEntered =>
    cases hFound.symm.trans hFoundToo
    cases hEntered with
    | entered hAccepted entered hEntered =>
      obtain ⟨letters?, hState⟩ := exists_addEach_eq ext.options work.options
      have hAdded : Trailing defs work.options.registry (work.options.addEach ext.options) := by
        rw [hState]
        exact ⟨hAttached, hWithin.addEach hOptions, fun roster => .inr (hShown roster)⟩
      have hSpared := hHook _ _ entered hEntered
      refine ⟨hAdded.spared hWithin hSpared, .inr ⟨hNew, rfl, hAccepted, ?_⟩⟩
      obtain ⟨host, hHost⟩ := hSpared.host
      exact (congrArg Options.registry hHost).trans (registry_addEach ext.options work.options)

/-- Setting options between loading an extension and unloading it leaves no trace of the extension. -/
theorem no_trace_after_unload (hPlain : Plain defs) (catalog : Catalog α) (name : String) (ext : Extension α)
    (hFound : catalog.find? name = some ext) (hOptions : ∀ d ∈ ext.options, d ∈ defs)
    (hOnLoad : ∀ s, Allows ext.onLoad s fun _ after => s.Spared defs after)
    (hOnUnload : ∀ s, Ensures ext.onUnload s fun _ after => s.Spared defs after) (work loaded : Workspace α)
    (hAttached : work.options.attached = true) (hConsistent : work.options.registry.Consistent)
    (hWithin : work.options.registry.Within defs) (hNew : ∀ d ∈ ext.options, d ∉ work.options.registry.entries)
    (hShown : ∀ roster, work.options.rosterValue? roster = some (work.options.rosterText roster))
    (hNodup : work.loaded.Nodup) (hLoad : (catalog.load name).run work = some (.ok (), loaded))
    (ops : List (Operation (Host α))) (hSets : ∀ op ∈ ops, op.setsOnly = true)
    (hOps : ∀ op ∈ ops, ∀ d, op.subject? = some d → d ∈ defs) :
    ∃ changed after, Operation.runAll ops loaded.options = some ((), changed) ∧
      (catalog.unload name).run { loaded with options := changed } = some (.ok (), after) ∧
      after.options.registry = work.options.registry ∧ name ∉ after.loaded ∧
      (∀ roster, after.options.rosterValue? roster = some (after.options.rosterText roster)) ∧
      (name ∉ work.loaded → ∀ d ∈ ext.options, ∀ own, d.name? = some own → ∀ roster,
        own ∉ after.options.rosterNames roster) := by
  obtain ⟨hTrailing, hEnds⟩ := trailing_of_load hFound hOptions hOnLoad hAttached hWithin hShown hLoad
  have hRemoved : work.options.registry.removeEach ext.options = work.options.registry := by
    refine Registry.removeEach_eq_self_iff.mpr fun d hd => Bool.eq_false_iff.mpr fun hHeld => ?_
    obtain ⟨e, he, hId⟩ := (Registry.holds_iff hConsistent).mp hHeld
    exact hNew d hd (hPlain.identified e (hWithin.live e he) d (hOptions d hd) hId ▸ he)
  -- The options of the extension are new, so removing them undoes a load and does nothing to the registry before it.
  have hBack : loaded.options.registry.removeEach ext.options = work.options.registry := by
    obtain ⟨-, hSame⟩ | ⟨-, -, -, hRegistry⟩ := hEnds
    · rw [hSame, hRemoved]
    · rw [hRegistry, Registry.removeEach_addEach, hRemoved]
  have hList : name ∈ loaded.loaded ∧ loaded.loaded.Nodup := by
    obtain ⟨hLoaded, hSame⟩ | ⟨hUnloaded, hSame, -⟩ := hEnds
    · rw [hSame]
      exact ⟨hLoaded, hNodup⟩
    · rw [hSame]
      refine ⟨List.mem_append_right _ List.mem_cons_self, ?_⟩
      exact List.concat_eq_append ▸ hNodup.concat hUnloaded
  have hSet := Trailing.setInvariant hPlain hWithin loaded.options.registry
  obtain ⟨_, changed, hRun, hChanged, hRegistry⟩ := hSet.runSettings ops hSets hOps ⟨hTrailing, rfl⟩
  obtain ⟨_, final, hLeave, hFinal, hFinalRegistry⟩ := ext.ensures_leave hPlain hWithin hOptions hOnUnload hChanged
  rw [hRegistry, hBack] at hFinalRegistry
  have hShows : ∀ roster, final.Shows roster := fun roster =>
    (hFinal.shows roster).elim id fun hOver => by
      rw [← hFinalRegistry] at hOver
      exact hOver
  refine ⟨changed, { loaded with options := final, loaded := loaded.loaded.erase name }, hRun, ?_, hFinalRegistry,
    hList.2.not_mem_erase, hShows, ?_⟩
  · have hUnload : (catalog.unload name).run { loaded with options := changed } = _ := run_unload hFound hList.1
    rw [hUnload]
    change (ext.leave changed).map _ = _
    rw [hLeave]
    rfl
  · intro hUnloaded d hd own hOwn roster hListed
    obtain ⟨hLoaded, -⟩ | ⟨-, -, hAccepted, -⟩ := hEnds
    · exact hUnloaded hLoaded
    · obtain ⟨e, he, -, heName⟩ := mem_rosterNames_iff.mp hListed
      rw [hFinalRegistry] at he
      exact Registry.name?_ne_of_accepted hPlain.identified hConsistent hWithin.live hOptions hAccepted hd
        (hNew d hd) hOwn he heName

/-- One option of the extension cannot be turned off, another one has been turned on. -/
theorem no_trace_after_unload_of_stuck_option :
    let flag : Definition (Host Unit) :=
      { id := 0, name? := some "xtrace", letter? := some 'x', cell? := some 0, inShellopts := true }
    let stuck : Definition (Host Unit) :=
      { id := 1, name? := some "stuck", letter? := some 's', cell? := some 1, initial? := some 0, readonly := true,
        inShellopts := true, inBashopts := true }
    let loose : Definition (Host Unit) := { id := 2, name? := some "loose", cell? := some 2, inBashopts := true }
    let defs : Set (Definition (Host Unit)) := {flag, stuck, loose}
    let ext : Extension Unit := { name := "probe", description := "", options := [stuck, loose] }
    let catalog : Catalog Unit := Catalog.add ext .empty
    let vars := (Variables.bind "SHELLOPTS" "xtrace" .empty).bind "BASHOPTS" ""
    let work : Workspace Unit := { options := {
      registry := (Registry.empty.add flag).2, storage := .ofList [1, 1, 0], host := { vars, user := () },
      attached := true } }
    let ops : List (Operation (Host Unit)) := [.setNamed "xtrace" .setO 0, .setNamed "loose" .shopt 1, .set stuck .any 0]
    Plain defs ∧ (∀ d ∈ ext.options, d ∈ defs) ∧ work.options.registry.Consistent ∧
      work.options.registry.Within defs ∧ (∀ d ∈ ext.options, d ∉ work.options.registry.entries) ∧
      (∀ roster, work.options.rosterValue? roster = some (work.options.rosterText roster)) ∧
      (∀ op ∈ ops, ∀ d, op.subject? = some d → d ∈ defs) ∧
      ∃ loaded changed after, (catalog.load "probe").run work = some (.ok (), loaded) ∧
        Operation.runAll ops loaded.options = some ((), changed) ∧
        (catalog.unload "probe").run { loaded with options := changed } = some (.ok (), after) ∧
        after.options.registry = work.options.registry ∧
        ∀ roster, after.options.rosterValue? roster = some (after.options.rosterText roster) := by
  intro flag stuck loose defs ext catalog vars work ops
  have hPlain : Plain defs := by
    constructor
    · rintro d (rfl | rfl | rfl) e (rfl | rfl | rfl) hId
      all_goals first | rfl | cases hId
    · rintro d (rfl | rfl | rfl) <;> rfl
    · rintro d (rfl | rfl | rfl) <;> rfl
    · rintro d (rfl | rfl | rfl) <;> rfl
    · rintro d (rfl | rfl | rfl) e (rfl | rfl | rfl) hCell
      all_goals first | rfl | cases hCell
  have hOptions : ∀ d ∈ ext.options, d ∈ defs := by simp [ext, defs]
  have hConsistent : work.options.registry.Consistent :=
    Registry.consistent_empty.add fun e he => nomatch he
  have hWithin : work.options.registry.Within defs := (Registry.within_empty defs).add (.inl rfl)
  have hNew : ∀ d ∈ ext.options, d ∉ work.options.registry.entries := by
    have hIds : ∀ d ∈ ext.options, ∀ e ∈ work.options.registry.entries, e.id ≠ d.id := by decide +kernel
    exact fun d hd he => hIds d hd d he rfl
  have hHook : ∀ s : Options (Host Unit), s.Spared defs s := fun s => ⟨⟨s.host, rfl⟩, fun _ => rfl, fun _ _ _ _ => rfl⟩
  have hOnLoad : ∀ s, Allows ext.onLoad s fun _ after => s.Spared defs after := by
    intro s _ _ hRun
    cases hRun
    exact hHook s
  have hShown : ∀ roster, work.options.rosterValue? roster = some (work.options.rosterText roster) := by
    intro roster
    cases roster <;> decide +kernel
  have hOps : ∀ op ∈ ops, ∀ d, op.subject? = some d → d ∈ defs := by
    simp [ops, defs, Operation.subject?]
  have hLoads : ((catalog.load "probe").run work).any (fun loaded => loaded.1.toOption.isSome &&
      loaded.2.loaded.contains "probe") = true := by decide +kernel
  obtain ⟨_, loaded, hLoad, -⟩ := Action.exists_ok_of_any hLoads
  obtain ⟨changed, after, hRun, hUnload, hRegistry, -, hShows, -⟩ :=
    no_trace_after_unload hPlain catalog "probe" ext rfl hOptions hOnLoad (fun s => .pure (hHook s)) work loaded rfl
      hConsistent hWithin hNew hShown .nil hLoad ops (by decide) hOps
  exact ⟨hPlain, hOptions, hConsistent, hWithin, hNew, hShown, hOps, loaded, changed, after, hLoad, hRun, hUnload,
    hRegistry, hShows⟩

end Catalog

end OptionShell
