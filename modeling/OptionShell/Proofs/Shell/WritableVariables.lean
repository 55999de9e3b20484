import OptionShell.Proofs.Shell.Cleanup
import OptionShell.Proofs.Shell.Reachable

/-!
# Writable variables

Only refreshing a roster makes a variable read-only. So in every shell all variables but `SHELLOPTS` and `BASHOPTS`
can be assigned, whatever it has run.
-/
namespace OptionShell

namespace Shell

variable {s after : Options (Host Unit)} {d : Definition (Host Unit)} {w final : Workspace Unit} {shell : Shell}

/-- Sound options of a host whose only read-only variables are rosters. -/
structure Writable (s : Options (Host Unit)) : Prop where
  sound : Sound s
  vars : s.host.vars.OnlyRosters

theorem onlyRosters_refresh (h : s.host.vars.OnlyRosters) (roster : Roster) :
    (s.refresh roster).host.vars.OnlyRosters := by
  rw [Options.refresh]
  split
  · exact h.refresh roster _
  · exact h

theorem onlyRosters_refreshFor (h : s.host.vars.OnlyRosters) (d : Definition (Host Unit)) :
    (s.refreshFor d).host.vars.OnlyRosters := by
  have hFirst : (if d.inShellopts then s.refresh .shellopts else s).host.vars.OnlyRosters := by
    split
    · exact onlyRosters_refresh h .shellopts
    · exact h
  rw [Options.refreshFor]
  split
  · exact onlyRosters_refresh hFirst .bashopts
  · exact hFirst

theorem onlyRosters_refreshAll (h : s.host.vars.OnlyRosters) : s.refreshAll.host.vars.OnlyRosters :=
  onlyRosters_refresh (onlyRosters_refresh h .shellopts) .bashopts

namespace Writable

theorem setResult (h : Writable s) {admitted : Bool} {value : Int32} {outcome : Outcome}
    (hResult : Options.SetResult d admitted value s (outcome, after)) : Writable after := by
  refine ⟨h.sound.setResult hResult, ?_⟩
  cases hResult with
  | kept outcome hOutcome hKept => exact h.vars
  | same cell hAdmitted hCell hValue => exact h.vars
  | changed cell hAdmitted hCell hValue => exact onlyRosters_refreshFor (s := s.writeCell cell value) h.vars d

theorem remove (h : Writable s) (hd : d ∈ primeOptions) : Writable (s.remove d).2 := by
  refine ⟨h.sound.remove hd, ?_⟩
  rw [Options.remove]
  split
  · dsimp only
    split
    · exact onlyRosters_refreshFor (s := s.takeOut d) h.vars d
    · exact h.vars
  · exact h.vars

theorem refreshAll (h : Writable s) : Writable s.refreshAll := by
  refine ⟨?_, onlyRosters_refreshAll h.vars⟩
  obtain ⟨f, hf⟩ := Options.refreshAll_eq_mapHost s
  rw [hf]
  exact h.sound.congr rfl rfl

end Writable

theorem setInvariant_writable : SetInvariant Family Writable where
  within _ hs := hs.sound.within
  set _ hd why value _ hs := (ensures_set hd why value hs.sound.nesting).mono fun _ _ hResult => hs.setResult hResult

/-! ## Steps and moves -/

theorem LoadStep.writable (h : LoadStep s after) (hs : Writable s) : Writable after := by
  cases h with
  | add d hd => exact ⟨hs.sound.add (mem_family_of_prime hd), hs.vars⟩
  | remove d hd => exact hs.remove hd
  | setBack d hd value outcome after hRun =>
    exact (setInvariant_writable.set d (mem_family_of_prime hd) .unload value s hs).allows outcome after hRun
  | prime f => exact ⟨hs.sound.congr rfl rfl, hs.vars⟩
  | vars vars hEdit => exact ⟨hs.sound.congr rfl rfl, hs.vars.edit hEdit⟩

theorem writable_of_loadSteps (h : LoadSteps s after) (hs : Writable s) : Writable after := by
  induction h with
  | refl => exact hs
  | tail _ hStep ih => exact hStep.writable ih

theorem Move.writable (h : Move w final) (hw : Writable w.options) : Writable final.options := by
  cases h with
  | set d why value outcome options hFound hWhy hRun =>
    have hd := mem_family_of_finds hw.sound.within hFound
    exact (setInvariant_writable.set d hd why value w.options hw).allows outcome options hRun
  | note d why hLive =>
    obtain ⟨f, hNoted, hVars⟩ := exists_noted_eq_mapHost (hw.sound.within.live d hLive) why w.options
    change Writable (w.options.noted d why)
    rw [hNoted]
    refine ⟨hw.sound.congr rfl rfl, ?_⟩
    change (f w.options.host).vars.OnlyRosters
    rw [hVars]
    exact hw.vars
  | prime f => exact ⟨hw.sound.congr rfl rfl, hw.vars⟩
  | vars vars hEdit => exact ⟨hw.sound.congr rfl rfl, hw.vars.edit hEdit⟩
  | load name result after hRun => exact writable_of_loadSteps (loads_load name w result _ hRun).1 hw
  | unload name result after hRun => exact writable_of_loadSteps (loads_unload name w result _ hRun).1 hw
  | openScope => exact hw
  | saveFlags frame outer hScopes => exact hw
  | closeScope outer hScopes => exact hw
  | restoreFlags saved outer count options hScopes hRun =>
    exact (setInvariant_writable.reinstateFlags saved hw).allows count options hRun
  | aside diagnostics exit? => exact hw

theorem writable_of_moves (h : Moves w final) (hw : Writable w.options) : Writable final.options := by
  induction h with
  | refl => exact hw
  | tail _ hMove ih => exact hMove.writable ih

/-! ## Shells -/

variable {config : Config} {arguments : Arguments} {environ : List (String × String)}

theorem writable_of_startOptions (hRun : startOptions config arguments (blankOptions environ) = some (.ok (), s)) :
    Writable s := by
  obtain ⟨registry, letters?, hAdded, hSound, -⟩ := addTo_blankOptions environ
  refine (setInvariant_writable.startOptions ?_ (fun s hs => ?_) (fun login s hs => ?_) (fun s hs => hs.refreshAll)
    config arguments).allows _ s hRun rfl
  · rw [hAdded]
    exact ⟨rfl, hSound, Variables.onlyRosters_ofEnviron environ⟩
  · exact ⟨hs.sound.congr rfl rfl, hs.vars⟩
  · exact ⟨hs.sound.congr rfl rfl, hs.vars⟩

theorem writable_of_start (hStart : Shell.start config arguments environ = some (.ok shell)) :
    Writable shell.options := by
  obtain ⟨options, work, hRun, hLoads, hSession⟩ := exists_run_start hStart
  have hEffects := leads_loadAll _ _ _ work hLoads
  have hLoaded := writable_of_moves (balanced_of_effects hEffects).moves (writable_of_startOptions hRun)
  rw [Shell.options, hSession]
  exact hLoaded

theorem Reachable.writable (h : Reachable shell) : Writable shell.options := by
  induction h with
  | start config arguments environ shell hStart => exact writable_of_start hStart
  | submit shell last line result h hSubmit ih =>
    have hFresh : Writable (shell.freshLine line).options := ih
    exact writable_of_moves (moves_submit hSubmit) hFresh
  | close shell last h hClose ih => exact writable_of_moves (moves_close hClose) ih

end Shell

end OptionShell
