import OptionShell.Proofs.Shell.Inheritance
import OptionShell.Proofs.Shell.Lines

/-!
# Reachable shells

The start of a shell guards its rosters. Commands, lines and extensions cannot undo that: the variables of the rosters
are read-only for all of them, and whatever changes an option of `SHELLOPTS` refreshes the variable.
-/
namespace OptionShell

namespace Shell

variable {s after : Options (Host Unit)} {w final : Workspace Unit} {shell last : Shell}

/-! ## Steps and moves -/

/-- What reading an option leaves behind is no variable. -/
theorem exists_noted_eq_mapHost {d : Definition (Host Unit)} (hd : d ∈ Family) (why : Access)
    (s : Options (Host Unit)) : ∃ f, s.noted d why = s.mapHost f ∧ (f s.host).vars = s.host.vars := by
  obtain hGetter | rfl | rfl := getter?_cases hd
  · refine ⟨id, ?_, rfl⟩
    rw [Options.noted, hGetter]
    rfl
  · exact ⟨id, rfl, rfl⟩
  · exact ⟨(Prime.isPrimeGetter primeCells).note why s.storage, rfl, rfl⟩

theorem Guarded.varEdit (h : Guarded s) (hSound : Sound s) {vars : Variables} (hEdit : VarEdit s.host.vars vars) :
    Guarded (s.mapHost fun host => { host with vars }) :=
  h.mapHost hSound fun roster => hEdit.keeps_readonly (h.readonly roster)

theorem Guarded.sameVars (h : Guarded s) (hSound : Sound s) {f : Host Unit → Host Unit}
    (hVars : (f s.host).vars = s.host.vars) : Guarded (s.mapHost f) :=
  h.mapHost hSound fun roster => by rw [hVars]; exact ⟨rfl, h.readonly roster⟩

theorem LoadStep.guarded (h : LoadStep s after) (hSound : Sound s) (hs : Guarded s) : Guarded after := by
  cases h with
  | add d hd => exact hs.add hd
  | remove d hd => exact hs.remove hSound (mem_family_of_prime hd)
  | setBack d hd value outcome after hRun =>
    have hFamily := mem_family_of_prime hd
    exact hs.setResult hSound hFamily ((ensures_set hFamily .unload value hSound.nesting).allows outcome after hRun)
  | prime f => exact hs.sameVars hSound rfl
  | vars vars hEdit => exact hs.varEdit hSound hEdit

theorem guarded_of_loadSteps (h : LoadSteps s after) (hSound : Sound s) (hs : Guarded s) : Guarded after := by
  induction h with
  | refl => exact hs
  | tail hSteps hStep ih => exact hStep.guarded (sound_of_loadSteps hSteps hSound) ih

/-- Sound options with guarded rosters. -/
structure Intact (s : Options (Host Unit)) : Prop where
  sound : Sound s
  guarded : Guarded s

theorem setRules_intact : SetRules Family admits Intact where
  within _ hs := hs.sound.within
  consistent _ hs := hs.sound.consistent
  cells _ hd _ he _ hdCell heCell := eq_of_cell?_eq hd he hdCell heCell
  set _ hd why value _ hs := (ensures_set hd why value hs.sound.nesting).mono fun _ _ hResult =>
    ⟨hResult, hs.sound.setResult hResult, hs.guarded.setResult hs.sound hd hResult⟩

theorem Move.guarded (h : Move w final) (hSound : Sound w.options) (hw : Guarded w.options) :
    Guarded final.options := by
  cases h with
  | set d why value outcome options hFound hWhy hRun =>
    have hd := mem_family_of_finds hSound.within hFound
    exact hw.setResult hSound hd ((ensures_set hd why value hSound.nesting).allows outcome options hRun)
  | note d why hLive =>
    obtain ⟨f, hNoted, hVars⟩ := exists_noted_eq_mapHost (hSound.within.live d hLive) why w.options
    change Guarded (w.options.noted d why)
    rw [hNoted]
    exact hw.sameVars hSound hVars
  | prime f => exact hw.sameVars hSound (f := fun host => { host with prime := f host.prime }) rfl
  | vars vars hEdit => exact hw.varEdit hSound hEdit
  | load name result after hRun => exact guarded_of_loadSteps (loads_load name w result _ hRun).1 hSound hw
  | unload name result after hRun => exact guarded_of_loadSteps (loads_unload name w result _ hRun).1 hSound hw
  | openScope => exact hw
  | saveFlags frame outer hScopes => exact hw
  | closeScope outer hScopes => exact hw
  | restoreFlags saved outer count options hScopes hRun =>
    exact ((setRules_intact.setInvariant.reinstateFlags saved ⟨hSound, hw⟩).allows count options hRun).guarded
  | aside diagnostics exit? => exact hw

theorem intact_of_moves (h : Moves w final) (hw : Intact w.options) : Intact final.options := by
  induction h with
  | refl => exact hw
  | tail _ hMove ih => exact ⟨hMove.sound ih.sound, hMove.guarded ih.sound ih.guarded⟩

/-! ## Shells -/

/-- The shells that starts, lines of input and closings lead to. -/
inductive Reachable : Shell → Prop where
  | start (config : Config) (arguments : Arguments) (environ : List (String × String)) (shell : Shell)
      (hStart : Shell.start config arguments environ = some (.ok shell)) : Reachable shell
  | submit (shell last : Shell) (line : String) (result : LineResult) (h : Reachable shell)
      (hSubmit : shell.submit line = some (result, last)) : Reachable last
  | close (shell last : Shell) (h : Reachable shell) (hClose : shell.close = some last) : Reachable last

theorem moves_close (h : shell.close = some last) : Moves shell.session.toWorkspace last.session.toWorkspace := by
  obtain ⟨⟨result, work⟩, hRun, hSame⟩ := Option.bind_eq_some_iff.mp h
  cases hSame
  exact (leads_unloadAll result work hRun).moves

theorem Reachable.intact (h : Reachable shell) : Intact shell.options := by
  induction h with
  | start config arguments environ shell hStart =>
    obtain ⟨options, hStarted, hLoads, -⟩ := exists_started hStart
    exact ⟨sound_of_loadSteps hLoads hStarted.sound, guarded_of_loadSteps hLoads hStarted.sound hStarted.guarded⟩
  | submit shell last line result h hSubmit ih =>
    have hFresh : Intact (shell.freshLine line).options := ih
    exact intact_of_moves (moves_submit hSubmit) hFresh
  | close shell last h hClose ih => exact intact_of_moves (moves_close hClose) ih

theorem Reachable.submitLines {lines : List String} (h : Reachable shell)
    (hLines : shell.submitLines lines = some last) : Reachable last := by
  induction lines generalizing shell with
  | nil =>
    cases hLines
    exact h
  | cons line rest ih =>
    obtain ⟨⟨result, mid⟩, hSubmit, hRest⟩ := Option.bind_eq_some_iff.mp hLines
    exact ih (.submit shell mid line result h hSubmit) hRest

/-- After the start and after each line that a shell has run, the variables of both rosters are there and read-only,
and `SHELLOPTS` holds the text of its roster. -/
theorem rosters_guarded_after_lines (config : Config) (arguments : Arguments) (environ : List (String × String))
    (shell : Shell) (hStart : Shell.start config arguments environ = some (.ok shell)) (lines : List String)
    (last : Shell) (hLines : shell.submitLines lines = some last) :
    (∀ roster : Roster, ∃ var, last.vars.find? roster.varName = some var ∧ var.readonly = true) ∧
      last.vars.value? "SHELLOPTS" = some (last.options.rosterText .shellopts) := by
  have hLast : Guarded last.options :=
    ((Reachable.start config arguments environ shell hStart).submitLines hLines).intact.guarded
  constructor
  · intro roster
    exact (Option.any_eq_true _ _).mp (hLast.readonly roster)
  · exact (rosterValue?_eq .shellopts last.options).symm.trans hLast.shown

/-- Lines that assign and unset the variables, load the extension and fail in a scope that changes flags. -/
theorem rosters_guarded_after_forging :
    ∃ shell last, Shell.start {} { settings := [.letter 'x' true] } [("SHELLOPTS", "noglob")] = some (.ok shell) ∧
      shell.submitLines ["set SHELLOPTS=forged", "unset SHELLOPTS BASHOPTS", "enable -f prime",
        "scope 'local -; set -fe; false'"] = some last ∧
      (∀ roster : Roster, ∃ var, last.vars.find? roster.varName = some var ∧ var.readonly = true) ∧
      last.vars.value? "SHELLOPTS" = some (last.options.rosterText .shellopts) := by
  have hRuns : ((Shell.start {} { settings := [.letter 'x' true] } [("SHELLOPTS", "noglob")]).bind
      Except.toOption).any (fun shell => (shell.submitLines ["set SHELLOPTS=forged", "unset SHELLOPTS BASHOPTS",
        "enable -f prime", "scope 'local -; set -fe; false'"]).isSome) = true := by decide +kernel
  obtain ⟨shell, hStart, hLines⟩ := exists_of_any_start hRuns
  obtain ⟨last, hLines⟩ := Option.isSome_iff_exists.mp hLines
  exact ⟨shell, last, hStart, hLines, rosters_guarded_after_lines {} _ _ shell hStart _ last hLines⟩

end Shell

end OptionShell
