import OptionShell.Proofs.Shell.Loading
import OptionShell.Proofs.Shell.Start

/-!
# What a new shell inherits

Which options are on in a new shell that inherits from its environment. The settings run while the variables of the
rosters are already kept up to date, so a setting that turns on an option of a roster rewrites the variable of the
roster before it is read.
-/
namespace OptionShell

namespace Shell

variable {config : Config} {arguments : Arguments} {environ : List (String × String)} {shell : Shell}

theorem exists_of_run_attempt_ok {α : Type} {w after : Workspace Unit}
    {change : Update (Host Unit) (Except ShellError α)} {answer : α}
    (h : (Action.attempt change).run w = some (.ok answer, after)) :
    ∃ options, change w.options = some (.ok answer, options) ∧ after = { w with options } := by
  obtain ⟨result, mid, hChange, hAnswer⟩ := exists_of_run_bind_ok h
  rw [Action.run_update] at hChange
  obtain ⟨⟨first, options⟩, hRun, hSame⟩ := Option.map_eq_some_iff.mp hChange
  cases hSame
  cases first with
  | error error => cases hAnswer
  | ok first =>
    cases hAnswer
    exact ⟨options, hRun, rfl⟩

/-- A start that succeeds sets the options, loads the extensions and hands the workspace over. -/
theorem exists_run_start (hStart : Shell.start config arguments environ = some (.ok shell)) :
    ∃ options work, startOptions config arguments (blankOptions environ) = some (.ok (), options) ∧
      (config.extensions.forM catalog.load).run { options } = some (.ok (), work) ∧
      shell.session = { work with stateLetters := if arguments.command?.isSome then "c" else "s" } := by
  rw [Shell.start] at hStart
  obtain ⟨⟨result, work⟩, hAction, hShell⟩ := Option.bind_eq_some_iff.mp hStart
  have hResult := Option.some.inj hShell
  cases result with
  | error error => cases hResult
  | ok answer =>
    obtain ⟨first, mid, hAttempt, hLoads⟩ := exists_of_run_bind_ok hAction
    obtain ⟨options, hRun, rfl⟩ := exists_of_run_attempt_ok hAttempt
    cases hResult
    exact ⟨options, work, hRun, hLoads, rfl⟩

theorem exists_started (hStart : Shell.start config arguments environ = some (.ok shell)) :
    ∃ options, Started config arguments environ options ∧ LoadSteps options shell.options ∧
      shell.session.scopes = [] := by
  obtain ⟨options, work, hRun, hLoads, hSession⟩ := exists_run_start hStart
  have hStarted := (ensures_startOptions config arguments environ).allows _ options hRun rfl
  have hLeads : Leads Loads (config.extensions.forM catalog.load).run { options } :=
    Leads.each (fun name _ w => loads_load name w) _
  obtain ⟨hSteps, hSame⟩ := hLeads _ _ hLoads
  refine ⟨options, hStarted, ?_, ?_⟩
  · rw [Shell.options, hSession]
    exact hSteps
  · rw [hSession, hSame]

/-- A standard option is on in a new shell if the last setting about it turns it on or if it is inherited. -/
theorem enabled_iff_of_start (hStart : Shell.start config arguments environ = some (.ok shell))
    {d : Definition (Host Unit)} (hd : d ∈ standardOptions) (hCell : d.cell?.isSome) {name : String}
    (hName : d.name? = some name) : shell.options.enabled name = true ↔
      Setting.lastOn d (settingsOf config arguments) = true ∨ Inherits config arguments environ d := by
  obtain ⟨options, hStarted, hLoads, -⟩ := exists_started hStart
  obtain ⟨cell, hCell⟩ := Option.isSome_iff_exists.mp hCell
  rw [← hStarted.values d hd cell hCell, Options.enabled,
    (sound_of_loadSteps hLoads hStarted.sound).valueNamed_eq_read hd hName hCell, Option.any_some,
    decide_eq_true_eq, read_of_loadSteps hLoads hStarted.sound (cell_lt_size hd hCell)]

/-- A shell that inherits: an option of a roster is on if the last setting about it turns it on, or if the environment
names it on the roster and no setting turns on any option of the roster. -/
theorem inherited_option_on_iff (config : Config) (arguments : Arguments) (environ : List (String × String))
    (shell : Shell) (hInheriting : config.inheriting = true) (hEnvironment : arguments.ignoreEnvironment = false)
    (hStart : Shell.start config arguments environ = some (.ok shell)) (roster : Roster)
    (d : Definition (Host Unit)) (hd : d ∈ standardOptions) (hMirrored : roster.mirrors d = true) (name : String)
    (hName : d.name? = some name) (hPrivileged : name ≠ "privileged") (hLogin : name ≠ "login_shell") :
    shell.options.enabled name = true ↔
      Setting.lastOn d (settingsOf config arguments) = true ∨
        name ∈ inheritedFrom environ roster ∧ ¬Touched roster (settingsOf config arguments) := by
  have hCells : ∀ d ∈ standardOptions, d.cell?.isSome ∨ d.name? = some "login_shell" := by decide
  have hCell : d.cell?.isSome := (hCells d hd).resolve_right fun hOwn =>
    hLogin (Option.some.inj (hName.symm.trans hOwn))
  rw [enabled_iff_of_start hStart hd hCell hName]
  refine or_congr_right ⟨?_, ?_⟩
  · rintro ⟨-, -, -, other, hOther, hUntouched, own, hListed, hOwn⟩
    obtain rfl := eq_of_mirrors hd hMirrored hOther
    rw [hName, Option.some.injEq] at hOwn
    exact ⟨hOwn ▸ hListed, hUntouched⟩
  · rintro ⟨hListed, hUntouched⟩
    refine ⟨hInheriting, hEnvironment, ?_, roster, hMirrored, hUntouched, name, hListed, hName⟩
    rintro rfl
    exact hPrivileged (Option.some.inj hName).symm

theorem exists_of_any_start {p : Shell → Bool}
    (h : ((Shell.start config arguments environ).bind Except.toOption).any p = true) :
    ∃ shell, Shell.start config arguments environ = some (.ok shell) ∧ p shell = true := by
  obtain ⟨shell, hShell, hp⟩ := (Option.any_eq_true _ _).mp h
  obtain ⟨result, hStart, hResult⟩ := Option.bind_eq_some_iff.mp hShell
  cases result with
  | error error => cases hResult
  | ok started =>
    cases hResult
    exact ⟨shell, hStart, hp⟩

/-- Without settings an inherited option is on. -/
theorem inherited_option_on_without_settings :
    ∃ shell, Shell.start {} {} [("SHELLOPTS", "noglob")] = some (.ok shell) ∧
      shell.options.enabled "noglob" = true := by
  have hStarts : ((Shell.start {} {} [("SHELLOPTS", "noglob")]).bind Except.toOption).any (fun _ => true) = true := by
    decide +kernel
  obtain ⟨shell, hStart, -⟩ := exists_of_any_start hStarts
  have hMem : ∃ d ∈ standardOptions, d.name? = some "noglob" ∧ Roster.shellopts.mirrors d = true :=
    ⟨standardOptions[2], List.getElem_mem _, rfl, rfl⟩
  obtain ⟨d, hd, hName, hMirrored⟩ := hMem
  refine ⟨shell, hStart, ?_⟩
  refine (inherited_option_on_iff {} {} _ shell rfl rfl hStart .shellopts d hd hMirrored "noglob" hName (by decide)
    (by decide)).mpr (.inr ⟨?_, touched_nil _⟩)
  decide +kernel

/-- A setting that turns on `xtrace` makes the shell forget that the environment names `noglob`. -/
theorem inherited_option_lost :
    ∃ shell, Shell.start {} { settings := [.letter 'x' true] } [("SHELLOPTS", "noglob")] = some (.ok shell) ∧
      "noglob" ∈ inheritedFrom [("SHELLOPTS", "noglob")] .shellopts ∧ shell.options.enabled "noglob" = false := by
  have hLost : ((Shell.start {} { settings := [.letter 'x' true] } [("SHELLOPTS", "noglob")]).bind
      Except.toOption).any (fun shell => !shell.options.enabled "noglob") = true := by decide +kernel
  obtain ⟨shell, hStart, hOff⟩ := exists_of_any_start hLost
  exact ⟨shell, hStart, by decide +kernel, by simpa using hOff⟩

end Shell

end OptionShell
