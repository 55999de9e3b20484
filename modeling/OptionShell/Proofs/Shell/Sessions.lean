import OptionShell.Proofs.Shell.Reachable
import OptionShell.Shell.Terminal

/-!
# Sessions

A session runs a command string or a stream of bytes line by line, and then cleans up. Whatever each line keeps of a
shell, the whole input keeps. What a line does depends on its text and on what earlier lines have left in the options,
the variables, the loaded extensions and the last status.
-/
namespace OptionShell

namespace Shell

/-- Every line that has a result keeps the property. -/
def KeptByLines (P : Shell → Prop) : Prop :=
  ∀ shell line result last, P shell → shell.submit line = some (result, last) → P last

/-- The same shells, but for what the last line has left open and reported. -/
structure Alike (shell other : Shell) : Prop where
  /-- The variables are part of the options. -/
  options : other.options = shell.options
  loaded : other.session.loaded = shell.session.loaded
  lastStatus : other.session.lastStatus = shell.session.lastStatus
  stateLetters : other.session.stateLetters = shell.session.stateLetters
  prompt : other.prompt = shell.prompt

variable {shell other third : Shell}

theorem Alike.refl (shell : Shell) : Alike shell shell := ⟨rfl, rfl, rfl, rfl, rfl⟩

theorem Alike.trans (h : Alike shell other) (h' : Alike other third) : Alike shell third :=
  ⟨h'.options.trans h.options, h'.loaded.trans h.loaded, h'.lastStatus.trans h.lastStatus,
    h'.stateLetters.trans h.stateLetters, h'.prompt.trans h.prompt⟩

theorem Alike.freshLine (h : Alike shell other) (line : String) : other.freshLine line = shell.freshLine line := by
  obtain ⟨hOptions, hLoaded, hStatus, hLetters, -⟩ := h
  have hSame : other.session.options = shell.session.options := hOptions
  rw [Shell.freshLine, Shell.freshLine, hSame]
  cases hShell : shell.session with
  | mk work status =>
    cases hOther : other.session with
    | mk work' status' =>
      cases work
      cases work'
      simp_all [Shell.options]

/-- A line does the same to both. -/
theorem Alike.submit_eq (h : Alike shell other) (line : String) : other.submit line = shell.submit line := by
  rw [Shell.submit, Shell.submit, h.freshLine]
  cases shell
  cases other
  cases h.prompt
  rfl

theorem exit?_of_submit {line : String} {result : LineResult} (h : shell.submit line = some (result, other)) :
    other.session.exit? = result.exit? := by
  obtain ⟨ran, -, hSame⟩ := Option.bind_eq_some_iff.mp h
  cases hSame
  rfl

/-- Runs lines up to the first that stops the shell: the status of the last of them, and the shell after it. -/
def runLines (status : Int32) (shell : Shell) : List String → Option (Int32 × Shell)
  | [] => some (status, shell)
  | line :: rest =>
    (shell.submit line).bind fun ran =>
      match ran.1.exit? with
      | some status => some (status, ran.2)
      | none => runLines ran.1.status ran.2 rest

end Shell

namespace Terminal

variable {terminal after : Terminal} {status : Int32}

@[simp] theorem shell_showPrompt (interactive : Bool) (terminal : Terminal) :
    (terminal.showPrompt interactive).shell = terminal.shell := by
  rw [showPrompt]
  split <;> rfl

theorem shell_complainAll (lines : List String) (terminal : Terminal) :
    (lines.foldl (fun terminal line => terminal.complain line) terminal).shell = terminal.shell := by
  induction lines generalizing terminal with
  | nil => rfl
  | cons line rest ih => exact ih (terminal.complain line)

@[simp] theorem shell_present (result : LineResult) (terminal : Terminal) :
    (terminal.present result).shell = terminal.shell := by
  have hDiagnosed := shell_complainAll result.diagnostics terminal
  rw [present]
  split
  · split
    · exact hDiagnosed
    · exact hDiagnosed
  · exact hDiagnosed

/-! ## Input as lines -/

theorem submit_eq (terminal : Terminal) (line : String) : terminal.submit line =
    (terminal.shell.submit line).map fun ran => (ran.1.progress, { terminal with shell := ran.2 }.present ran.1) := by
  rw [submit]
  cases terminal.shell.submit line <;> rfl

/-- What lines do to the shell does not depend on the terminal. -/
theorem submitAll_runLines (status : Int32) (terminal : Terminal) (lines : List String) :
    (submitAll status terminal lines).map (fun ran => (ran.1, ran.2.shell)) =
      terminal.shell.runLines status lines := by
  induction lines generalizing status terminal with
  | nil => rfl
  | cons line rest ih =>
    rw [submitAll, submit_eq, Shell.runLines]
    cases terminal.shell.submit line with
    | none => rfl
    | some ran =>
      obtain ⟨result, shell⟩ := ran
      simp only [Option.map_some, Option.bind_some, bind, LineResult.progress]
      cases result.exit? with
      | some status => simp
      | none => simp [ih]

/-- The same holds of a stream that can be read. -/
theorem runStream_runLines (interactive : Bool) (status : Int32) (terminal : Terminal) {pieces : List (List UInt8)}
    {lines : List String} (hRead : pieces.map decodeLine = lines.map .ok) :
    (runStream interactive status terminal pieces).map (fun ran => (ran.1, ran.2.shell)) =
      (terminal.shell.runLines status lines).map fun ran => (.ok ran.1, ran.2) := by
  induction pieces generalizing lines status terminal with
  | nil =>
    obtain rfl := List.map_eq_nil_iff.mp hRead.symm
    simp [runStream, Shell.runLines]
  | cons bytes rest ih =>
    cases lines with
    | nil => cases hRead
    | cons line lines =>
      obtain ⟨hLine, hRest⟩ := List.cons.inj hRead
      rw [runStream, feed, hLine, Shell.runLines]
      dsimp only
      rw [submit_eq, shell_showPrompt]
      cases terminal.shell.submit line with
      | none => rfl
      | some ran =>
        obtain ⟨result, shell⟩ := ran
        simp only [Option.map_some, Option.bind_some, bind, LineResult.progress]
        cases result.exit? with
        | some status => simp
        | none => simp [ih _ _ hRest]

/-- A stream that can be read and is not prompted for runs like a list of lines. -/
theorem runStream_of_readable (status : Int32) (terminal : Terminal) {pieces : List (List UInt8)}
    {lines : List String} (hRead : pieces.map decodeLine = lines.map .ok) :
    runStream false status terminal pieces = (submitAll status terminal lines).map fun ran => (.ok ran.1, ran.2) := by
  induction pieces generalizing lines status terminal with
  | nil =>
    obtain rfl := List.map_eq_nil_iff.mp hRead.symm
    rfl
  | cons bytes rest ih =>
    cases lines with
    | nil => cases hRead
    | cons line lines =>
      obtain ⟨hLine, hRest⟩ := List.cons.inj hRead
      rw [runStream, showPrompt, if_neg Bool.false_ne_true, feed, hLine, submitAll]
      dsimp only
      cases terminal.submit line with
      | none => rfl
      | some ran =>
        obtain ⟨progress, mid⟩ := ran
        cases progress with
        | stopped status => rfl
        | running status => exact ih status mid hRest

/-- What a session runs before it cleans up. -/
def runInput (terminal : Terminal) (command? : Option String) (input : List UInt8) (interactive : Bool) :
    Option (Except ReadError Int32 × Terminal) :=
  match command? with
  | some command => (terminal.runScript command).map fun ran => (.ok ran.1, ran.2)
  | none => terminal.runBytes input interactive

theorem serve_eq (terminal : Terminal) (command? : Option String) (input : List UInt8) (interactive : Bool) :
    terminal.serve command? input interactive =
      (terminal.runInput command? input interactive).bind fun ran => ran.2.close.map fun last => (ran.1, last) := by
  have hClose : ∀ ran : Except ReadError Int32 × Terminal,
      (do return (ran.1, ← ran.2.close) : Option (Except ReadError Int32 × Terminal)) =
        ran.2.close.map fun last => (ran.1, last) := fun ran => by cases ran.2.close <;> rfl
  cases command? with
  | some command =>
    change ((terminal.runScript command).map _).bind _ = _
    simp only [hClose]
    rfl
  | none =>
    change (terminal.runBytes input interactive).bind _ = _
    simp only [hClose]
    rfl

/-! ## What lines keep -/

section Kept

variable {P : Shell → Prop}

theorem kept_submit (hKept : Shell.KeptByLines P) (h : P terminal.shell) {line : String} {progress : Progress}
    (hRun : terminal.submit line = some (progress, after)) : P after.shell := by
  obtain ⟨⟨result, last⟩, hSubmit, hSame⟩ := Option.bind_eq_some_iff.mp hRun
  cases hSame
  rw [shell_present]
  exact hKept _ line result last h hSubmit

theorem kept_submitAll (hKept : Shell.KeptByLines P) {lines : List String} (h : P terminal.shell) {last : Int32}
    (hRun : submitAll status terminal lines = some (last, after)) : P after.shell := by
  induction lines generalizing status terminal with
  | nil =>
    cases hRun
    exact h
  | cons line rest ih =>
    obtain ⟨⟨progress, mid⟩, hLine, hRest⟩ := Option.bind_eq_some_iff.mp hRun
    have hMid := kept_submit hKept h hLine
    cases progress with
    | running status => exact ih hMid hRest
    | stopped status =>
      cases hRest
      exact hMid

theorem kept_feed (hKept : Shell.KeptByLines P) {bytes : List UInt8} (h : P terminal.shell)
    {result : Except ReadError Progress} (hRun : terminal.feed bytes = some (result, after)) : P after.shell := by
  rw [feed] at hRun
  split at hRun
  · cases hRun
    exact h
  · obtain ⟨⟨progress, mid⟩, hLine, hSame⟩ := Option.map_eq_some_iff.mp hRun
    cases hSame
    exact kept_submit hKept h hLine

theorem kept_runStream (hKept : Shell.KeptByLines P) {interactive : Bool} {pieces : List (List UInt8)}
    (h : P terminal.shell) {result : Except ReadError Int32}
    (hRun : runStream interactive status terminal pieces = some (result, after)) : P after.shell := by
  induction pieces generalizing status terminal with
  | nil =>
    cases hRun
    rw [shell_showPrompt]
    exact h
  | cons bytes rest ih =>
    obtain ⟨⟨fed, mid⟩, hFeed, hRest⟩ := Option.bind_eq_some_iff.mp hRun
    have hMid : P mid.shell := by
      refine kept_feed hKept ?_ hFeed
      rw [shell_showPrompt]
      exact h
    match fed with
    | .ok (.running status) => exact ih hMid hRest
    | .ok (.stopped status) =>
      cases hRest
      exact hMid
    | .error error =>
      cases hRest
      exact hMid

/-- What every line keeps, a whole session keeps up to its end. -/
theorem kept_runInput (hKept : Shell.KeptByLines P) {command? : Option String} {input : List UInt8}
    {interactive : Bool} (h : P terminal.shell) {result : Except ReadError Int32}
    (hRun : terminal.runInput command? input interactive = some (result, after)) : P after.shell := by
  cases command? with
  | some command =>
    obtain ⟨⟨status, last⟩, hScript, hSame⟩ := Option.map_eq_some_iff.mp hRun
    cases hSame
    exact kept_submitAll hKept h hScript
  | none => exact kept_runStream hKept h hRun

end Kept

end Terminal

end OptionShell
