import OptionShell.Proofs.Interpreter.Diagnostics
import OptionShell.Proofs.Shell.EncodedInput

/-!
# Command strings and streams

A command string and a stream of the same text are cut into lines that differ at most in carriage returns at their
ends. Those are trimmed before a line is run, so both forms of the input run alike; only the echo of a line shows them.
-/
namespace OptionShell

open Interpreter

theorem Interpreter.execute_congr {α : Type} (interp : Interpreter α) (depth : Nat) {line other : String}
    (h : Text.trim other.toList = Text.trim line.toList) : interp.execute depth other = interp.execute depth line := by
  cases depth with
  | zero => rfl
  | succ depth => rw [execute, execute, runChain, runChain, h]

/-- The same results, but for the diagnostics. -/
structure LineResult.Alike (result other : LineResult) : Prop where
  output : other.output = result.output
  status : other.status = result.status
  exit? : other.exit? = result.exit?

theorem LineResult.Alike.progress_eq {result other : LineResult} (h : Alike result other) :
    other.progress = result.progress := by
  rw [progress, progress, h.exit?, h.status]

namespace Shell

theorem commandsAppend_interpreter : interpreter.CommandsAppend := by
  have hSuits : catalog.Suits (fun _ => True) (fun _ _ => True) := by
    constructor <;> intros <;> trivial
  exact fun loaded name command hFound args => (composed_command hSuits hFound args).appends

variable {shell : Shell} {line other : String}

/-- The echo of a line, while `verbose` is on. -/
def echo (shell : Shell) (line : String) : List String := if shell.options.enabled "verbose" then [line] else []

/-- The session in which a line starts, without its echo. -/
def silentStart (shell : Shell) : Session Unit := { shell.session with scopes := [], diagnostics := [], exit? := none }

theorem freshLine_eq (shell : Shell) (line : String) :
    shell.freshLine line = shell.silentStart.preceded (shell.echo line) := by
  rw [freshLine, silentStart, Session.preceded, Workspace.preceded, echo]
  simp only [List.append_nil]
  rfl

/-- A line reports its echo first; otherwise it does what its trimmed text says. -/
theorem submit_eq (shell : Shell) (line : String) : shell.submit line =
    ((interpreter.execute scopeDepth line).run shell.silentStart).map fun ran =>
      ({ output := ran.1
         diagnostics := shell.echo line ++ ran.2.diagnostics
         status := statusOf ran.1
         exit? := ran.2.exit? }, { shell with session := ran.2.preceded (shell.echo line) }) := by
  rw [submit, freshLine_eq, appends_execute commandsAppend_interpreter scopeDepth line (shell.echo line)]
  cases (interpreter.execute scopeDepth line).run shell.silentStart <;> rfl

/-- Lines that are equal when they are trimmed have results that differ in the echo only. -/
theorem submit_of_trim_eq (h : Text.trim other.toList = Text.trim line.toList) :
    Option.Rel (fun ran ran' => LineResult.Alike ran.1 ran'.1 ∧ Alike ran.2 ran'.2) (shell.submit line)
      (shell.submit other) := by
  rw [submit_eq, submit_eq, interpreter.execute_congr scopeDepth h]
  cases (interpreter.execute scopeDepth line).run shell.silentStart with
  | none => exact .none
  | some ran => exact .some ⟨⟨rfl, rfl, rfl⟩, rfl, rfl, rfl, rfl, rfl⟩

end Shell

namespace Terminal

open Shell (Alike)

variable {terminal other : Terminal}

/-- What a result shows on the standard output. -/
def shownText : Except ShellError Output → String
  | .ok output => if output.lines.isEmpty then "" else output.lines ++ "\n"
  | .error _ => ""

theorem stdout_complainAll (lines : List String) (terminal : Terminal) :
    (lines.foldl (fun terminal line => terminal.complain line) terminal).stdout = terminal.stdout := by
  induction lines generalizing terminal with
  | nil => rfl
  | cons line rest ih => exact ih (terminal.complain line)

theorem stdout_present (result : LineResult) (terminal : Terminal) :
    (terminal.present result).stdout = terminal.stdout ++ shownText result.output := by
  have hDiagnosed := stdout_complainAll result.diagnostics terminal
  rw [present]
  cases result.output with
  | ok output =>
    rw [shownText]
    dsimp only
    split
    · rw [hDiagnosed, String.append_empty]
    · exact congrArg (· ++ (output.lines ++ "\n")) hDiagnosed
  | error error => exact hDiagnosed.trans String.append_empty.symm

/-- The same output, and shells in which lines do the same. -/
structure RunsLike (terminal other : Terminal) : Prop where
  stdout : other.stdout = terminal.stdout
  shell : Alike terminal.shell other.shell

theorem RunsLike.submit (h : RunsLike terminal other) {line line' : String}
    (hLine : Text.trim line'.toList = Text.trim line.toList) :
    Option.Rel (fun ran ran' => ran'.1 = ran.1 ∧ RunsLike ran.2 ran'.2) (terminal.submit line)
      (other.submit line') := by
  rw [submit_eq, submit_eq, h.shell.submit_eq, rel_map_iff]
  refine rel_mono (Shell.submit_of_trim_eq hLine) fun ran ran' hRan => ?_
  obtain ⟨hResult, hShells⟩ := hRan
  refine ⟨hResult.progress_eq, ?_, ?_⟩
  · rw [stdout_present, stdout_present, hResult.output, h.stdout]
  · rw [shell_present, shell_present]
    exact hShells

theorem RunsLike.submitAll (h : RunsLike terminal other) (status : Int32) {lines lines' : List String}
    (hLines : List.Forall₂ (fun line line' => Text.trim line'.toList = Text.trim line.toList) lines lines') :
    Option.Rel (fun ran ran' => ran'.1 = ran.1 ∧ RunsLike ran.2 ran'.2) (submitAll status terminal lines)
      (submitAll status other lines') := by
  induction hLines generalizing status terminal other with
  | nil => exact .some ⟨rfl, h⟩
  | cons hLine _ ih =>
    refine rel_bind (h.submit hLine) fun ran ran' hRan => ?_
    obtain ⟨progress, mid⟩ := ran
    obtain ⟨progress', mid'⟩ := ran'
    obtain ⟨hProgress, hMid⟩ := hRan
    obtain rfl : progress' = progress := hProgress
    cases progress' with
    | running status => exact ih hMid status
    | stopped status => exact .some ⟨rfl, hMid⟩

/-- The bytes of a text run like the lines of the text without carriage returns at their ends. -/
theorem runBytes_eq (terminal : Terminal) (text : String) : terminal.runBytes text.toUTF8.data.toList false =
    (submitAll 0 terminal ((Text.lines text.toList).map fun line => String.ofList (Text.dropLineEnd line))).map
      fun ran => (.ok ran.1, ran.2) :=
  runStream_of_readable 0 terminal (decoded_lines text)

/-- A command string and the stream of its bytes give the same status and the same output, and leave the same options,
variables, extensions and last status. Without carriage returns they report the same, too. -/
theorem stream_runs_like_command (terminal : Terminal) (text : String) :
    Option.Rel (fun ran ran' => ran'.1 = .ok ran.1 ∧ ran'.2.stdout = ran.2.stdout ∧
        Alike ran.2.shell ran'.2.shell ∧ ('\r' ∉ text.toList → ran'.2.stderr = ran.2.stderr))
      (terminal.runScript text) (terminal.runBytes text.toUTF8.data.toList false) := by
  rw [runBytes_eq, runScript]
  by_cases hReturn : '\r' ∈ text.toList
  · have hLines : List.Forall₂ (fun line line' => Text.trim line'.toList = Text.trim line.toList)
        ((Text.lines text.toList).map String.ofList)
        ((Text.lines text.toList).map fun line => String.ofList (Text.dropLineEnd line)) := by
      rw [List.forall₂_map_left_iff, List.forall₂_map_right_iff, List.forall₂_same]
      intro line _
      rw [String.toList_ofList, String.toList_ofList, Text.trim_dropLineEnd]
    rw [← Option.map_id' (x := submitAll 0 terminal ((Text.lines text.toList).map String.ofList)), rel_map_iff]
    refine rel_mono (RunsLike.submitAll ⟨rfl, .refl terminal.shell⟩ 0 hLines) fun ran ran' hRan => ?_
    obtain ⟨hStatus, hStdout, hShell⟩ := hRan
    exact ⟨congrArg Except.ok hStatus, hStdout, hShell, fun hNone => absurd hReturn hNone⟩
  · have hLines : ((Text.lines text.toList).map fun line => String.ofList (Text.dropLineEnd line)) =
        (Text.lines text.toList).map String.ofList :=
      List.map_congr_left fun line hLine => congrArg String.ofList (Text.dropLineEnd_of_mem_lines hReturn hLine)
    rw [hLines]
    cases submitAll 0 terminal ((Text.lines text.toList).map String.ofList) with
    | none => exact .none
    | some ran => exact .some ⟨rfl, rfl, .refl _, fun _ => rfl⟩

/-- With `verbose` on the command string shows a carriage return that the stream does not. -/
theorem carriage_return_echoed_by_command :
    let text := "echo a\r\r\nfalse"
    ∃ shell ran ran', Shell.start {} { settings := [.letter 'v' true] } [] = some (.ok shell) ∧
      ({ shell } : Terminal).runScript text = some ran ∧
      ({ shell } : Terminal).runBytes text.toUTF8.data.toList false = some ran' ∧
      ran'.1 = .ok ran.1 ∧ ran'.2.stdout = ran.2.stdout ∧ Alike ran.2.shell ran'.2.shell ∧
      ran.2.stderr = "echo a\r\nfalse\n" ∧ ran'.2.stderr = "echo a\nfalse\n" := by
  intro text
  have hRuns : ((Shell.start {} { settings := [.letter 'v' true] } []).bind Except.toOption).any (fun shell =>
      (({ shell } : Terminal).runScript text).any (fun ran => ran.2.stderr = "echo a\r\nfalse\n") &&
        (({ shell } : Terminal).runBytes text.toUTF8.data.toList false).any fun ran =>
          ran.2.stderr = "echo a\nfalse\n") = true := by decide +kernel
  obtain ⟨shell, hStart, hBoth⟩ := Shell.exists_of_any_start hRuns
  obtain ⟨hScript, hStream⟩ := Bool.and_eq_true_iff.mp hBoth
  obtain ⟨ran, hRan, hEcho⟩ := (Option.any_eq_true _ _).mp hScript
  obtain ⟨ran', hRan', hEcho'⟩ := (Option.any_eq_true _ _).mp hStream
  have hRel := stream_runs_like_command { shell } text
  rw [hRan, hRan'] at hRel
  obtain ⟨hStatus, hStdout, hShell, -⟩ := Option.rel_some_some.mp hRel
  exact ⟨shell, ran, ran', hStart, hRan, hRan', hStatus, hStdout, hShell, of_decide_eq_true hEcho,
    of_decide_eq_true hEcho'⟩

end Terminal

end OptionShell
