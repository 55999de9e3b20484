import OptionShell.Builtin.General
import OptionShell.Proofs.Interpreter.Step
import OptionShell.Proofs.Line.Quoting

/-!
# Lines of quoted words

A line of quoted words runs the command that the first word names, once, on the other words as they are.
-/
namespace OptionShell

open Execution Line

namespace Interpreter

variable {α β : Type} {text : List Char} {ws : List (List Char)}

theorem expandWords_of_writes (h : Writes text ws) (s : Session α) :
    expandWords s text = .ok (ws.map String.ofList) := by
  change ((expand (resolve s) text).bind fun expanded => (Line.words expanded).bind _) = _
  rw [h.expand_eq]
  change (Line.words text).bind _ = _
  rw [h.words_eq]
  rfl

/-- A command is expanded, cut into words and dispatched. -/
theorem run_runSegment (interp : Interpreter α) (runLine : String → Execution α Output) (text : List Char)
    (s : Session α) : (interp.runSegment runLine text).run s = match expandWords s text with
      | .ok words => (interp.runWords runLine words).run s
      | .error error => some (.error error.toShellError, s) := by
  rw [runSegment, run_get_bind]
  cases expandWords s text <;> rfl

theorem run_runSegment_of_writes (interp : Interpreter α) (runLine : String → Execution α Output)
    (h : Writes text ws) (s : Session α) :
    (interp.runSegment runLine text).run s = (interp.runWords runLine (ws.map String.ofList)).run s := by
  rw [run_runSegment, expandWords_of_writes h]

/-- A line of one command that has words dispatches them, in one step. -/
theorem run_execute_of_words (interp : Interpreter α) (depth : Nat) {line : String} {words : List String}
    {s : Session α} (hSegments : segments (Text.trim line.toList) = .ok [⟨.always, text⟩])
    (hWords : expandWords s text = .ok words) :
    (interp.execute (depth + 1) line).run s = ((interp.runWords (interp.execute depth) words).run s).map fun ran =>
      (ran.1, Step.after { command := text, unguarded := true, result := ran.1, ended := ran.2 }) := by
  rw [execute, run_runChain_of_single hSegments, Step.run, run_runSegment, hWords, Option.map_map]
  rfl

/-- A line of one command that has no words runs nothing. -/
theorem run_execute_of_error (interp : Interpreter α) (depth : Nat) {line : String} {error : LineError}
    {s : Session α} (hSegments : segments (Text.trim line.toList) = .ok [⟨.always, text⟩])
    (hWords : expandWords s text = .error error) :
    (interp.execute (depth + 1) line).run s = some (.error error.toShellError, Step.after
      { command := text, unguarded := true, result := .error error.toShellError, ended := s }) := by
  rw [execute, run_runChain_of_single hSegments, Step.run, run_runSegment, hWords]
  rfl

/-- A line that writes words dispatches these words, in one step. -/
theorem run_execute_of_writes (interp : Interpreter α) (depth : Nat) (h : Writes text ws) (s : Session α) :
    (interp.execute (depth + 1) (String.ofList text)).run s =
      ((interp.runWords (interp.execute depth) (ws.map String.ofList)).run s).map fun ran =>
        (ran.1, Step.after { command := text, unguarded := true, result := ran.1, ended := ran.2 }) := by
  refine run_execute_of_words interp depth ?_ (expandWords_of_writes h s)
  rw [String.toList_ofList, h.trim_eq, h.segments_eq]

/-- The workspace in which a command runs: with `xtrace` on, its words were reported. -/
def traced (words : List String) (s : Session α) : Workspace α :=
  if s.options.enabled "xtrace" then s.toWorkspace.diagnose ("+ " ++ " ".intercalate words) else s.toWorkspace

theorem exists_traced (words : List String) (s : Session α) :
    ∃ diagnostics, traced words s = { s.toWorkspace with diagnostics } := by
  rw [traced]
  split
  · exact ⟨_, rfl⟩
  · exact ⟨s.diagnostics, rfl⟩

theorem run_act (action : Action α β) (s : Session α) :
    (act action).run s = (action.run s.toWorkspace).map fun ran => (ran.1, { s with toWorkspace := ran.2 }) := by
  change (action.run s.toWorkspace).bind _ = _
  cases action.run s.toWorkspace <;> rfl

theorem run_diagnose_bind (line : String) (next : Unit → Execution α β) (s : Session α) :
    (act (Action.diagnose line) >>= next).run s =
      (next ()).run { s with toWorkspace := s.toWorkspace.diagnose line } := rfl

/-- What the first of some words leads to. -/
def dispatched (interp : Interpreter α) (runLine : String → Execution α Output) (name : String) (args : List String)
    (s : Session α) : Option (Except ShellError Output × Session α) :=
  if s.options.enabled "noexec" && name ≠ "set" then some (.ok .silent, s)
  else if name = "help" then some (interp.commands.help args, s)
  else if name = "scope" then (runScope runLine args).run s
  else match interp.findCommand? s.loaded name with
    | some command => ((command.run args).run s.toWorkspace).map fun ran => (ran.1, { s with toWorkspace := ran.2 })
    | none => some (.error (.command (name ++ ": command not found")), s)

/-- Words are reported and then dispatched. -/
theorem run_runWords_cons (interp : Interpreter α) (runLine : String → Execution α Output) (name : String)
    (args : List String) (s : Session α) : (interp.runWords runLine (name :: args)).run s =
      interp.dispatched runLine name args { s with toWorkspace := traced (name :: args) s } := by
  have hDispatch : ∀ started : Session α, started.options = s.options →
      (if s.options.enabled "noexec" && name ≠ "set" then pure .silent
        else if name = "help" then ofExcept (interp.commands.help args)
        else if name = "scope" then runScope runLine args
        else do
          match interp.findCommand? (← get).loaded name with
          | some command => act (command.run args)
          | none => throw (.command (name ++ ": command not found")) : Execution α Output).run started =
      interp.dispatched runLine name args started := by
    intro started hOptions
    rw [dispatched, hOptions]
    split
    · rfl
    · split
      · cases interp.commands.help args <;> rfl
      · split
        · rfl
        · rw [run_get_bind]
          cases interp.findCommand? started.loaded name with
          | none => rfl
          | some command => exact run_act _ started
  rw [runWords, run_get_bind, traced]
  dsimp only
  cases s.options.enabled "xtrace" with
  | true => exact (run_diagnose_bind _ _ s).trans (hDispatch _ rfl)
  | false => exact hDispatch s rfl

/-- Words that name a command run it on the words after the first. -/
theorem run_runWords_of_found (interp : Interpreter α) (runLine : String → Execution α Output) {name : String}
    (args : List String) {command : Command α} {s : Session α} (hHelp : name ≠ "help") (hScope : name ≠ "scope")
    (hFound : interp.findCommand? s.loaded name = some command)
    (hExec : s.options.enabled "noexec" = false ∨ name = "set") :
    (interp.runWords runLine (name :: args)).run s =
      ((command.run args).run (traced (name :: args) s)).map fun ran => (ran.1, { s with toWorkspace := ran.2 }) := by
  obtain ⟨diagnostics, hTraced⟩ := exists_traced (name :: args) s
  have hRuns : (s.options.enabled "noexec" && decide (name ≠ "set")) = false := by
    obtain hExec | rfl := hExec
    · rw [hExec]
      rfl
    · exact Bool.and_false _
  rw [run_runWords_cons, dispatched, hTraced]
  dsimp only
  rw [if_neg (by rw [hRuns]; decide), if_neg hHelp, if_neg hScope, hFound]

/-- The word `scope` runs the words after it as a line, unless `noexec` is on. -/
theorem run_runWords_of_scope (interp : Interpreter α) (runLine : String → Execution α Output) (args : List String)
    (s : Session α) : (interp.runWords runLine ("scope" :: args)).run s =
      if s.options.enabled "noexec" then some (.ok .silent, { s with toWorkspace := traced ("scope" :: args) s })
      else (runScope runLine args).run { s with toWorkspace := traced ("scope" :: args) s } := by
  obtain ⟨diagnostics, hTraced⟩ := exists_traced ("scope" :: args) s
  rw [run_runWords_cons, dispatched, hTraced]
  dsimp only
  cases s.options.enabled "noexec" <;> rfl

/-- A line of quoted words runs the command that its first word names, once and on the other words as they are, and
nothing else. -/
theorem execute_quotedLine (interp : Interpreter α) (depth : Nat) (name : String) (args : List String)
    (command : Command α) (s : Session α) (hHelp : name ≠ "help") (hScope : name ≠ "scope")
    (hFound : interp.findCommand? s.loaded name = some command) (hExec : s.options.enabled "noexec" = false) :
    (interp.execute (depth + 1) (String.ofList (quotedLine ((name :: args).map String.toList)))).run s =
      ((command.run args).run (traced (name :: args) s)).map fun ran =>
        (ran.1, Step.after
          { command := quotedLine ((name :: args).map String.toList)
            unguarded := true
            result := ran.1
            ended := { s with toWorkspace := ran.2 } }) := by
  have hWords : ((name :: args).map String.toList).map String.ofList = name :: args := by
    have hBack : String.ofList ∘ String.toList = id := funext fun word => String.ofList_toList
    rw [List.map_map, hBack, List.map_id]
  have hWrites : Writes (quotedLine ((name :: args).map String.toList)) ((name :: args).map String.toList) :=
    writes_quotedLine (by simp)
  rw [run_execute_of_writes interp depth hWrites, hWords,
    run_runWords_of_found interp _ args hHelp hScope hFound (.inl hExec), Option.map_map]
  rfl

/-- Words with connectives, references, quotes, backslashes, blanks and no letters at all reach the command. -/
theorem execute_quotedLine_of_special_words :
    ∃ (interp : Interpreter Unit) (s : Session Unit),
      interp.findCommand? s.loaded "echo" = some Builtin.echo ∧ s.options.enabled "noexec" = false ∧
      String.ofList (quotedLine (["echo", "a; b && c || $x", "it's \"\\", "", " \n"].map String.toList)) =
        "'echo' 'a; b && c || $x' 'it'\\''s \"\\' '' ' \n'" ∧
      (interp.execute 1 "'echo' 'a; b && c || $x' 'it'\\''s \"\\' '' ' \n'").run s =
        some (.ok (.text "a; b && c || $x it's \"\\   \n"), s) := by
  let interp : Interpreter Unit := { commands := CommandTable.add Builtin.echo .empty }
  let s : Session Unit := { options := { host := { user := () } } }
  have hFound : interp.findCommand? s.loaded "echo" = some Builtin.echo := rfl
  have hExec : s.options.enabled "noexec" = false := by decide +kernel
  have hLine : String.ofList (quotedLine (["echo", "a; b && c || $x", "it's \"\\", "", " \n"].map String.toList)) =
      "'echo' 'a; b && c || $x' 'it'\\''s \"\\' '' ' \n'" := by decide +kernel
  have hRun := execute_quotedLine interp 0 "echo" ["a; b && c || $x", "it's \"\\", "", " \n"] Builtin.echo s
    (by decide) (by decide) hFound hExec
  rw [hLine] at hRun
  exact ⟨interp, s, hFound, hExec, hLine, hRun⟩

end Interpreter

end OptionShell
