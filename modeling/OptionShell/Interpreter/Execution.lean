import OptionShell.Interpreter.Extension
import OptionShell.Interpreter.Help
import OptionShell.Line.Chain
import OptionShell.Line.Expansion
import OptionShell.Line.Word

/-!
# Execution of command lines

A line is a chain of commands. Each command is expanded, cut into words and dispatched by its first word. `scope`
runs its arguments as a line of their own, in a frame that may save flags and puts them back at its end. Since the
line of a scope comes from expansion, scopes can nest without end: `depth` bounds them, and a line that needs more
has no result.
-/
namespace OptionShell

/-- A workspace with the status of the last command. -/
structure Session (α : Type) extends Workspace α where
  lastStatus : Int32 := 0

/-- What a line does: a result or an error, and the session after it. -/
abbrev Execution (α β : Type) := ExceptT ShellError (StateT (Session α) Option) β

namespace Execution

variable {α β : Type}

def act (action : Action α β) : Execution α β := show StateT (Session α) Option _ from fun s => do
  let (result, work) ← action.run s.toWorkspace
  return (result, { s with toWorkspace := work })

def outcome (execution : Execution α β) : Execution α (Except ShellError β) :=
  show StateT (Session α) Option _ from fun s => do
    let (result, s) ← execution.run s
    return (.ok result, s)

def unfinished : Execution α β := show StateT (Session α) Option _ from fun _ => none

def setStatus (status : Int32) : Execution α Unit := modify fun s => { s with lastStatus := status }

end Execution

open Execution

/-- The commands of an interpreter and the extensions that it can load. -/
structure Interpreter (α : Type) where
  commands : CommandTable α := .empty
  catalog : Catalog α := .empty

namespace Interpreter

variable {α : Type}

/-- The command of that name: of the interpreter, or else of a loaded extension. -/
def findCommand? (interp : Interpreter α) (loaded : List String) (name : String) : Option (Command α) :=
  (interp.commands.find? name).or (interp.catalog.findCommand? loaded name)

/-- The value of a reference. An unset variable is empty unless `nounset` is on. -/
def resolve (s : Session α) : Line.Reference → Except LineError (List Char)
  | .status => .ok (toString s.lastStatus).toList
  | .flags => .ok (s.options.flagString s.stateLetters).toList
  | .variableNamed name =>
    match s.vars.value? (String.ofList name) with
    | some value => .ok value.toList
    | none =>
      if s.options.enabled "nounset" then .error (.unboundVariable (String.ofList name)) else .ok []

def expandWords (s : Session α) (command : List Char) : Except LineError (List String) := do
  let expanded ← Line.expand (resolve s) command
  let words ← Line.words expanded
  return words.map String.ofList

/-- Closes the innermost scope and puts the flags back that it had saved. -/
def closeScope : Execution α Unit := do
  match (← get).scopes with
  | [] => return
  | frame :: outer =>
    modify fun s => { s with scopes := outer }
    match frame with
    | some saved => let _ ← act (Action.update (Update.reinstateFlags saved))
    | none => return

/-- Runs words as a line in a scope of its own. -/
def runScope (runLine : String → Execution α Output) (args : List String) : Execution α Output := do
  if args.isEmpty then throw (.command "usage: scope <command line>")
  modify fun s => { s with scopes := none :: s.scopes }
  let result ← outcome (runLine (" ".intercalate args))
  closeScope
  ofExcept result

/-- Dispatches words by the first of them. With `noexec` on only `set` runs, so that it can be turned off again. -/
def runWords (interp : Interpreter α) (runLine : String → Execution α Output) :
    List String → Execution α Output
  | [] => return .silent
  | name :: args => do
    let options := (← get).options
    if options.enabled "xtrace" then act (Action.diagnose ("+ " ++ " ".intercalate (name :: args)))
    if options.enabled "noexec" && name ≠ "set" then return .silent
    if name = "help" then ofExcept (interp.commands.help args)
    else if name = "scope" then runScope runLine args
    else match interp.findCommand? (← get).loaded name with
      | some command => act (command.run args)
      | none => throw (.command (name ++ ": command not found"))

def runSegment (interp : Interpreter α) (runLine : String → Execution α Output) (command : List Char) :
    Execution α Output := do
  match expandWords (← get) command with
  | .ok words => interp.runWords runLine words
  | .error error => throw error.toShellError

/-- With `errexit` on, a failure that no connective guards stops the interpreter. Whether it does. -/
def stopOnFailure (status : Int32) (guarded : Bool) : Execution α Bool := do
  if status = 0 || guarded || !(← get).options.enabled "errexit" then return false
  modify fun s => { s with exit? := some status }
  return true

def statusOf : Except ShellError Output → Int32
  | .ok output => output.exitStatus
  | .error error => error.exitStatus

def chainText : Except ShellError Output → List String
  | .ok output => if output.lines.isEmpty then [] else [output.lines]
  | .error error => ["error: " ++ error.message]

def runRecorded (run : List Char → Execution α Output) (command : List Char) :
    Execution α (Except ShellError Output) := do
  let result ← outcome (run command)
  setStatus (statusOf result)
  return result

/-- Runs the commands of a chain from left to right; the texts of those that ran. -/
def runSegments (run : List Char → Execution α Output) : List Line.Segment → Execution α (List String)
  | [] => return []
  | segment :: rest => do
    if !segment.connective.admits (← get).lastStatus then runSegments run rest
    else
      let result ← runRecorded run segment.command
      if ← stopOnFailure (statusOf result) (Line.guards rest) then return chainText result
      if (← get).exit?.isSome then return chainText result
      return chainText result ++ (← runSegments run rest)

/-- Runs a line, with `run` for its commands. The result of a single command is the result of the line. -/
def runChain (run : List Char → Execution α Output) (line : String) : Execution α Output := do
  let text := Text.trim line.toList
  if text.isEmpty then return .silent
  match Line.segments text with
  | .error error => throw error.toShellError
  | .ok [segment] => do
    let result ← runRecorded run segment.command
    let _ ← stopOnFailure (statusOf result) false
    ofExcept result
  | .ok segments => do
    let texts ← runSegments run segments
    return .ofStatus (Text.joinLines texts) (← get).lastStatus

/-- Runs a line, with scopes at most `depth - 1` deep. -/
def execute (interp : Interpreter α) : Nat → String → Execution α Output
  | 0, _ => unfinished
  | depth + 1, line => runChain (interp.runSegment (interp.execute depth)) line

end Interpreter

end OptionShell
