import OptionShell.Builtin.All
import OptionShell.Interpreter.Execution
import OptionShell.Options.Setter
import OptionShell.Prime.Extension
import OptionShell.Shell.Config
import OptionShell.Shell.StandardOptions
import OptionShell.Shell.Arguments

/-!
# The shell

A shell is an interpreter with its standard options, variables and extensions wired together. Its start adds the
standard options, applies the configuration and then the arguments, inherits options from the environment, and loads
the configured extensions.
-/
namespace OptionShell

structure Shell where
  session : Session Unit
  prompt : String

structure LineResult where
  output : Except ShellError Output
  /-- Lines for the standard error stream. -/
  diagnostics : List String
  status : Int32
  /-- Set when the shell is to stop with this status. -/
  exit? : Option Int32

namespace Shell

/-- The standard options come first, then the identities and cells of the extension `prime`. -/
def standard : StandardOptions := {}

def primeCells : Prime.Cells := .startingAt StandardOptions.size

def catalog : Catalog Unit := Catalog.add (Prime.extension StandardOptions.size primeCells) .empty

def interpreter : Interpreter Unit where
  commands := CommandTable.addAll (Builtin.all catalog) .empty
  catalog := catalog

/-- The options of a shell before any is added. -/
def blankOptions (environ : List (String × String)) : Options (Host Unit) where
  storage := primeCells.prepare (.ofList [])
  host := { vars := .ofEnviron environ, user := () }

/-- Turns the options of the configuration on and off. What fails is passed over. -/
def applyConfig (config : Config) : Update (Host Unit) Unit := do
  config.turnedOn.forM fun name => do let _ ← Update.setNamed name .arguments 1
  config.turnedOff.forM fun name => do let _ ← Update.setNamed name .arguments 0

/-- The start of a shell up to the extensions. -/
def startOptions (config : Config) (arguments : Arguments) : Update (Host Unit) (Except ShellError Unit) := do
  match ← modifyGet standard.addTo with
  | .error error => return .error error
  | .ok () =>
    modify Options.attach
    applyConfig config
    match ← arguments.apply with
    | .error error => return .error error
    | .ok () =>
      modify (standard.markLogin arguments.login)
      Update.openRosters (config.inheriting && !arguments.ignoreEnvironment)
      return .ok ()

def startAction (config : Config) (arguments : Arguments) : Action Unit Unit := do
  Action.attempt (startOptions config arguments)
  config.extensions.forM catalog.load

def start (config : Config) (arguments : Arguments) (environ : List (String × String)) :
    Option (Except ShellError Shell) := do
  let (result, work) ← (startAction config arguments).run { options := blankOptions environ }
  let stateLetters := if arguments.command?.isSome then "c" else "s"
  return result.map fun () =>
    { session := { work with stateLetters }, prompt := config.prompt }

/-- How deep lines can open scopes. -/
def scopeDepth : Nat := 100000

/-- The session in which a line starts: no scope is open and nothing was reported. -/
def freshLine (shell : Shell) (line : String) : Session Unit :=
  let diagnostics := if shell.session.options.enabled "verbose" then [line] else []
  { shell.session with scopes := [], diagnostics, exit? := none }

def submit (shell : Shell) (line : String) : Option (LineResult × Shell) := do
  let (output, session) ← (interpreter.execute scopeDepth line).run (shell.freshLine line)
  return ({ output
            diagnostics := session.diagnostics
            status := Interpreter.statusOf output
            exit? := session.exit? }, { shell with session })

def close (shell : Shell) : Option Shell := do
  let (_, work) ← catalog.unloadAll.run shell.session.toWorkspace
  return { shell with session := { shell.session with toWorkspace := work } }

def options (shell : Shell) : Options (Host Unit) := shell.session.options

def vars (shell : Shell) : Variables := shell.session.vars

end Shell

end OptionShell
