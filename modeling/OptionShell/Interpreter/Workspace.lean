import OptionShell.Options.Setter
import OptionShell.Options.Reading
import OptionShell.Prime.State
import OptionShell.Variables

/-!
# The workspace of commands

Commands see the options, the variables, the loaded extensions and the open scopes; they can report diagnostics and
ask the interpreter to stop. An action may fail with an error, and keeps the effects that came before it. It has no
result if setters call one another too deep.
-/
namespace OptionShell

/-- The state of the program around the options. `user` belongs to definitions and extensions from outside. -/
structure Host (α : Type) where
  vars : Variables := .empty
  prime : Prime.State := {}
  user : α

instance {α : Type} : HostVariables (Host α) where
  lookup host := host.vars.lookup
  bind name value host := { host with vars := host.vars.bind name value }
  protect name host := { host with vars := host.vars.protect name }

instance {α : Type} : LawfulHostVariables (Host α) where
  value_bind name value host := LawfulHostVariables.value_bind name value host.vars
  lookup_bind_of_ne value host h := LawfulHostVariables.lookup_bind_of_ne value host.vars h
  lookup_protect name other host := LawfulHostVariables.lookup_protect name other host.vars

structure Workspace (α : Type) where
  options : Options (Host α)
  loaded : List String := []
  /-- One frame for each open scope, the innermost first, with the flags that it saved. -/
  scopes : List (Option SavedFlags) := []
  /-- Lines for the standard error stream. -/
  diagnostics : List String := []
  /-- Set when the interpreter is to stop with this status. -/
  exit? : Option Int32 := none
  /-- The letters of `$-` that are no options. -/
  stateLetters : String := ""

namespace Workspace

variable {α : Type}

def vars (work : Workspace α) : Variables := work.options.host.vars

def mapOptions (f : Options (Host α) → Options (Host α)) (work : Workspace α) : Workspace α :=
  { work with options := f work.options }

def mapHost (f : Host α → Host α) (work : Workspace α) : Workspace α := work.mapOptions (·.mapHost f)

def diagnose (line : String) (work : Workspace α) : Workspace α :=
  { work with diagnostics := work.diagnostics ++ [line] }

end Workspace

/-- Work of a command: a result or an error, and the workspace after it. -/
abbrev Action (α β : Type) := ExceptT ShellError (StateT (Workspace α) Option) β

namespace Action

variable {α β : Type}

def update (change : Update (Host α) β) : Action α β := show StateT (Workspace α) Option β from fun work => do
  let (answer, options) ← change work.options
  return (answer, { work with options })

def attempt (change : Update (Host α) (Except ShellError β)) : Action α β := do
  match ← update change with
  | .ok answer => return answer
  | .error error => throw error

def read (reading : Reading (Host α) β) : Action α β := update fun s => some (reading s)

def editVars (edit : Variables → Except VariableError Variables) : Action α Unit := do
  let work ← get
  match edit work.vars with
  | .ok vars => set (work.mapHost fun host => { host with vars })
  | .error error => throw error.toShellError

def diagnose (line : String) : Action α Unit := modify (·.diagnose line)

end Action

end OptionShell
