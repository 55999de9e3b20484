import OptionShell.Error
import OptionShell.Options.Setter

/-!
# The arguments of the shell

Arguments set options by letter or by name, give a command to run, and tell what to inherit. Settings are applied in
order; the first that fails stops the start.
-/
namespace OptionShell

inductive Setting where
  /-- From a cluster of letters after `-` or `+`. -/
  | letter (letter : Char) (on : Bool)
  /-- After `-o` or `+o`. -/
  | setO (name : String) (on : Bool)
  /-- After `-O` or `+O`. -/
  | shopt (name : String) (on : Bool)
deriving DecidableEq, Repr

namespace Setting

def subject : Setting → String
  | letter c on => String.ofList [Flag.sign on, c]
  | setO name _ | shopt name _ => name

variable {σ : Type} [HostVariables σ]

def apply : Setting → Update σ Outcome
  | letter c on => Update.setLettered c .arguments (switchValue on)
  | setO name on | shopt name on => Update.setNamed name .arguments (switchValue on)

def error (setting : Setting) (outcome : Outcome) : ShellError :=
  .option (outcome.complaint setting.subject) outcome.exitStatus

end Setting

inductive ArgumentError where
  /-- Nothing follows an argument that takes another. -/
  | missing (arg : String)
  | unknown (arg : String)
  | unexpected (arg : String)
deriving DecidableEq, Repr

namespace ArgumentError

def message : ArgumentError → String
  | missing arg => arg ++ ": option requires an argument"
  | unknown arg => arg ++ ": invalid option"
  | unexpected arg => arg ++ ": unexpected argument"

def toShellError (error : ArgumentError) : ShellError := .command error.message

end ArgumentError

structure Arguments where
  settings : List Setting := []
  command? : Option String := none
  ignoreEnvironment : Bool := false
  login : Bool := false
deriving DecidableEq, Repr

namespace Arguments

def addSetting (setting : Setting) (arguments : Arguments) : Arguments :=
  { arguments with settings := arguments.settings ++ [setting] }

def addCluster (on : Bool) (letters : List Char) (arguments : Arguments) : Arguments :=
  { arguments with settings := arguments.settings ++ letters.map fun c => .letter c on }

/-- The setting of a named option, or nothing if the argument takes no name. -/
def namedSetting? : String → Option (String → Setting)
  | "-o" => some fun name => .setO name true
  | "+o" => some fun name => .setO name false
  | "-O" => some fun name => .shopt name true
  | "+O" => some fun name => .shopt name false
  | _ => none

/-- Reads an argument that is no word of its own: a cluster of letters. -/
def readCluster (arg : String) (arguments : Arguments) : Except ArgumentError Arguments :=
  match arg.toList with
  | '-' :: '-' :: _ => .error (.unknown arg)
  | sign :: letter :: letters =>
    match Flag.ofSign? sign with
    | some on => .ok (arguments.addCluster on (letter :: letters))
    | none => .error (.unexpected arg)
  | _ => .error (.unexpected arg)

/-- Reads arguments, without the name of the program, on top of what was read before. -/
def readArgs (arguments : Arguments) : List String → Except ArgumentError Arguments
  | [] => .ok arguments
  | arg :: rest =>
    if arg = "--" then .ok arguments
    else if arg = "--noenv" then readArgs { arguments with ignoreEnvironment := true } rest
    else if arg = "--login" || arg = "-l" then readArgs { arguments with login := true } rest
    else if arg = "-c" then
      match rest with
      | [] => .error (.missing arg)
      | command :: rest => readArgs { arguments with command? := some command } rest
    else match namedSetting? arg with
      | some setting =>
        match rest with
        | [] => .error (.missing arg)
        | name :: rest => readArgs (arguments.addSetting (setting name)) rest
      | none => do readArgs (← arguments.readCluster arg) rest

def ofList (args : List String) : Except ArgumentError Arguments := readArgs {} args

variable {σ : Type} [HostVariables σ]

/-- Applies settings in order, up to the first that fails. -/
def applyAll : List Setting → Update σ (Except ShellError Unit)
  | [] => return .ok ()
  | setting :: rest => do
    let outcome ← setting.apply
    if outcome.isAccepted then applyAll rest else return .error (setting.error outcome)

def apply (arguments : Arguments) : Update σ (Except ShellError Unit) := applyAll arguments.settings

end Arguments

end OptionShell
