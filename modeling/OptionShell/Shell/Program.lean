import OptionShell.Shell.Terminal
import OptionShell.Text.Separator

/-!
# The program

The program reads its arguments and its configuration, starts a shell, and runs the command or its standard input.
All of it is a function from what the program was given to what it writes and the code with which it ends.
-/
namespace OptionShell

/-- Names and values from texts `name=value`. A name has at least one character, and may start with `=`. -/
def environmentOf (texts : List String) : List (String × String) :=
  texts.filterMap fun text =>
    match text.toList with
    | [] => none
    | c :: rest => (Text.splitFirst? '=' rest).map fun parts => (String.ofList (c :: parts.1), String.ofList parts.2)

structure Invocation where
  /-- The name under which it was started. -/
  programName : String
  args : List String
  environment : List (String × String)
  /-- The configuration file that the environment names: its path, and its text or why it cannot be read. -/
  configFile? : Option (String × Except String String) := none

structure ProgramResult where
  stdout : String := ""
  stderr : String := ""
  code : UInt8

namespace Invocation

/-- A minus sign before the program's name marks a login shell. -/
def isLogin (invocation : Invocation) : Bool := invocation.programName.toList.head? = some '-'

def config (invocation : Invocation) : Except ShellError Config :=
  match invocation.configFile? with
  | some (path, text?) => Config.ofFile path text?
  | none => .ok {}

/-- The low eight bits of a status. -/
def codeOf (status : Int32) : UInt8 := status.toUInt32.toUInt8

/-- The end of a program that a wrong argument or option stopped. -/
def refused (error : ShellError) : ProgramResult where
  stderr := error.complaint ++ "\n"
  code := codeOf error.exitStatus

/-- A cause below a heading. Its further lines are as far in as the first. -/
def causeText (heading margin cause : String) : String :=
  heading ++ ("\n" ++ margin).intercalate ((cause.toList.splitOn '\n').map String.ofList)

/-- Causes one under the other, numbered if there are several. -/
def causeLines : List String → String
  | [cause] => causeText "    " "    " cause
  | causes =>
    Text.joinLines (causes.mapIdx fun i cause => causeText ("    " ++ toString i ++ ": ") "       " cause)

/-- The end of a program whose configuration is no good. -/
def misconfigured (error : ShellError) : ProgramResult :=
  let causes := match error with
    | .io text => [error.message, text]
    | _ => [error.message]
  { stderr := "Error: loading configuration\n\nCaused by:\n" ++ causeLines causes ++ "\n", code := 1 }

def finished (status : Except ReadError Int32) (terminal : Terminal) : ProgramResult :=
  match status with
  | .ok status => { stdout := terminal.stdout, stderr := terminal.stderr, code := codeOf status }
  | .error error =>
    { stdout := terminal.stdout, stderr := terminal.stderr ++ "Error: " ++ error.message ++ "\n", code := 1 }

/-- Starts the shell: a terminal and the command to run in it, or the end of a program that could not start. -/
def start (invocation : Invocation) : Option (Except ProgramResult (Terminal × Option String)) :=
  match Arguments.ofList invocation.args with
  | .error error => some (.error (refused error.toShellError))
  | .ok arguments =>
    let arguments := { arguments with login := arguments.login || invocation.isLogin }
    match invocation.config with
    | .error error => some (.error (misconfigured error))
    | .ok config =>
      (Shell.start config arguments invocation.environment).map fun started =>
        match started with
        | .error error => .error (refused error)
        | .ok shell => .ok ({ shell }, arguments.command?)

/-- Runs the program on the bytes of its input. -/
def run (invocation : Invocation) (input : List UInt8) (interactive : Bool) : Option ProgramResult := do
  match ← invocation.start with
  | .error result => return result
  | .ok (terminal, command?) =>
    let (status, terminal) ← terminal.serve command? input interactive
    return finished status terminal

end Invocation

end OptionShell
