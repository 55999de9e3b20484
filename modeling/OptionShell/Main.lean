import OptionShell.Shell.Program

/-!
# Command line

The outer layer of the program: it collects what the program was started with, hands the lines of its input to the
shell one by one, and writes what the shell shows.
-/
namespace OptionShell.CommandLine

/-- The texts in a file that ends each of them with a zero byte. -/
def readTexts (path : String) : IO (List String) := do
  let bytes ← try IO.FS.readBinFile path catch _ => pure ByteArray.empty
  return (Text.cutAfter (· = 0) bytes.toList).filterMap fun text =>
    String.fromUTF8? ⟨(text.filter (· ≠ 0)).toArray⟩

/-- The message of the operating system about an error. The sign of its number does not matter. -/
def systemText (code : UInt32) (details : String) : String :=
  let number := code.toInt32.toInt.natAbs
  let text := match number with
    | 2 => "No such file or directory"
    | 13 => "Permission denied"
    | 20 => "Not a directory"
    | 21 => "Is a directory"
    | 36 => "File name too long"
    | _ => details
  text ++ " (os error " ++ toString number ++ ")"

def failureText : IO.Error → String
  | .noFileOrDirectory _ code details | .permissionDenied _ code details | .inappropriateType _ code details
  | .invalidArgument _ code details | .noSuchThing _ code details | .hardwareFault code details
  | .otherError code details => systemText code details
  | error => toString error

def readText (path : String) : IO (Except String String) := do
  try
    let bytes ← IO.FS.readBinFile path
    return (String.fromUTF8? bytes).elim (.error ReadError.invalidUtf8.message) .ok
  catch error => return .error (failureText error)

/-- The file that an environment names as the configuration, with its text. -/
def configFile (environment : List (String × String)) : IO (Option (String × Except String String)) := do
  match environment.lookup Config.envVar with
  | none => return none
  | some path => return some (path, ← readText path)

/-- The bytes of the next line of a stream, with its line feed; none at the end. -/
partial def readLine (stream : IO.FS.Stream) (line : Array UInt8) : IO (List UInt8) := do
  let bytes ← stream.read 1
  match bytes.toList with
  | [] => return line.toList
  | byte :: _ => if byte = 10 then return (line.push byte).toList else readLine stream (line.push byte)

def finish (result : ProgramResult) : IO UInt32 := do
  IO.print result.stdout
  IO.eprint result.stderr
  return result.code.toUInt32

/-- The end of a program whose setters or scopes nest too deep. -/
def overflow : ProgramResult := { stderr := "shellopt: nested too deep\n", code := 1 }

def close (status : Except ReadError Int32) (terminal : Terminal) : IO UInt32 :=
  finish ((terminal.close.map (Invocation.finished status)).getD overflow)

/-- Writes what a terminal shows; the terminal after that. -/
def flush (terminal : Terminal) : IO Terminal := do
  IO.print terminal.stdout
  (← IO.getStdout).flush
  IO.eprint terminal.stderr
  return { terminal with stdout := "", stderr := "" }

/-- Reads and runs lines up to the end of the input or of the shell. -/
partial def serve (stdin : IO.FS.Stream) (interactive : Bool) (status : Int32) (terminal : Terminal) : IO UInt32 := do
  let terminal ← flush (terminal.showPrompt interactive)
  let bytes ← readLine stdin #[]
  if bytes.isEmpty then close (.ok status) terminal
  else match terminal.feed bytes with
    | none => finish overflow
    | some (.ok (.running status), terminal) => serve stdin interactive status terminal
    | some (.ok (.stopped status), terminal) => close (.ok status) terminal
    | some (.error error, terminal) => close (.error error) terminal

end OptionShell.CommandLine

open OptionShell OptionShell.CommandLine in
def main (args : List String) : IO UInt32 := do
  let programName := (← readTexts "/proc/self/cmdline").head?.getD ""
  let environment := environmentOf (← readTexts "/proc/self/environ")
  let invocation : Invocation := { programName, args, environment, configFile? := ← configFile environment }
  match invocation.start with
  | none => finish overflow
  | some (.error result) => finish result
  | some (.ok (terminal, some command)) =>
    match terminal.runScript command with
    | none => finish overflow
    | some (status, terminal) => close (.ok status) terminal
  | some (.ok (terminal, none)) =>
    let stdin ← IO.getStdin
    serve stdin (← stdin.isTty) 0 terminal
