import OptionShell.Shell.Basic

/-!
# Running a shell on input

Input is a command string or a stream of bytes. Each line is run and what it shows is written: text to the standard
output, diagnostics and errors to the standard error stream. The last line that ran gives the status. When the input
ends, or a line cannot be read, extensions are unloaded.
-/
namespace OptionShell

structure Terminal where
  shell : Shell
  stdout : String := ""
  stderr : String := ""

inductive ReadError where
  | invalidUtf8
deriving DecidableEq, Repr

def ReadError.message : ReadError → String
  | invalidUtf8 => "stream did not contain valid UTF-8"

/-- The status of the last line, and whether more lines may follow. -/
inductive Progress where
  | running (status : Int32)
  | stopped (status : Int32)
deriving DecidableEq, Repr

/-- A line that stops the shell gives the status with which it does. -/
def LineResult.progress (result : LineResult) : Progress :=
  match result.exit? with
  | some status => .stopped status
  | none => .running result.status

namespace Terminal

def print (text : String) (terminal : Terminal) : Terminal := { terminal with stdout := terminal.stdout ++ text }

def printLine (line : String) (terminal : Terminal) : Terminal := terminal.print (line ++ "\n")

def complain (line : String) (terminal : Terminal) : Terminal :=
  { terminal with stderr := terminal.stderr ++ line ++ "\n" }

def present (result : LineResult) (terminal : Terminal) : Terminal :=
  let terminal := result.diagnostics.foldl (fun terminal line => terminal.complain line) terminal
  match result.output with
  | .ok output => if output.lines.isEmpty then terminal else terminal.printLine output.lines
  | .error error => terminal.complain error.complaint

def submit (terminal : Terminal) (line : String) : Option (Progress × Terminal) := do
  let (result, shell) ← terminal.shell.submit line
  return (result.progress, { terminal with shell }.present result)

/-- Runs lines up to the first that stops the shell. `status` counts if there are none. -/
def submitAll (status : Int32) (terminal : Terminal) : List String → Option (Int32 × Terminal)
  | [] => some (status, terminal)
  | line :: rest => do
    match ← terminal.submit line with
    | (.running status, terminal) => submitAll status terminal rest
    | (.stopped status, terminal) => return (status, terminal)

def runScript (terminal : Terminal) (command : String) : Option (Int32 × Terminal) :=
  submitAll 0 terminal ((Text.lines command.toList).map String.ofList)

/-- Reads one line of a stream, without its line end. -/
def decodeLine (bytes : List UInt8) : Except ReadError String :=
  match String.fromUTF8? ⟨bytes.toArray⟩ with
  | some line => .ok (String.ofList (Text.dropLineEnd line.toList))
  | none => .error .invalidUtf8

def showPrompt (interactive : Bool) (terminal : Terminal) : Terminal :=
  if interactive then terminal.print terminal.shell.prompt else terminal

def feed (terminal : Terminal) (bytes : List UInt8) : Option (Except ReadError Progress × Terminal) :=
  match decodeLine bytes with
  | .error error => some (.error error, terminal)
  | .ok line => (terminal.submit line).map fun ran => (.ok ran.1, ran.2)

/-- Reads and runs lines up to the first that stops the shell or cannot be read. -/
def runStream (interactive : Bool) (status : Int32) (terminal : Terminal) :
    List (List UInt8) → Option (Except ReadError Int32 × Terminal)
  | [] => some (.ok status, terminal.showPrompt interactive)
  | bytes :: rest => do
    match ← (terminal.showPrompt interactive).feed bytes with
    | (.ok (.running status), terminal) => runStream interactive status terminal rest
    | (.ok (.stopped status), terminal) => return (.ok status, terminal)
    | (.error error, terminal) => return (.error error, terminal)

def runBytes (terminal : Terminal) (input : List UInt8) (interactive : Bool) :
    Option (Except ReadError Int32 × Terminal) :=
  runStream interactive 0 terminal (Text.cutAfter (· = 10) input)

def close (terminal : Terminal) : Option Terminal := do
  return { terminal with shell := ← terminal.shell.close }

/-- Runs the command, or the input if there is none, and unloads the extensions whatever happened. -/
def serve (terminal : Terminal) (command? : Option String) (input : List UInt8) (interactive : Bool) :
    Option (Except ReadError Int32 × Terminal) := do
  let (status, terminal) ← match command? with
    | some command => (terminal.runScript command).map fun ran => (.ok ran.1, ran.2)
    | none => terminal.runBytes input interactive
  return (status, ← terminal.close)

end Terminal

end OptionShell
