import OptionShell.Interpreter.Command

/-!
# The builtin `shopt`

`shopt` changes, tests and lists options by name. A name that fails becomes a diagnostic and a status, and the names
after it are carried out all the same.
-/
namespace OptionShell.Builtin

variable {α : Type}

/-- The letters given to `shopt`. -/
structure ShoptMode where
  turnOn : Bool := false
  turnOff : Bool := false
  quiet : Bool := false
  print : Bool := false
  /-- Work on the options of `set -o`. -/
  setO : Bool := false
  helpLevel : Nat := 0
deriving DecidableEq, Repr

namespace ShoptMode

def badLetter (letter : Char) : ShellError :=
  .option ("shopt: " ++ unknownOptionText (String.ofList ['-', letter]) ++
    "\nshopt: usage: shopt [-pqsu] [-o] [optname ...]") ExitStatus.badUsage

def addLetter (mode : ShoptMode) : Char → Except ShellError ShoptMode
  | 's' => .ok { mode with turnOn := true }
  | 'u' => .ok { mode with turnOff := true }
  | 'q' => .ok { mode with quiet := true }
  | 'p' => .ok { mode with print := true }
  | 'o' => .ok { mode with setO := true }
  | 'h' => .ok { mode with helpLevel := mode.helpLevel + 1 }
  | letter => .error (badLetter letter)

/-- Reads clusters of letters up to the first name; the mode and the names. -/
def parse (mode : ShoptMode) : List String → Except ShellError (ShoptMode × List String)
  | [] => .ok (mode, [])
  | arg :: rest =>
    if arg = "--" then .ok (mode, rest)
    else match arg.toList with
      | '-' :: letter :: letters => do
        let mode ← (letter :: letters).foldlM addLetter mode
        parse mode rest
      | _ => .ok (mode, arg :: rest)

def access (mode : ShoptMode) : Access := if mode.setO then .setO else .shopt

def style (mode : ShoptMode) : Style :=
  if mode.helpLevel = 0 then
    if mode.print then if mode.setO then .setCommand else .shoptCommand else .columns
  else .ofLevel mode.helpLevel

/-- The mask that leaves in a listing what was asked for: bit 0 hides options that are off, bit 1 those that are 1. -/
def mask (mode : ShoptMode) : UInt64 := if mode.turnOn then 1 else if mode.turnOff then 2 else 0

end ShoptMode

/-- Carries one name out. `status` is the status so far; the new status and the text to show. -/
def shoptName (mode : ShoptMode) (status : Int32) (name : String) : Action α (Int32 × List String) := do
  match (← get).options.registry.findName? name with
  | none =>
    Action.diagnose ("shopt: " ++ unknownOptionText name)
    return (Outcome.notFound.exitStatus, [])
  | some d =>
    if mode.turnOn || mode.turnOff then
      let outcome ← Action.update (Update.set d mode.access (switchValue mode.turnOn))
      if outcome.isAccepted then return (status, [])
      Action.diagnose ("shopt: " ++ name ++ ": " ++ outcome.describe)
      return (outcome.exitStatus, [])
    else
      let status ← if status ≠ 0 then pure status
        else do
          let on ← Action.read (Reading.isOn d mode.access)
          pure (if on then 0 else ExitStatus.failure)
      if mode.quiet then return (status, [])
      return (status, [← Action.read (Reading.display d mode.access mode.style)])

def shoptNames (mode : ShoptMode) (status : Int32) : List String → Action α (Int32 × List String)
  | [] => return (status, [])
  | name :: rest => do
    let (status, shown) ← shoptName mode status name
    let (status, others) ← shoptNames mode status rest
    return (status, shown ++ others)

def shopt : Command α where
  name := "shopt"
  description := "Set and unset shell options"
  usage := "shopt [-pqsu] [-o] [-h[h[h]]] [optname ...]"
  category := "options"
  run args := do
    let (mode, names) ← ofExcept (ShoptMode.parse {} args)
    if mode.turnOn && mode.turnOff then
      throw (.option "shopt: cannot set and unset shell options simultaneously" ExitStatus.failure)
    if names.isEmpty then
      if mode.quiet then return .silent
      return .ofText (← Action.read (Reading.listing mode.access mode.mask mode.style))
    else
      let (status, shown) ← shoptNames mode 0 names
      return .ofStatus (Text.joinLines shown) status

end OptionShell.Builtin
