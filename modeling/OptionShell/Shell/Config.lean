import OptionShell.Error
import OptionShell.Toml.Document

/-!
# Configuration

The configuration is a TOML document with five keys, each with a default. Keys that mean nothing are passed over; a
value of the wrong kind is an error, and so is an option that is to be both on and off.
-/
namespace OptionShell

structure Config where
  inheriting : Bool := true
  /-- Printed before each line of interactive input. -/
  prompt : String := "$ "
  turnedOn : List String := []
  turnedOff : List String := []
  extensions : List String := []
deriving DecidableEq, Repr

namespace Config

/-- The environment variable that names the configuration file. -/
def envVar : String := "SHELLOPT_CONFIG"

open Toml (Item)

def asBool? : Item → Option Bool
  | .boolean value => some value
  | _ => none

def asString? : Item → Option String
  | .string text => some text
  | _ => none

def asStrings? : Item → Option (List String)
  | .array items => items.mapM asString?
  | _ => none

/-- The value of a key in the form that `read` expects, or the default if the key is missing. -/
def field {β : Type} (entries : Toml.Entries) (key : String) (read : Item → Option β) (default : β) :
    Except ShellError β :=
  match entries.find? key with
  | none => .ok default
  | some item =>
    match read item with
    | some value => .ok value
    | none => .error (.toml ("invalid type for key `" ++ key ++ "`"))

/-- The first option that is to be both on and off. -/
def conflict? (config : Config) : Option String := config.turnedOn.find? fun name => config.turnedOff.contains name

def ofToml (text : String) : Except ShellError Config := do
  let entries ← match Toml.parse? text with
    | some entries => .ok entries
    | none => .error (.toml "invalid document")
  let base : Config := {}
  let config : Config := {
    inheriting := ← field entries "import_environment" asBool? base.inheriting
    prompt := ← field entries "prompt" asString? base.prompt
    turnedOn := ← field entries "options" asStrings? base.turnedOn
    turnedOff := ← field entries "disabled" asStrings? base.turnedOff
    extensions := ← field entries "extensions" asStrings? base.extensions }
  match config.conflict? with
  | some name => .error (.config (name ++ ": listed in both `options` and `disabled`"))
  | none => .ok config

/-- Reads a configuration file, whose text may be missing. Errors in it name the file. -/
def ofFile (path : String) (text? : Except String String) : Except ShellError Config :=
  match text? with
  | .error error => .error (.io error)
  | .ok text => (ofToml text).mapError fun error => .config (path ++ ": " ++ error.message)

end Config

end OptionShell
