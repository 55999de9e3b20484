import OptionShell.Interpreter.Command

/-!
# Extensions

An extension brings options and commands. Loading adds all of its options or none; unloading sets them back and
removes them, whatever else happens, so that nothing refers to an extension that is gone.
-/
namespace OptionShell

structure Extension (α : Type) where
  name : String
  description : String
  options : List (Definition (Host α))
  commands : List (Command α) := []
  /-- Runs after the options are added; an error undoes the loading. -/
  onLoad : Update (Host α) (Except ShellError Unit) := pure (.ok ())
  /-- Runs before the options are removed. -/
  onUnload : Update (Host α) Unit := pure ()

inductive ExtensionError where
  | unknown (name : String)
  | notLoaded (name : String)
  | refused (name option : String) (outcome : Outcome)
deriving DecidableEq, Repr

namespace ExtensionError

def message : ExtensionError → String
  | unknown name => name ++ ": no such extension"
  | notLoaded name => name ++ ": not loaded"
  | refused name option outcome => name ++ ": " ++ option ++ ": " ++ outcome.describe

def toShellError (error : ExtensionError) : ShellError := .extension error.message

end ExtensionError

abbrev Catalog (α : Type) := Table String (Extension α)

namespace Extension

variable {α : Type}

def removeAll (defs : List (Definition (Host α))) : Update (Host α) Unit :=
  modify fun s => defs.foldl (fun s d => (s.remove d).2) s

/-- Adds definitions in order; if one is refused, those of them added so far are removed again. -/
def addAll (name : String) (added : List (Definition (Host α))) :
    List (Definition (Host α)) → Update (Host α) (Except ExtensionError Unit)
  | [] => return .ok ()
  | d :: rest => do
    let outcome ← modifyGet (·.add d)
    if outcome.isAccepted then addAll name (added ++ [d]) rest
    else
      removeAll added
      return .error (.refused name d.label outcome)

/-- Adds the options of an extension and runs its hook. -/
def enter (ext : Extension α) : Update (Host α) (Except ShellError Unit) := do
  match ← addAll ext.name [] ext.options with
  | .error error => return .error error.toShellError
  | .ok () =>
    match ← ext.onLoad with
    | .error error =>
      removeAll ext.options
      return .error error
    | .ok () => return .ok ()

def resetAll (defs : List (Definition (Host α))) : Update (Host α) Unit :=
  defs.forM fun d => do
    match d.initial? with
    | some initial => let _ ← Update.set d .unload initial
    | none => pure ()

/-- Runs the hook of an extension, then resets and removes its options. -/
def leave (ext : Extension α) : Update (Host α) Unit := do
  ext.onUnload
  resetAll ext.options
  removeAll ext.options

end Extension

namespace Catalog

variable {α : Type}

def add (ext : Extension α) (catalog : Catalog α) : Catalog α := catalog.insert ext.name ext

def available (catalog : Catalog α) : List (String × String) :=
  catalog.values.map fun ext => (ext.name, ext.description)

def commands (catalog : Catalog α) (loaded : List String) : List (Command α) :=
  loaded.flatMap fun name => (catalog.find? name).elim [] (·.commands)

def findCommand? (catalog : Catalog α) (loaded : List String) (name : String) : Option (Command α) :=
  (catalog.commands loaded).find? fun command => command.name = name

/-- Loads an extension. Loading it twice does nothing. -/
def load (catalog : Catalog α) (name : String) : Action α Unit := do
  match catalog.find? name with
  | none => throw (ExtensionError.unknown name).toShellError
  | some ext =>
    if (← get).loaded.contains name then return
    Action.attempt ext.enter
    modify fun work => { work with loaded := work.loaded ++ [name] }

def unload (catalog : Catalog α) (name : String) : Action α Unit := do
  if (← get).loaded.contains name then
    modify fun work => { work with loaded := work.loaded.erase name }
    match catalog.find? name with
    | some ext => Action.update ext.leave
    | none => return
  else throw (ExtensionError.notLoaded name).toShellError

/-- Unloads every extension, the last loaded first. -/
def unloadAll (catalog : Catalog α) : Action α Unit := do
  (← get).loaded.reverse.forM fun name => do
    try catalog.unload name catch _ => return

end Catalog

end OptionShell
