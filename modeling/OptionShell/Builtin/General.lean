import OptionShell.Interpreter.Extension
import OptionShell.Text.Decimal

/-!
# General builtins

The commands that have nothing to do with options: output, statuses, variables, extensions and the end of the shell.
-/
namespace OptionShell.Builtin

variable {α : Type}

def usageError (usage : String) : ShellError := .command ("usage: " ++ usage)

def echo : Command α where
  name := "echo"
  description := "Print arguments"
  usage := "echo [text...]"
  run args := return .text (" ".intercalate args)

def success : Command α where
  name := "true"
  description := "Return a successful result"
  usage := "true"
  run _ := return .silent

def failure : Command α where
  name := "false"
  description := "Return an unsuccessful result"
  usage := "false"
  run _ := return .status "" 1

/-- Variables as lines `name=value`. -/
def variableLines (pairs : List (String × String)) : Output :=
  if pairs.isEmpty then .silent else .text (Text.joinLines (Variables.assignments pairs))

def env : Command α where
  name := "env"
  description := "List exported variables (-a: all variables)"
  usage := "env [-a]"
  category := "variables"
  run args := do
    let vars := (← get).vars
    match args with
    | [] => return variableLines vars.exportedPairs
    | ["-a"] => return variableLines vars.pairs
    | _ => throw (usageError "env [-a]")

/-- Removes one variable; a refusal becomes a diagnostic. Whether the variable is gone. -/
def unsetOne (name : String) : Action α Bool := do
  try
    Action.editVars (·.unset name)
    return true
  catch error =>
    Action.diagnose ("unset: " ++ error.message)
    return false

def unset : Command α where
  name := "unset"
  description := "Remove variables"
  usage := "unset NAME..."
  category := "variables"
  run args := do
    let removed ← args.mapM unsetOne
    return .ofStatus "" (if removed.all id then 0 else 1)

/-- An extension in the list of all of them. -/
def extensionLine (loaded : List String) (entry : String × String) : String :=
  Text.padRight 12 entry.1 ++ " " ++
    Text.padRight 10 (if loaded.contains entry.1 then "loaded" else "available") ++ " " ++ entry.2

def enable (catalog : Catalog α) : Command α where
  name := "enable"
  description := "Load or unload extensions"
  usage := "enable [-f NAME | -d NAME]"
  category := "extensions"
  run args := do
    match args with
    | [] => return .text (Text.joinLines (catalog.available.map (extensionLine (← get).loaded)))
    | ["-f", name] => do
      catalog.load name
      return .silent
    | ["-d", name] => do
      catalog.unload name
      return .silent
    | _ => throw (usageError "enable [-f NAME | -d NAME]")

/-- Arguments after the first count for nothing. -/
def exit : Command α where
  name := "exit"
  description := "Exit the interpreter"
  usage := "exit [n]"
  run args := do
    let status ← match args with
      | [] => pure 0
      | arg :: _ =>
        match Text.int32? arg.toList with
        | some status => pure status
        | none => throw (.command ("exit: " ++ arg ++ ": numeric argument required"))
    modify fun work => { work with exit? := some status }
    return .silent

end OptionShell.Builtin
