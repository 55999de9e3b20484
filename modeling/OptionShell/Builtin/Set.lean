import OptionShell.Interpreter.Command
import OptionShell.Text.Separator

/-!
# The builtin `set`

`set` changes options by letter and by name, lists them, and assigns variables. Its arguments take effect from left
to right up to the first that fails.
-/
namespace OptionShell.Builtin

variable {α : Type}

/-- A complaint of a builtin about an option. -/
def changeError (builtin message : String) (outcome : Outcome) : ShellError :=
  .option (builtin ++ ": " ++ message) outcome.exitStatus

def turnNamed (name : String) (on : Bool) : Action α Unit := do
  match (← get).options.registry.findName? name with
  | none => throw (changeError "set" (unknownOptionText name) .notFound)
  | some d =>
    let outcome ← Action.update (Update.set d .setO (switchValue on))
    if outcome.isRefused then throw (changeError "set" (name ++ ": " ++ outcome.describe) outcome)

def turnLetters (on : Bool) (letters : List Char) : Action α Unit :=
  letters.forM fun letter => do
    match ← Action.update (Update.switchFlag letter on) with
    | .ok _ => return
    | .error outcome =>
      throw (changeError "set" (outcome.complaint (String.ofList [Flag.sign on, letter])) outcome)

def assignArg (arg : String) : Action α Unit := do
  match Text.splitFirst? '=' arg.toList with
  | none => throw (.command ("set: " ++ arg ++ ": positional parameters are not supported"))
  | some (name, value) =>
    let name := String.ofList name
    Action.editVars (·.assign name (String.ofList value))
    if (← get).options.enabled "allexport" then Action.editVars fun vars => .ok (vars.markExported name)

def startsWithSign (arg : String) : Bool :=
  match arg.toList with
  | c :: _ => (Flag.ofSign? c).isSome
  | [] => false

/-- An argument that is neither a special word nor a name. -/
def setArg (arg : String) : Action α Unit :=
  match arg.toList with
  | sign :: letters =>
    match Flag.ofSign? sign with
    | some on => turnLetters on letters
    | none => assignArg arg
  | [] => assignArg arg

def optionListing (on : Bool) : Action α String :=
  Action.read (Reading.listing .setO 0 (if on then .columns else .setCommand))

/-- Carries the arguments out; the listings that they ask for. -/
def setArgs : List String → Action α (List String)
  | [] => return []
  | arg :: rest =>
    if arg = "--" then do
      rest.forM assignArg
      return []
    else if arg = "-" then setArgs rest
    else if arg = "-o" || arg = "+o" then
      match rest with
      | [] => return [← optionListing (arg = "-o")]
      | name :: others =>
        if startsWithSign name then do
          let listing ← optionListing (arg = "-o")
          return listing :: (← setArgs (name :: others))
        else do
          turnNamed name (arg = "-o")
          setArgs others
    else do
      setArg arg
      setArgs rest

def set : Command α where
  name := "set"
  description := "Set or unset shell options and variables"
  usage := "set [-abefhkmnptuvxBCEHPT] [-o option-name] [NAME=value ...]"
  category := "options"
  run args := do
    if args.isEmpty then return .ofText (Text.joinLines (Variables.assignments (← get).vars.pairs))
    return .ofText (Text.joinLines (← setArgs args))

end OptionShell.Builtin
