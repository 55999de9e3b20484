import OptionShell.Interpreter.Command

/-!
# The builtin `local`

`local -` saves all flags in the frame of the innermost scope, which puts them back at its end. A frame keeps the
first flags that were saved in it.
-/
namespace OptionShell.Builtin

variable {α : Type}

def localFlags : Command α where
  name := "local"
  description := "Make single-letter options local to the current scope"
  usage := "local -"
  category := "options"
  run args := do
    if args ≠ ["-"] then throw (.command "usage: local -")
    let work ← get
    match work.scopes with
    | [] => throw (.option "local: can only be used in a scope" ExitStatus.failure)
    | frame :: outer =>
      modify fun work => { work with scopes := some (frame.getD work.options.savedFlags) :: outer }
      return .silent

end OptionShell.Builtin
