import OptionShell.Options.Outcome

/-!
# Errors of the shell

What the interpreter, the configuration and the extensions can fail with. Option operations themselves answer with an
`Outcome`; an error carries such an outcome as a message and an exit status.
-/
namespace OptionShell

inductive ShellError where
  | command (text : String)
  | option (text : String) (status : Int32)
  | config (text : String)
  | extension (text : String)
  | io (text : String)
  /-- A configuration is not well-formed or has values of the wrong kind. -/
  | toml (text : String)
deriving DecidableEq, Repr

namespace ShellError

def message : ShellError → String
  | command text => text
  | option text _ => text
  | config text => "config error: " ++ text
  | extension text => "extension error: " ++ text
  | io text => "I/O error: " ++ text
  | toml text => "TOML parse error: " ++ text

/-- The exit status of a builtin that failed so. -/
def exitStatus : ShellError → Int32
  | command _ => 2
  | option _ status => status
  | config _ | extension _ | io _ | toml _ => 1

/-- The line that reports a failed command. -/
def complaint (error : ShellError) : String := "shellopt: " ++ error.message

end ShellError

end OptionShell
