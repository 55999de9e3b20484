import OptionShell.Error

/-!
# Errors of a command line

What makes a line unfit to run, before any command of it is looked up.
-/
namespace OptionShell

inductive LineError where
  | unterminatedSingleQuote
  | unterminatedDoubleQuote
  | missingCommand
  | unboundVariable (name : String)
deriving DecidableEq, Repr

namespace LineError

def message : LineError → String
  | unterminatedSingleQuote => "unterminated single quote"
  | unterminatedDoubleQuote => "unterminated double quote"
  | missingCommand => "syntax error near unexpected token"
  | unboundVariable name => name ++ ": unbound variable"

def toShellError (error : LineError) : ShellError := .command error.message

end LineError

end OptionShell
