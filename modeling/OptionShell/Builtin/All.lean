import OptionShell.Builtin.General
import OptionShell.Builtin.Local
import OptionShell.Builtin.Set
import OptionShell.Builtin.Shopt
import OptionShell.Interpreter.Help

/-!
# The builtin commands

The commands that every shell has, as tables that an interpreter can start from.
-/
namespace OptionShell.Builtin

variable {α : Type}

def optionCommands : List (Command α) := [set, shopt, localFlags]

/-- The builtins of a shell with the given extensions. -/
def all (catalog : Catalog α) : List (Command α) :=
  [echo, success, failure, env, unset, enable catalog, exit] ++ optionCommands

end OptionShell.Builtin
