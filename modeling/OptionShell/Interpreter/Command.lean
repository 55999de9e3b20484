import OptionShell.Interpreter.Workspace

/-!
# Commands

A command has a name, a text for `help` and an action on its arguments. What it shows is text, an exit status or both.
-/
namespace OptionShell

inductive Output where
  | text (lines : String)
  | silent
  /-- Text, possibly empty, with an exit status. -/
  | status (lines : String) (code : Int32)
deriving DecidableEq, Repr

namespace Output

def exitStatus : Output → Int32
  | status _ code => code
  | text _ | silent => 0

def lines : Output → String
  | text lines | status lines _ => lines
  | silent => ""

/-- Text without a status; empty text shows nothing. -/
def ofText (lines : String) : Output := if lines.isEmpty then silent else text lines

/-- Text with a status; the status zero is left out, and empty text with it. -/
def ofStatus (lines : String) (code : Int32) : Output := if code = 0 then ofText lines else status lines code

end Output

structure Command (α : Type) where
  name : String
  description : String
  usage : String
  /-- The heading under which `help` lists the command. -/
  category : String := "general"
  run : List String → Action α Output

end OptionShell
