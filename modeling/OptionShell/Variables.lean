import OptionShell.Error
import OptionShell.Options.HostVariables
import OptionShell.Table

/-!
# Variables

The variables of the shell, in name order. Scripts cannot assign or unset a read-only variable; the options can bind
it all the same.
-/
namespace OptionShell

structure Variable where
  value : String
  readonly : Bool := false
  imported : Bool := false
  /-- Handed on to the environment of commands. -/
  exported : Bool := false
  shape : Shape := .scalar
deriving DecidableEq, Repr

def isNameStart (c : Char) : Bool := c.isAlpha || c = '_'

def isNameChar (c : Char) : Bool := c.isAlphanum || c = '_'

/-- Identifiers: a letter or `_`, then letters, digits and `_`, all of them ASCII. -/
def isIdentifier (name : String) : Bool :=
  match name.toList with
  | [] => false
  | c :: rest => isNameStart c && rest.all isNameChar

inductive VariableError where
  | notIdentifier (name : String)
  | readonly (name : String)
deriving DecidableEq, Repr

namespace VariableError

def message : VariableError → String
  | notIdentifier name => "`" ++ name ++ "': not a valid identifier"
  | readonly name => name ++ ": readonly variable"

def toShellError (error : VariableError) : ShellError := .command error.message

end VariableError

abbrev Variables := Table String Variable

namespace Variables

/-- The variables of an environment; of two entries with one name the later counts. -/
def ofEnviron (environ : List (String × String)) : Variables :=
  environ.foldl (fun vars e => vars.insert e.1 { value := e.2, imported := true, exported := true }) .empty

def value? (vars : Variables) (name : String) : Option String := (vars.find? name).map (·.value)

def isReadonly (vars : Variables) (name : String) : Bool := (vars.find? name).any (·.readonly)

/-- Gives a variable a value; its attributes stay, and a new variable has none. -/
def bind (name value : String) (vars : Variables) : Variables :=
  vars.insert name { (vars.find? name).getD { value } with value }

def assign (name value : String) (vars : Variables) : Except VariableError Variables :=
  if !isIdentifier name then .error (.notIdentifier name)
  else if vars.isReadonly name then .error (.readonly name)
  else .ok (vars.bind name value)

/-- Removal by a script. There need not be such a variable. -/
def unset (name : String) (vars : Variables) : Except VariableError Variables :=
  if vars.isReadonly name then .error (.readonly name) else .ok (vars.erase name)

def markExported (name : String) (vars : Variables) : Variables :=
  vars.modify name fun var => { var with exported := true }

def protect (name : String) (vars : Variables) : Variables :=
  vars.modify name fun var => { var with readonly := true }

def pairs (vars : Variables) : List (String × String) := vars.entries.map fun e => (e.1, e.2.value)

def exportedPairs (vars : Variables) : List (String × String) := pairs (vars.filter fun _ var => var.exported)

def lookup (vars : Variables) (name : String) : Option Binding :=
  (vars.find? name).map fun var => { value := var.value, imported := var.imported, shape := var.shape }

/-- The lines `name=value` of a list of variables. -/
def assignments (pairs : List (String × String)) : List String := pairs.map fun e => e.1 ++ "=" ++ e.2

instance : HostVariables Variables where
  lookup := lookup
  bind := bind
  protect := protect

theorem lookup_bind (vars : Variables) (name value other : String) :
    (vars.bind name value).lookup other =
      if other = name then some { (vars.lookup name).getD ⟨value, false, .scalar⟩ with value } else
        vars.lookup other := by
  rw [lookup, bind, Table.find?_insert]
  split
  · rw [lookup]
    cases vars.find? name <;> rfl
  · rfl

theorem lookup_protect (vars : Variables) (name other : String) :
    (vars.protect name).lookup other = vars.lookup other := by
  rw [lookup, lookup, protect, Table.find?_modify]
  split
  · cases vars.find? other <;> rfl
  · rfl

instance : LawfulHostVariables Variables where
  value_bind name value vars := by
    change ((vars.bind name value).lookup name).map (·.value) = some value
    rw [lookup_bind, if_pos rfl]
    rfl
  lookup_bind_of_ne {name other} value vars h := by
    change (vars.bind name value).lookup other = vars.lookup other
    rw [lookup_bind, if_neg h]
  lookup_protect name other vars := vars.lookup_protect name other

end Variables

end OptionShell
