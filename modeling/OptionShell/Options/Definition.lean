import OptionShell.Options.Script

/-!
# Option definitions

A definition says how an option is called, where its value lives, what may change it and where it is listed. Two
definitions are the same option exactly if their identities agree.
-/
namespace OptionShell

/-- A custom reader. It is trusted completely. `note` is what a client's reading leaves behind in the host: a reader
that computes its value may keep the result there. -/
structure Getter (σ : Type) where
  value : Access → Storage → σ → Int32
  note : Access → Storage → σ → σ := fun _ _ host => host

/-- A custom writer. It takes over the change policy as well. -/
abbrev Setter (σ : Type) := Access → Int32 → Script σ Outcome

/-- The rules for changing and listing an option. -/
structure Traits where
  readonly : Bool := false
  /-- Changes are refused outside contexts of the start and privileged ones. -/
  fixedAfterStart : Bool := false
  /-- Changes are dropped and not refused. -/
  dropsChanges : Bool := false
  /-- Left out at a restart, but not at a reset. -/
  keptOnRestart : Bool := false
  /-- A return to initial values writes the cell even if there is a setter. -/
  resetsCell : Bool := false
  hiddenFromSet : Bool := false
  hiddenFromShopt : Bool := false
  inShellopts : Bool := false
  inBashopts : Bool := false
deriving DecidableEq, Repr

structure Definition (σ : Type) extends Traits where
  /-- Identity: a definition that is registered again is recognised by it. -/
  id : Nat
  name? : Option String := none
  letter? : Option Char := none
  /-- Storage of the value; missing where custom functions own it. -/
  cell? : Option CellId := none
  getter? : Option (Getter σ) := none
  setter? : Option (Setter σ) := none
  initial? : Option Int32 := none
  help? : Option String := none

namespace Definition

variable {σ : Type}

def label (d : Definition σ) : String :=
  match d.name?, d.letter? with
  | some name, _ => name
  | none, some letter => "-" ++ String.singleton letter
  | none, none => "(unnamed)"

end Definition

/-- Whether a listing for this reason leaves the option out. -/
def Access.hides {σ : Type} (why : Access) (d : Definition σ) : Bool :=
  match why with
  | .flag => d.letter?.isNone
  | .setO => d.hiddenFromSet
  | .shopt => d.hiddenFromShopt
  | .shellopts => !d.inShellopts
  | .bashopts => !d.inBashopts
  | .any | .arguments | .environment | .scopeEnd | .restart | .unload => false

end OptionShell
