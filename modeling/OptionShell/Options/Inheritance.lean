import OptionShell.Options.Change

/-!
# Inherited options

At the start of the shell the options named in a roster from the environment are turned on. Names that are unknown, or
of options that the roster does not list, are passed over.
-/
namespace OptionShell

def listedNames (text : String) : List String :=
  ((text.toList.splitOn ':').filter fun name => !name.isEmpty).map String.ofList

namespace Options

/-- The names on an inherited roster; none unless its variable was imported as a scalar. -/
def inheritedNames {σ : Type} [HostVariables σ] (roster : Roster) (s : Options σ) : List String :=
  if s.attached then
    match HostVariables.lookup s.host roster.varName with
    | some binding => if binding.imported && binding.shape = .scalar then listedNames binding.value else []
    | none => []
  else []

end Options

namespace Assign

variable {σ : Type} [HostVariables σ] (set : Assign σ)

/-- Turns one inherited option on; a refusal if that fails. -/
def inheritName (roster : Roster) (why : Access) (name : String) : Update σ (Option Refusal) := do
  match (← get).registry.findName? name with
  | none => return none
  | some d =>
    if roster.listing.hides d || why.hides d then return none
    let outcome ← set d why 1
    return if outcome.isRefused then some ⟨name, outcome⟩ else none

/-- Turns on the options on an inherited roster; the refusals, none if `quiet`. -/
def inherit (roster : Roster) (why : Access) (quiet : Bool) : Update σ (List Refusal) := do
  let names := (← get).inheritedNames roster
  let refusals ← names.filterMapM (set.inheritName roster why)
  return if quiet then [] else refusals

/-- Inherits both rosters if `inheriting`, and writes them for the first time. -/
def openRosters (inheriting : Bool) : Update σ Unit := do
  if inheriting then
    for roster in Roster.all do
      let _ ← set.inherit roster roster.access true
  modify (·.refreshAll)

end Assign

end OptionShell
