import OptionShell.Options.Change

/-!
# Return to initial values

Every option with an initial value gets it back, through its custom setter if it has one and does not reset its cell.
If anything changed, both rosters are refreshed once, at the end.
-/
namespace OptionShell.Assign

variable {σ : Type} [HostVariables σ] (set : Assign σ)

/-- Gives an option its initial value, if it has one; whether that changed the option. -/
def toInitial (d : Definition σ) : Update σ Bool := do
  match d.initial? with
  | none => return false
  | some initial =>
    if d.setter?.isSome && !d.resetsCell then
      let outcome ← set d .restart initial
      return outcome = .ok
    else match d.cell? with
      | none => return false
      | some cell => modifyGet fun s => (s.storage.read cell ≠ initial, s.writeCell cell initial)

/-- Gives all options but those that `skip` names their initial values; the number of options that changed. -/
def allToInitial (skip : Definition σ → Bool) : Update σ Nat := do
  let defs := ((← get).registry.entries).filter fun d => !skip d
  let changed ← defs.foldlM (fun count d => return if ← set.toInitial d then count + 1 else count) 0
  if 0 < changed then modify (·.refreshAll)
  return changed

def resetAll : Update σ Nat := set.allToInitial fun _ => false

/-- Leaves out the options that keep their value at a restart. -/
def restartAll : Update σ Nat := set.allToInitial fun d => d.keptOnRestart

end OptionShell.Assign
