import OptionShell.Options.Roster

/-!
# Changing options

A custom setter decides about a change alone. Without one the change policy applies: a read-only option refuses, an
option that is fixed after the start yields only to contexts of the start and to privileged ones, an option that drops
changes does so without complaint, and otherwise the cell is written. Changes of listed options refresh the rosters.
-/
namespace OptionShell

namespace Options

variable {σ : Type} [HostVariables σ]

/-- Removes a definition from the registry. If it was on, the rosters that listed it are refreshed. -/
def remove (d : Definition σ) (s : Options σ) : Outcome × Options σ :=
  if s.registry.holds d then
    let s := s.takeOut d
    (.ok, if s.isOn d .unload then s.refreshFor d else s)
  else (.unchanged, s)

theorem remove_eq_mapHost (d : Definition σ) (s : Options σ) :
    ∃ f, (s.remove d).2 = mapHost f (if s.registry.holds d then s.takeOut d else s) := by
  rw [remove]
  split
  · obtain ⟨f, hf⟩ := refreshFor_eq_mapHost d (s.takeOut d)
    dsimp only
    split
    · exact ⟨f, hf⟩
    · exact ⟨id, rfl⟩
  · exact ⟨id, rfl⟩

def applyPolicy (d : Definition σ) (why : Access) (value : Int32) (s : Options σ) : Outcome × Options σ :=
  if d.readonly then (.readOnly, s)
  else if d.fixedAfterStart && !why.isStartup && !why.isPrivileged then
    if s.get d why = some value then (.unchanged, s)
    else if d.dropsChanges then (.ignored, s)
    else (.forbidden, s)
  else if d.dropsChanges then (.ignored, s)
  else match d.cell? with
    | none => (.readOnly, s)
    | some cell =>
      let written := s.writeCell cell value
      (.ok, if s.storage.read cell = value then written else written.refreshFor d)

end Options

/-- A way to set an option: the one from outside, or the one that is left to a setter which runs already. -/
abbrev Assign (σ : Type) := Definition σ → Access → Int32 → Update σ Outcome

namespace Assign

variable {σ : Type} (set : Assign σ)

def named (name : String) (why : Access) (value : Int32) : Update σ Outcome := do
  match (← get).registry.findName? name with
  | some d => set d why value
  | none => return .notFound

def lettered (letter : Char) (why : Access) (value : Int32) : Update σ Outcome := do
  match (← get).registry.findLetter? letter with
  | some d => set d why value
  | none => return .notFound

theorem named_eq (name : String) (why : Access) (value : Int32) (s : Options σ) :
    set.named name why value s = match s.registry.findName? name with
      | some d => set d why value s
      | none => some (.notFound, s) := by
  have hRun : set.named name why value s = (match s.registry.findName? name with
    | some d => set d why value
    | none => pure .notFound : Update σ Outcome) s := rfl
  rw [hRun]
  cases s.registry.findName? name <;> rfl

theorem lettered_eq (letter : Char) (why : Access) (value : Int32) (s : Options σ) :
    set.lettered letter why value s = match s.registry.findLetter? letter with
      | some d => set d why value s
      | none => some (.notFound, s) := by
  have hRun : set.lettered letter why value s = (match s.registry.findLetter? letter with
    | some d => set d why value
    | none => pure .notFound : Update σ Outcome) s := rfl
  rw [hRun]
  cases s.registry.findLetter? letter <;> rfl

end Assign

end OptionShell
