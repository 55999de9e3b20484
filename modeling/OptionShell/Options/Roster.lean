import OptionShell.Options.State

/-!
# Rosters

The variables `SHELLOPTS` and `BASHOPTS` are rosters: each lists those options that are on and that their definitions
assign to it. A roster is refreshed after changes, and is read-only for scripts.
-/
namespace OptionShell

namespace Roster

def all : List Roster := [shellopts, bashopts]

def varName : Roster → String
  | shellopts => "SHELLOPTS"
  | bashopts => "BASHOPTS"

/-- The context whose listing holds the options of the roster. -/
def listing : Roster → Access
  | shellopts => .shellopts
  | bashopts => .bashopts

/-- The context in which the options of the roster are read and set. -/
def access : Roster → Access
  | shellopts => .setO
  | bashopts => .shopt

end Roster

namespace Options

variable {σ : Type}

/-- The names on a roster: of options with a positive value, in registry order. -/
def rosterNames (roster : Roster) (s : Options σ) : List String :=
  (s.registry.visible roster.listing).filterMap fun d =>
    if (s.get d roster.access).any fun value => 0 < value then d.name? else none

/-- The text of a roster: its names between colons. -/
def rosterText (roster : Roster) (s : Options σ) : String := ":".intercalate (s.rosterNames roster)

variable [HostVariables σ]

def refresh (roster : Roster) (s : Options σ) : Options σ :=
  if s.attached then
    s.mapHost fun host =>
      HostVariables.protect roster.varName (HostVariables.bind roster.varName (s.rosterText roster) host)
  else s

def refreshAll (s : Options σ) : Options σ := (s.refresh .shellopts).refresh .bashopts

def refreshFor (d : Definition σ) (s : Options σ) : Options σ :=
  let s := if d.inShellopts then s.refresh .shellopts else s
  if d.inBashopts then s.refresh .bashopts else s

theorem refresh_eq_mapHost (roster : Roster) (s : Options σ) : ∃ f, s.refresh roster = s.mapHost f := by
  rw [refresh]
  split
  · exact ⟨_, rfl⟩
  · exact ⟨id, rfl⟩

theorem refreshFor_eq_mapHost (d : Definition σ) (s : Options σ) : ∃ f, s.refreshFor d = s.mapHost f := by
  have hFirst : ∃ f, (if d.inShellopts then s.refresh .shellopts else s) = s.mapHost f := by
    split
    · exact refresh_eq_mapHost .shellopts s
    · exact ⟨id, rfl⟩
  obtain ⟨f, hf⟩ := hFirst
  rw [refreshFor, hf]
  split
  · obtain ⟨g, hg⟩ := refresh_eq_mapHost .bashopts (s.mapHost f)
    exact ⟨g ∘ f, hg⟩
  · exact ⟨f, rfl⟩

theorem refreshAll_eq_mapHost (s : Options σ) : ∃ f, s.refreshAll = s.mapHost f := by
  obtain ⟨f, hf⟩ := refresh_eq_mapHost .shellopts s
  obtain ⟨g, hg⟩ := refresh_eq_mapHost .bashopts (s.mapHost f)
  rw [refreshAll, hf, hg]
  exact ⟨g ∘ f, rfl⟩

end Options

end OptionShell
