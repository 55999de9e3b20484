import OptionShell.Proofs.Shell.Sound
import OptionShell.Proofs.Variables

/-!
# Guarded rosters

The options are guarded while the variables of both rosters are there and read-only, and `SHELLOPTS` holds the text of
its roster. Setting, adding and removing options of the family keep them so. Nothing like that holds of `BASHOPTS`: an
option of the extension can be on when it comes, and coming refreshes no roster.
-/
namespace OptionShell

namespace Shell

variable {s after : Options (Host Unit)} {d : Definition (Host Unit)} {name : String}

/-! ## Read-only variables -/

theorem readonly_refresh (roster : Roster) (h : s.host.vars.isReadonly name = true) :
    (s.refresh roster).host.vars.isReadonly name = true := by
  rw [Options.refresh]
  split
  · change ((s.host.vars.bind _ _).protect _).isReadonly name = true
    rw [Variables.isReadonly_protect_bind, h, Bool.or_true]
  · exact h

theorem readonly_refresh_self (hAttached : s.attached = true) (roster : Roster) :
    (s.refresh roster).host.vars.isReadonly roster.varName = true := by
  rw [Options.refresh, if_pos hAttached]
  change ((s.host.vars.bind _ _).protect _).isReadonly _ = true
  rw [Variables.isReadonly_protect_bind, decide_eq_true rfl, Bool.true_or]

theorem readonly_refreshFor (d : Definition (Host Unit)) (h : s.host.vars.isReadonly name = true) :
    (s.refreshFor d).host.vars.isReadonly name = true := by
  have hFirst : (if d.inShellopts then s.refresh .shellopts else s).host.vars.isReadonly name = true := by
    split
    · exact readonly_refresh .shellopts h
    · exact h
  rw [Options.refreshFor]
  split
  · exact readonly_refresh .bashopts hFirst
  · exact hFirst

theorem readonly_setResult {admitted : Bool} {value : Int32} {outcome : Outcome}
    (hResult : Options.SetResult d admitted value s (outcome, after)) (h : s.host.vars.isReadonly name = true) :
    after.host.vars.isReadonly name = true := by
  cases hResult with
  | kept outcome hOutcome hKept => exact h
  | same cell hAdmitted hCell hValue => exact h
  | changed cell hAdmitted hCell hValue =>
    exact readonly_refreshFor (s := s.writeCell cell value) d h

theorem readonly_remove (d : Definition (Host Unit)) (h : s.host.vars.isReadonly name = true) :
    (s.remove d).2.host.vars.isReadonly name = true := by
  rw [Options.remove]
  split
  · dsimp only
    split
    · exact readonly_refreshFor (s := s.takeOut d) d h
    · exact h
  · exact h

theorem rosterValue?_eq (roster : Roster) (s : Options (Host Unit)) :
    s.rosterValue? roster = s.host.vars.value? roster.varName := by
  change (s.host.vars.lookup roster.varName).map (·.value) = _
  rw [Variables.lookup, Variables.value?]
  cases s.host.vars.find? roster.varName <;> rfl

/-! ## Guarded options -/

/-- The variables of both rosters are there and read-only, and `SHELLOPTS` holds the text of its roster. -/
structure Guarded (s : Options (Host Unit)) : Prop where
  attached : s.attached = true
  readonly : ∀ roster : Roster, s.host.vars.isReadonly roster.varName = true
  shown : s.Shows .shellopts

/-- Refreshing both rosters guards them. -/
theorem guarded_refreshAll (hSound : Sound s) (hAttached : s.attached = true) : Guarded s.refreshAll := by
  have hShown : s.refreshAll.Shows .shellopts :=
    Options.shows_refreshAll hAttached (ownCells_family.determined hSound.within .shellopts)
  obtain ⟨f, hf⟩ := Options.refreshAll_eq_mapHost s
  obtain ⟨g, hg⟩ := Options.refresh_eq_mapHost .shellopts s
  have hAttached' : (s.refresh .shellopts).attached = true := hg ▸ hAttached
  refine ⟨hf ▸ hAttached, fun roster => ?_, hShown⟩
  rw [Options.refreshAll]
  cases roster with
  | shellopts => exact readonly_refresh .bashopts (readonly_refresh_self hAttached .shellopts)
  | bashopts => exact readonly_refresh_self hAttached' .bashopts

namespace Guarded

theorem setResult (h : Guarded s) (hSound : Sound s) (hd : d ∈ Family) {admitted : Bool} {value : Int32}
    {outcome : Outcome} (hResult : Options.SetResult d admitted value s (outcome, after)) : Guarded after := by
  refine ⟨?_, fun roster => readonly_setResult hResult (h.readonly roster), ?_⟩
  · obtain ⟨storage, host, rfl⟩ := hResult.exists_eq
    exact h.attached
  · exact h.shown.setResult ownCells_family hSound.within h.attached hd hResult

/-- Options of the extension are not on this roster. -/
theorem add (h : Guarded s) (hd : d ∈ primeOptions) : Guarded (s.add d).2 := by
  have hUnlisted : s.lists .shellopts d = false := by
    rw [Options.lists, mirrors_shellopts_of_prime hd]
    rfl
  exact ⟨h.attached, h.readonly, h.shown.add hUnlisted⟩

theorem remove (h : Guarded s) (hSound : Sound s) (hd : d ∈ Family) : Guarded (s.remove d).2 := by
  refine ⟨?_, fun roster => readonly_remove d (h.readonly roster), ?_⟩
  · obtain ⟨host, hRemoved⟩ := Options.exists_remove_eq d s
    rw [hRemoved]
    exact h.attached
  · exact h.shown.remove ownCells_family hSound.within h.attached hd

/-- Another host with the same two variables is as good. -/
theorem mapHost (h : Guarded s) (hSound : Sound s) {f : Host Unit → Host Unit}
    (hVars : ∀ roster : Roster, (f s.host).vars.value? roster.varName = s.host.vars.value? roster.varName ∧
      (f s.host).vars.isReadonly roster.varName = true) : Guarded (s.mapHost f) := by
  refine ⟨h.attached, fun roster => (hVars roster).2, h.shown.congr ?_ ?_⟩
  · rw [rosterValue?_eq, rosterValue?_eq]
    exact (hVars .shellopts).1
  · exact Options.rosterText_mapHost (ownCells_family.determined hSound.within .shellopts) f

end Guarded

end Shell

end OptionShell
