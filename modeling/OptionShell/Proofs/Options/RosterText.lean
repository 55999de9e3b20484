import Mathlib.Data.List.Sort
import OptionShell.Options.Roster
import OptionShell.Proofs.Registry.Calls

/-!
# Rosters and their variables

The text of a roster depends on the live definitions that the roster has a place for, and on their values. A roster
shows if its variable holds that text.
-/
namespace OptionShell

variable {σ : Type}

namespace Roster

/-- Whether the roster lists the option while it is on. -/
def mirrors (roster : Roster) (d : Definition σ) : Bool := !roster.listing.hides d

@[simp] theorem mirrors_shellopts (d : Definition σ) : shellopts.mirrors d = d.inShellopts := Bool.not_not _

@[simp] theorem mirrors_bashopts (d : Definition σ) : bashopts.mirrors d = d.inBashopts := Bool.not_not _

end Roster

/-- Every reading of the option answers what the value in the cell decides. -/
def Definition.DeterminedBy (d : Definition σ) (cell : CellId) : Prop :=
  ∀ s t : Options σ, s.storage.read cell = t.storage.read cell → ∀ why why', s.get d why = t.get d why'

namespace Definition.DeterminedBy

variable {s : Options σ} {d : Definition σ} {own cell : CellId}

theorem of_cell (hGetter : d.getter? = none) (hCell : d.cell? = some cell) : d.DeterminedBy cell := by
  intro s t hRead why why'
  simp only [Options.get, hGetter, hCell, Option.map_some, hRead]

theorem get_mapHost (h : d.DeterminedBy cell) (f : σ → σ) (why : Access) : (s.mapHost f).get d why = s.get d why :=
  h (s.mapHost f) s rfl why why

theorem get_writeCell_same (h : d.DeterminedBy own) {value : Int32} (hValue : s.storage.read cell = value)
    (why : Access) : (s.writeCell cell value).get d why = s.get d why := by
  refine h _ _ ?_ why why
  rw [Options.writeCell, Storage.read_write]
  split
  · rename_i hSame
    rw [hSame, hValue]
  · rfl

theorem get_writeCell_of_ne (h : d.DeterminedBy own) (hne : own ≠ cell) (value : Int32) (why : Access) :
    (s.writeCell cell value).get d why = s.get d why :=
  h _ _ (Storage.read_write_of_ne s.storage value hne) why why

end Definition.DeterminedBy

namespace Options

variable {s t : Options σ} {roster : Roster} {d : Definition σ}

/-- Whether the roster would list the option now. -/
def lists (roster : Roster) (s : Options σ) (d : Definition σ) : Bool :=
  roster.mirrors d && (s.get d roster.access).any fun value => 0 < value

theorem rosterNames_eq_filterMap (roster : Roster) (s : Options σ) :
    s.rosterNames roster = (s.registry.entries.filter (s.lists roster)).filterMap (·.name?) := by
  rw [rosterNames, Registry.visible, List.filterMap_filter, List.filterMap_filter]
  refine List.filterMap_congr fun d _ => ?_
  rw [lists, Roster.mirrors]
  cases roster.listing.hides d <;> simp

theorem mem_rosterNames_iff {name : String} :
    name ∈ s.rosterNames roster ↔ ∃ d ∈ s.registry.entries, s.lists roster d = true ∧ d.name? = some name := by
  simp only [rosterNames_eq_filterMap, List.mem_filterMap, List.mem_filter, and_assoc]

theorem rosterText_congr (h : s.registry.entries.filter (s.lists roster) = t.registry.entries.filter (t.lists roster)) :
    s.rosterText roster = t.rosterText roster := by
  rw [rosterText, rosterText, rosterNames_eq_filterMap, rosterNames_eq_filterMap, h]

/-- A roster is in the order of its names, for unnamed options have no place on it. -/
theorem rosterNames_ascending (s : Options σ) (roster : Roster) : (s.rosterNames roster).Pairwise (· < ·) := by
  have hUnnamed : (s.registry.unnamed.filter (s.lists roster)).filterMap (·.name?) = [] :=
    List.filterMap_eq_nil_iff.mpr fun d hd => (Registry.mem_unnamed_iff.mp (List.mem_filter.mp hd).1).2
  rw [rosterNames_eq_filterMap, ← List.take_append_drop s.registry.named s.registry.entries, ← Registry.unnamed,
    List.filter_append, List.filterMap_append, hUnnamed, List.append_nil, List.pairwise_filterMap]
  refine (s.registry.pairwise_named.filter _).imp ?_
  rintro d e ⟨first, second, hFirst, hSecond, hLess⟩ name hName other hOther
  cases hFirst.symm.trans hName
  cases hSecond.symm.trans hOther
  exact hLess

/-- The names on a roster determine its text, also across programs. -/
theorem rosterText_eq_of_mem_iff {ρ : Type} {t : Options ρ}
    (h : ∀ name, name ∈ s.rosterNames roster ↔ name ∈ t.rosterNames roster) :
    s.rosterText roster = t.rosterText roster := by
  rw [rosterText, rosterText, (rosterNames_ascending s roster).eq_of_mem_iff (rosterNames_ascending t roster) h]

theorem lists_congr (h : roster.mirrors d = true → s.get d roster.access = t.get d roster.access) :
    s.lists roster d = t.lists roster d := by
  rw [lists, lists]
  cases hMirrored : roster.mirrors d with
  | false => rfl
  | true => rw [h hMirrored]

theorem rosterText_eq_of_get_eq (hEntries : s.registry.entries = t.registry.entries)
    (h : ∀ d ∈ s.registry.entries, roster.mirrors d = true → s.get d roster.access = t.get d roster.access) :
    s.rosterText roster = t.rosterText roster := by
  apply rosterText_congr
  rw [← hEntries]
  exact List.filter_congr fun d hd => lists_congr (h d hd)

/-- The mirrored definitions have cells that decide how they read. -/
def Determined (roster : Roster) (s : Options σ) : Prop :=
  ∀ d ∈ s.registry.entries, roster.mirrors d = true → ∃ cell, d.DeterminedBy cell

theorem rosterText_mapHost (h : s.Determined roster) (f : σ → σ) :
    (s.mapHost f).rosterText roster = s.rosterText roster := by
  refine rosterText_eq_of_get_eq rfl fun d hd hMirrored => ?_
  obtain ⟨cell, hCell⟩ := h d hd hMirrored
  exact hCell.get_mapHost f _

variable [HostVariables σ]

/-- The value of the roster's variable. -/
def rosterValue? (roster : Roster) (s : Options σ) : Option String :=
  (HostVariables.lookup s.host roster.varName).map (·.value)

/-- The variable of the roster holds the roster's text. -/
def Shows (roster : Roster) (s : Options σ) : Prop := s.rosterValue? roster = some (s.rosterText roster)

theorem Shows.congr (h : s.Shows roster) (hValue : t.rosterValue? roster = s.rosterValue? roster)
    (hText : t.rosterText roster = s.rosterText roster) : t.Shows roster := by
  rw [Shows, hValue, hText]
  exact h

/-! ## Refreshing -/

omit [HostVariables σ] in
theorem varName_injective {other : Roster} (h : roster.varName = other.varName) : roster = other := by
  cases roster <;> cases other <;> first | rfl | exact absurd h (by decide)

variable [LawfulHostVariables σ]

theorem lookup_refresh_of_ne {other : Roster} (h : roster ≠ other) (s : Options σ) :
    HostVariables.lookup (s.refresh other).host roster.varName = HostVariables.lookup s.host roster.varName := by
  rw [refresh]
  split
  · change HostVariables.lookup (HostVariables.protect _ _) _ = _
    rw [LawfulHostVariables.lookup_protect]
    exact LawfulHostVariables.lookup_bind_of_ne _ _ fun hName => h (varName_injective hName)
  · rfl

theorem lookup_refreshFor (h : roster.mirrors d = false) (s : Options σ) :
    HostVariables.lookup (s.refreshFor d).host roster.varName = HostVariables.lookup s.host roster.varName := by
  cases roster with
  | shellopts =>
    rw [Roster.mirrors_shellopts] at h
    rw [refreshFor, h]
    split
    · exact lookup_refresh_of_ne (by decide) s
    · rfl
  | bashopts =>
    rw [Roster.mirrors_bashopts] at h
    rw [refreshFor, h]
    change HostVariables.lookup (if d.inShellopts then s.refresh .shellopts else s).host _ = _
    split
    · exact lookup_refresh_of_ne (by decide) s
    · rfl

theorem shows_refresh (hAttached : s.attached = true) (hDetermined : s.Determined roster) :
    (s.refresh roster).Shows roster := by
  rw [refresh, if_pos hAttached, Shows, rosterText_mapHost hDetermined]
  change (HostVariables.lookup (HostVariables.protect _ _) _).map _ = _
  rw [LawfulHostVariables.lookup_protect, LawfulHostVariables.value_bind]

theorem Shows.refresh (hShows : s.Shows roster) (hAttached : s.attached = true) (hDetermined : s.Determined roster)
    (other : Roster) : (s.refresh other).Shows roster := by
  by_cases hSame : roster = other
  · exact hSame ▸ shows_refresh hAttached hDetermined
  · refine hShows.congr ?_ ?_
    · rw [rosterValue?, lookup_refresh_of_ne hSame, rosterValue?]
    · obtain ⟨f, hf⟩ := refresh_eq_mapHost other s
      rw [hf, rosterText_mapHost hDetermined]

theorem shows_refreshAll (hAttached : s.attached = true) (hDetermined : s.Determined roster) :
    s.refreshAll.Shows roster := by
  obtain ⟨f, hf⟩ := refresh_eq_mapHost .shellopts s
  have hAttached' : (s.refresh .shellopts).attached = true := hf ▸ hAttached
  have hDetermined' : (s.refresh .shellopts).Determined roster := hf ▸ hDetermined
  cases roster with
  | shellopts => exact (shows_refresh hAttached hDetermined).refresh hAttached' hDetermined' .bashopts
  | bashopts => exact shows_refresh hAttached' hDetermined'

theorem shows_refreshFor (hAttached : s.attached = true) (hDetermined : s.Determined roster)
    (h : roster.mirrors d = false → s.Shows roster) : (s.refreshFor d).Shows roster := by
  cases hMirrored : roster.mirrors d with
  | false =>
    refine (h hMirrored).congr ?_ ?_
    · rw [rosterValue?, lookup_refreshFor hMirrored, rosterValue?]
    · obtain ⟨f, hf⟩ := refreshFor_eq_mapHost d s
      rw [hf, rosterText_mapHost hDetermined]
  | true =>
    cases roster with
    | shellopts =>
      rw [Roster.mirrors_shellopts] at hMirrored
      rw [refreshFor, if_pos hMirrored]
      have hFirst := shows_refresh hAttached hDetermined
      split
      · obtain ⟨f, hf⟩ := refresh_eq_mapHost .shellopts s
        exact hFirst.refresh (hf ▸ hAttached) (hf ▸ hDetermined) .bashopts
      · exact hFirst
    | bashopts =>
      rw [Roster.mirrors_bashopts] at hMirrored
      rw [refreshFor, if_pos hMirrored]
      split
      · obtain ⟨f, hf⟩ := refresh_eq_mapHost .shellopts s
        exact shows_refresh (hf ▸ hAttached) (hf ▸ hDetermined)
      · exact shows_refresh hAttached hDetermined

end Options

end OptionShell
