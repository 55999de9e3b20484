import OptionShell.Options.Listing
import OptionShell.Proofs.Options.Inheritance
import OptionShell.Proofs.Registry.Within

/-!
# Names on a roster

The text of a roster joins the names of its options in ascending order. They are the options that are on, except for
those with a negative value: these are on for every listing, but a roster leaves them out.
-/
namespace OptionShell

variable {σ : Type}

/-- The names that a text joins with colons; an empty text joins none. -/
def joinedNames (text : String) : List String := if text = "" then [] else colonPieces text

theorem joinedNames_intercalate {names : List String} (h : ∀ name ∈ names, name ≠ "" ∧ ':' ∉ name.toList) :
    joinedNames (":".intercalate names) = names := by
  cases names with
  | nil => rfl
  | cons name rest =>
    have hText : ":".intercalate (name :: rest) ≠ "" := by
      intro hEmpty
      have hListed := listedNames_intercalate fun other hOther => (h other hOther).2
      rw [hEmpty, List.filter_eq_self.mpr fun other hOther => decide_eq_true (h other hOther).1] at hListed
      cases hListed
    rw [joinedNames, if_neg hText, colonPieces_intercalate (List.cons_ne_nil name rest) fun other hOther =>
      (h other hOther).2]

namespace Options

variable {s : Options σ} {roster : Roster}

def isNegative (s : Options σ) (d : Definition σ) (why : Access) : Bool := (s.get d why).any fun value => value < 0

/-- The option is registered under this name, and the roster has a place for it. -/
structure Mirrored (roster : Roster) (s : Options σ) (d : Definition σ) (name : String) : Prop where
  live : d ∈ s.registry.entries
  name : d.name? = some name
  mirrors : roster.mirrors d = true

theorem lists_eq_isOn (roster : Roster) (s : Options σ) (d : Definition σ) :
    s.lists roster d = (roster.mirrors d && s.isOn d roster.access && !s.isNegative d roster.access) := by
  rw [lists, isOn, isNegative, Bool.and_assoc]
  congr 1
  cases s.get d roster.access with
  | none => rfl
  | some value =>
    have hZero : value = 0 ↔ value.toInt = 0 := by rw [← Int32.toInt_inj]; rfl
    rw [Option.any_some, Option.any_some, Option.any_some, Bool.eq_iff_iff]
    simp [Int32.lt_iff_toInt_lt, hZero]
    omega

theorem joinedNames_rosterText (hNames : ∀ d name, s.Mirrored roster d name → name ≠ "" ∧ ':' ∉ name.toList) :
    joinedNames (s.rosterText roster) = s.rosterNames roster := by
  refine joinedNames_intercalate fun name hName => ?_
  obtain ⟨d, hd, hListed, hOwn⟩ := mem_rosterNames_iff.mp hName
  exact hNames d name ⟨hd, hOwn, (Bool.and_eq_true_iff.mp hListed).1⟩

theorem mem_rosterNames_iff_isOn {name : String} : name ∈ s.rosterNames roster ↔
    ∃ d, s.Mirrored roster d name ∧ s.isOn d roster.access = true ∧ s.isNegative d roster.access = false := by
  rw [mem_rosterNames_iff]
  simp only [lists_eq_isOn, Bool.and_eq_true, Bool.not_eq_true']
  constructor
  · rintro ⟨d, hd, ⟨⟨hMirrors, hOn⟩, hSign⟩, hName⟩
    exact ⟨d, ⟨hd, hName, hMirrors⟩, hOn, hSign⟩
  · rintro ⟨d, ⟨hd, hName, hMirrors⟩, hOn, hSign⟩
    exact ⟨d, hd, ⟨⟨hMirrors, hOn⟩, hSign⟩, hName⟩

theorem isOn_of_isNegative {d : Definition σ} {why : Access} (h : s.isNegative d why = true) : s.isOn d why = true := by
  obtain ⟨value, hValue, hSign⟩ := (Option.any_eq_true _ _).mp h
  refine (Option.any_eq_true _ _).mpr ⟨value, hValue, ?_⟩
  rw [decide_eq_true_eq] at hSign ⊢
  rintro rfl
  exact absurd hSign (by decide)

/-- The text of a roster splits into ascending names, those of the mirrored options that are on and not negative. So it
names exactly the options that are on if and only if no mirrored option is negative. -/
theorem rosterText_names (roster : Roster) (s : Options σ)
    (hNames : ∀ d name, s.Mirrored roster d name → name ≠ "" ∧ ':' ∉ name.toList) :
    (joinedNames (s.rosterText roster)).Pairwise (· < ·) ∧
      (∀ name, name ∈ joinedNames (s.rosterText roster) ↔
        ∃ d, s.Mirrored roster d name ∧ s.isOn d roster.access = true ∧ s.isNegative d roster.access = false) ∧
      ((∀ name, name ∈ joinedNames (s.rosterText roster) ↔
          ∃ d, s.Mirrored roster d name ∧ s.isOn d roster.access = true) ↔
        ∀ d name, s.Mirrored roster d name → s.isNegative d roster.access = false) := by
  rw [joinedNames_rosterText hNames]
  refine ⟨rosterNames_ascending s roster, fun name => mem_rosterNames_iff_isOn, ?_⟩
  simp only [mem_rosterNames_iff_isOn]
  constructor
  · intro hOn d name hMirrored
    cases hSign : s.isNegative d roster.access with
    | false => rfl
    | true =>
      obtain ⟨e, heMirrored, -, heSign⟩ := (hOn name).mpr ⟨d, hMirrored, isOn_of_isNegative hSign⟩
      obtain rfl := Registry.eq_of_name?_eq heMirrored.live hMirrored.live heMirrored.name hMirrored.name
      exact hSign.symm.trans heSign
  · intro hSigns name
    refine exists_congr fun d => and_congr_right fun hMirrored => and_iff_left (hSigns d name hMirrored)

/-- Values other than zero and one, one of them negative, on both rosters. -/
theorem rosterText_names_of_mixed_values :
    let noglob : Definition Unit := { id := 0, name? := some "noglob", cell? := some 0, inShellopts := true }
    let errexit : Definition Unit :=
      { id := 1, name? := some "errexit", letter? := some 'e', cell? := some 1, inShellopts := true, inBashopts := true }
    let xtrace : Definition Unit := { id := 2, name? := some "xtrace", cell? := some 2, inShellopts := true }
    let no : Definition Unit := { id := 3, name? := some "no", cell? := some 3, inShellopts := true }
    let s : Options Unit := {
      registry := Registry.empty.addEach [noglob, errexit, xtrace, no], storage := .ofList [2147483647, 7, 0, -7],
      host := () }
    s.registry.Consistent ∧ (∀ d name, s.Mirrored .shellopts d name → name ≠ "" ∧ ':' ∉ name.toList) ∧
      joinedNames (s.rosterText .shellopts) = ["errexit", "noglob"] ∧
      ¬∀ name, name ∈ joinedNames (s.rosterText .shellopts) ↔
        ∃ d, s.Mirrored .shellopts d name ∧ s.isOn d Roster.shellopts.access = true := by
  intro noglob errexit xtrace no s
  have hIds : Identified {d | d ∈ [noglob, errexit, xtrace, no]} := identified_of_nodup (by decide)
  have hKept : s.registry.WellKept {d | d ∈ [noglob, errexit, xtrace, no]} := by
    dsimp only [s]
    exact Registry.wellKept_addEach hIds
  have hAll : ∀ d ∈ s.registry.entries, d.name?.all (fun name => name ≠ "" ∧ ':' ∉ name.toList) = true := by
    decide +kernel
  have hNames : ∀ d name, s.Mirrored .shellopts d name → name ≠ "" ∧ ':' ∉ name.toList := by
    intro d name hMirrored
    have hName := hAll d hMirrored.live
    rw [hMirrored.name, Option.all_some, decide_eq_true_eq] at hName
    exact hName
  obtain ⟨-, -, hExact⟩ := rosterText_names .shellopts s hNames
  refine ⟨hKept.consistent, hNames, by decide +kernel, fun hOn => ?_⟩
  have hSign : s.registry.entries.any (fun d => d.name?.isSome && Roster.shellopts.mirrors d &&
    s.isNegative d Roster.shellopts.access) = true := by decide +kernel
  obtain ⟨d, hd, hNegative⟩ := List.any_eq_true.mp hSign
  simp only [Bool.and_eq_true] at hNegative
  obtain ⟨⟨hName, hMirrors⟩, hNegative⟩ := hNegative
  obtain ⟨name, hName⟩ := Option.isSome_iff_exists.mp hName
  exact Bool.false_ne_true ((hExact.mp hOn d name ⟨hd, hName, hMirrors⟩).symm.trans hNegative)

/-- A negative option is on for its reading, its listings and the flags, but its roster does not name it. -/
theorem negative_option_unlisted :
    let noglob : Definition Unit :=
      { id := 0, name? := some "noglob", letter? := some 'f', cell? := some 0, inShellopts := true }
    let s : Options Unit := { registry := (Registry.empty.add noglob).2, storage := .ofList [-1], host := () }
    s.registry.Consistent ∧ s.Mirrored .shellopts noglob "noglob" ∧ s.isOn noglob Roster.shellopts.access = true ∧
      s.display noglob .setO .setCommand = "set -o noglob" ∧ s.flagString "" = "f" ∧
      joinedNames (s.rosterText .shellopts) = [] := by
  intro noglob s
  have hConsistent : s.registry.Consistent := Registry.consistent_empty.add fun e he => nomatch he
  have hLive : noglob ∈ s.registry.entries :=
    (Registry.mem_entries_add_iff Registry.consistent_empty fun e he => nomatch he).mpr (.inr ⟨rfl, by decide +kernel⟩)
  exact ⟨hConsistent, ⟨hLive, rfl, rfl⟩, by decide +kernel, by decide +kernel, by decide +kernel, by decide +kernel⟩

end Options

end OptionShell
