import OptionShell.Builtin.Shopt
import OptionShell.Proofs.Options.ListingText
import OptionShell.Proofs.Registry.Selection

/-!
# Listings by state

Without names, `shopt -s` and `shopt -u` list options by their values: one hides the options that are `0`, the other
those that are `1`. So an option with another value is listed by both, and as one that is on.
-/
namespace OptionShell

namespace Text

/-! ## Joined lines -/

variable {lines part : List String}

/-- What each line takes up, with its separator. -/
def extent (lines : List String) : Nat := (lines.flatMap fun line => "\n".toList ++ line.toList).length

theorem extent_cons (line : String) (lines : List String) : extent (line :: lines) = line.length + 1 + extent lines := by
  rw [extent, List.flatMap_cons, List.length_append, List.length_append, String.length_toList, Nat.add_comm line.length]
  rfl

theorem length_joinLines (h : lines ≠ []) : (joinLines lines).length + 1 = extent lines := length_intercalate "\n" h

theorem extent_le (h : part.Sublist lines) : extent part ≤ extent lines := by
  induction h with
  | slnil => exact Nat.le_refl _
  | cons line h ih =>
    rw [extent_cons]
    omega
  | cons_cons line h ih =>
    rw [extent_cons, extent_cons]
    omega

theorem eq_of_extent_eq (h : part.Sublist lines) (hSame : extent part = extent lines) : part = lines := by
  induction h with
  | slnil => rfl
  | cons line h ih =>
    have hShorter := extent_le h
    rw [extent_cons] at hSame
    omega
  | cons_cons line h ih =>
    rw [extent_cons, extent_cons] at hSame
    rw [ih (by omega)]

/-- A line that is left out can be told from the joined text, unless it is empty. -/
theorem eq_of_joinLines_eq (h : part.Sublist lines) (hLines : "" ∉ lines) (hSame : joinLines part = joinLines lines) :
    part = lines := by
  cases part with
  | nil =>
    cases lines with
    | nil => rfl
    | cons line rest =>
      have hLength := length_joinLines (List.cons_ne_nil line rest)
      rw [← hSame, extent_cons] at hLength
      have hEmpty : line.length = 0 := by
        change 0 + 1 = _ at hLength
        omega
      exact absurd (String.length_eq_zero_iff.mp hEmpty ▸ List.mem_cons_self) hLines
  | cons line rest =>
    have hMore : lines ≠ [] := List.ne_nil_of_length_pos (Nat.lt_of_lt_of_le (Nat.succ_pos _) h.length_le)
    refine eq_of_extent_eq h ?_
    rw [← length_joinLines hMore, ← length_joinLines (List.cons_ne_nil line rest), hSame]

end Text

theorem Output.lines_ofText (lines : String) : (Output.ofText lines).lines = lines := by
  rw [ofText]
  split
  · rename_i hEmpty
    exact (String.isEmpty_iff.mp hEmpty).symm
  · rfl

/-! ## Masks -/

/-- A mask with a single bit hides the value of the bit. -/
theorem isMasked_iff {mask : UInt64} {value : Int32} (hPos : 0 ≤ value.toInt)
    (hMask : mask.toNat = 1 <<< value.toInt.toNat) {value? : Option Int32} :
    isMasked mask value? = true ↔ value? = some value := by
  cases value? with
  | none => exact iff_of_false Bool.false_ne_true nofun
  | some other =>
    change (decide (0 ≤ other) && mask.toNat.testBit other.toInt.toNat) = true ↔ _
    rw [hMask, Nat.one_shiftLeft, Nat.testBit_two_pow, Bool.and_eq_true, decide_eq_true_eq, decide_eq_true_eq,
      Int32.le_iff_toInt_le, Option.some_inj, ← Int32.toInt_inj]
    change 0 ≤ other.toInt ∧ _ ↔ _
    omega

namespace Options

variable {σ : Type} {s : Options σ} {d : Definition σ} {why : Access} {style : Style}

/-- The listing of the given options. -/
def table (s : Options σ) (why : Access) (style : Style) (defs : List (Definition σ)) : String :=
  Text.joinLines (defs.map fun d => s.display d why style)

theorem listing_eq_table {mask : UInt64} (value : Int32) (hPos : 0 ≤ value.toInt)
    (hMask : mask.toNat = 1 <<< value.toInt.toNat) :
    s.listing why mask style = s.table why style ((s.listable why style).filter fun d => s.get d why ≠ some value) := by
  rw [listing, table, ← List.filterMap_eq_map, List.filterMap_filter]
  refine congrArg Text.joinLines (List.filterMap_congr fun d _ => ?_)
  simp only [displayUnless, isMasked_iff hPos hMask, decide_not, Bool.not_eq_true', decide_eq_false_iff_not,
    Function.comp_apply, ite_not]

/-- The options that a listing by name shows, if all options have names. -/
theorem listable_columns (hNames : ∀ d ∈ s.registry.entries, d.name?.isSome = true) :
    s.listable why .columns = s.registry.visible why :=
  List.filter_eq_self.mpr fun d hd => hNames d (List.mem_filter.mp hd).1

theorem dropLineFeeds_append_onOffText (front : String) (on : Bool) :
    dropLineFeeds (front ++ onOffText on) = front ++ onOffText on := by
  have hEnd : ((onOffText on).toList.reverse ++ front.toList.reverse).dropWhile (· = '\n') =
      (onOffText on).toList.reverse ++ front.toList.reverse := by cases on <;> rfl
  rw [dropLineFeeds, String.toList_append, List.reverse_append, hEnd, ← List.reverse_append, List.reverse_reverse,
    ← String.toList_append, String.ofList_toList]

theorem display_columns (s : Options σ) (d : Definition σ) (why : Access) :
    s.display d why .columns = Definition.onOffLine (d.name?.getD "") (s.isOn d why) :=
  dropLineFeeds_append_onOffText _ _

theorem display_ne_empty (s : Options σ) (d : Definition σ) (why : Access) : s.display d why .columns ≠ "" := by
  rw [display_columns, Definition.onOffLine]
  intro hEmpty
  have hState := (String.append_eq_empty_iff.mp hEmpty).2
  cases hOn : s.isOn d why
  · rw [hOn] at hState
    exact absurd hState (by decide)
  · rw [hOn] at hState
    exact absurd hState (by decide)

/-- A table of fewer options has another text. -/
theorem eq_of_table_eq {shown listed : List (Definition σ)} (h : shown.Sublist listed)
    (hSame : s.table why .columns shown = s.table why .columns listed) : shown = listed := by
  have hLines : "" ∉ listed.map fun d => s.display d why .columns := fun hMem => by
    obtain ⟨d, -, hEmpty⟩ := List.mem_map.mp hMem
    exact display_ne_empty s d why hEmpty
  have hLength := congrArg List.length (Text.eq_of_joinLines_eq (h.map _) hLines hSame)
  rw [List.length_map, List.length_map] at hLength
  exact h.eq_of_length hLength

/-- A stored option is on unless its value is zero. -/
theorem isOn_iff (hStored : d.cell?.isSome = true) : s.isOn d why = true ↔ s.get d why ≠ some 0 := by
  obtain ⟨cell, hCell⟩ := Option.isSome_iff_exists.mp hStored
  obtain ⟨value, hValue⟩ : ∃ value, s.get d why = some value := by
    rw [get, hCell]
    split
    · exact ⟨_, rfl⟩
    · exact ⟨_, rfl⟩
  rw [isOn, hValue, Option.any_some, decide_eq_true_eq]
  exact not_congr Option.some_inj.symm

section State

variable {defs : List (Definition σ)} (hStored : ∀ d ∈ defs, d.cell?.isSome = true)

include hStored

theorem filter_isOn : defs.filter (fun d => s.isOn d why) = defs.filter fun d => s.get d why ≠ some 0 :=
  List.filter_congr fun d hd => Bool.eq_iff_iff.mpr ((isOn_iff (hStored d hd)).trans decide_eq_true_iff.symm)

/-- Showing the options whose value is not one shows those that are off, if and only if there are no other values. -/
theorem table_eq_off_iff :
    s.table why .columns (defs.filter fun d => s.get d why ≠ some 1) =
      s.table why .columns (defs.filter fun d => !s.isOn d why) ↔
    ∀ d ∈ defs, s.get d why = some 0 ∨ s.get d why = some 1 := by
  constructor
  · intro hSame d hd
    have hFewer : (defs.filter fun d => !s.isOn d why).Sublist (defs.filter fun d => s.get d why ≠ some 1) :=
      List.monotone_filter_right defs fun d hOff => by
        refine decide_eq_true fun hOne => ?_
        rw [isOn, hOne] at hOff
        cases hOff
    have hLists := eq_of_table_eq hFewer hSame.symm
    by_cases hOne : s.get d why = some 1
    · exact .inr hOne
    · have hListed : d ∈ defs.filter fun d => s.get d why ≠ some 1 := List.mem_filter.mpr ⟨hd, decide_eq_true hOne⟩
      rw [← hLists] at hListed
      refine .inl (not_not.mp fun hMore => ?_)
      have hOff := (List.mem_filter.mp hListed).2
      rw [(isOn_iff (hStored d hd)).mpr hMore] at hOff
      cases hOff
  · intro hBits
    refine congrArg (s.table why .columns) (List.filter_congr fun d hd => Bool.eq_iff_iff.mpr ?_)
    rw [decide_eq_true_iff, Bool.not_eq_true', ← Bool.not_eq_true, isOn_iff (hStored d hd), not_not]
    exact ⟨(hBits d hd).resolve_right, fun hZero hOne => by cases hZero.symm.trans hOne⟩

theorem mem_one_listing_iff : (∀ d ∈ defs, d ∈ defs.filter (fun d => s.isOn d why) ↔
      d ∉ defs.filter fun d => s.get d why ≠ some 1) ↔ ∀ d ∈ defs, s.get d why = some 0 ∨ s.get d why = some 1 := by
  refine forall₂_congr fun d hd => ?_
  rw [filter_isOn hStored, List.mem_filter, List.mem_filter, decide_eq_true_iff, decide_eq_true_iff]
  by_cases hOne : s.get d why = some 1
  · simp [hd, hOne]
  · simp [hd, hOne]

end State

end Options

namespace Builtin

variable {α : Type} {w : Workspace α}

theorem run_shopt_on (w : Workspace α) : ∃ after, ((shopt : Command α).run ["-s"]).run w =
    some (.ok (.ofText (w.options.listing .shopt 1 .columns)), after) := ⟨_, rfl⟩

theorem run_shopt_off (w : Workspace α) : ∃ after, ((shopt : Command α).run ["-u"]).run w =
    some (.ok (.ofText (w.options.listing .shopt 2 .columns)), after) := ⟨_, rfl⟩

/-- If all options are named and stored, `shopt -s` lists the visible ones that are on and `shopt -u` those whose value
is not one, in the order of the registry. These are the ones that are off, and no option is in both listings, if and
only if no visible option has a value other than zero and one. -/
theorem shopt_listings_iff (w : Workspace α)
    (hStored : ∀ d ∈ w.options.registry.entries, d.name?.isSome = true ∧ d.cell?.isSome = true) :
    let s := w.options
    let visible := s.registry.visible .shopt
    let on := visible.filter fun d => s.isOn d .shopt
    let off := visible.filter fun d => !s.isOn d .shopt
    let notOne := visible.filter fun d => s.get d .shopt ≠ some 1
    (∃ after, ((shopt : Command α).run ["-s"]).run w = some (.ok (.ofText (s.table .shopt .columns on)), after)) ∧
      (∃ after, ((shopt : Command α).run ["-u"]).run w = some (.ok (.ofText (s.table .shopt .columns notOne)), after)) ∧
      (Output.ofText (s.table .shopt .columns notOne) = .ofText (s.table .shopt .columns off) ↔
        ∀ d ∈ visible, s.get d .shopt = some 0 ∨ s.get d .shopt = some 1) ∧
      ((∀ d ∈ visible, d ∈ on ↔ d ∉ notOne) ↔ ∀ d ∈ visible, s.get d .shopt = some 0 ∨ s.get d .shopt = some 1) := by
  intro s visible on off notOne
  have hCells : ∀ d ∈ visible, d.cell?.isSome = true := fun d hd => (hStored d (List.mem_filter.mp hd).1).2
  have hListable : s.listable .shopt .columns = visible := Options.listable_columns fun d hd => (hStored d hd).1
  refine ⟨?_, ?_, ?_, Options.mem_one_listing_iff hCells⟩
  · obtain ⟨after, hRun⟩ := run_shopt_on w
    rw [Options.listing_eq_table 0 (by decide) (by decide), hListable, ← Options.filter_isOn hCells] at hRun
    exact ⟨after, hRun⟩
  · obtain ⟨after, hRun⟩ := run_shopt_off w
    rw [Options.listing_eq_table 1 (by decide) (by decide), hListable] at hRun
    exact ⟨after, hRun⟩
  · rw [← Options.table_eq_off_iff hCells]
    refine ⟨fun hSame => ?_, congrArg Output.ofText⟩
    have hTables := congrArg Output.lines hSame
    rw [Output.lines_ofText, Output.lines_ofText] at hTables
    exact hTables

/-- An option that is off, one that is on and one that `shopt` does not see. -/
theorem shopt_listings_of_switches :
    let extglob : Definition (Host Unit) := { id := 0, name? := some "extglob", cell? := some 0 }
    let dotglob : Definition (Host Unit) := { id := 1, name? := some "dotglob", cell? := some 1 }
    let errexit : Definition (Host Unit) := { id := 2, name? := some "errexit", cell? := some 2, hiddenFromShopt := true }
    let w : Workspace Unit := { options := {
      registry := Registry.empty.addEach [extglob, dotglob, errexit], storage := .ofList [0, 1, 7],
      host := { user := () } } }
    (∀ d ∈ w.options.registry.entries, d.name?.isSome = true ∧ d.cell?.isSome = true) ∧
      (∃ after, (shopt.run ["-s"]).run w = some (.ok (.text (Definition.onOffLine "dotglob" true)), after)) ∧
      ∃ after, (shopt.run ["-u"]).run w = some (.ok (.text (Definition.onOffLine "extglob" false)), after) := by
  intro extglob dotglob errexit w
  have hStored : ∀ d ∈ w.options.registry.entries, d.name?.isSome = true ∧ d.cell?.isSome = true := by decide +kernel
  have hBits : ∀ d ∈ w.options.registry.visible .shopt,
      w.options.get d .shopt = some 0 ∨ w.options.get d .shopt = some 1 := by decide +kernel
  have hOnText : Output.ofText (w.options.table .shopt .columns ((w.options.registry.visible .shopt).filter fun d =>
      w.options.isOn d .shopt)) = .text (Definition.onOffLine "dotglob" true) := by decide +kernel
  have hOffText : Output.ofText (w.options.table .shopt .columns ((w.options.registry.visible .shopt).filter fun d =>
      !w.options.isOn d .shopt)) = .text (Definition.onOffLine "extglob" false) := by decide +kernel
  obtain ⟨⟨afterOn, hOn⟩, ⟨afterOff, hOff⟩, hText, -⟩ := shopt_listings_iff w hStored
  rw [hOnText] at hOn
  rw [hText.mpr hBits, hOffText] at hOff
  exact ⟨hStored, ⟨afterOn, hOn⟩, afterOff, hOff⟩

/-- An option with the value `2` is on, and it is listed as on by `shopt -u` all the same. -/
theorem option_on_listed_as_off :
    let limit : Definition (Host Unit) := { id := 0, name? := some "limit", cell? := some 0 }
    let w : Workspace Unit := { options := {
      registry := (Registry.empty.add limit).2, storage := .ofList [2], host := { user := () } } }
    w.options.registry.visible .shopt = [limit] ∧ w.options.isOn limit .shopt = true ∧
      (shopt.run ["-s"]).run w = some (.ok (.text (Definition.onOffLine "limit" true)), w) ∧
      (shopt.run ["-u"]).run w = some (.ok (.text (Definition.onOffLine "limit" true)), w) :=
  ⟨rfl, by decide +kernel, rfl, rfl⟩

end Builtin

end OptionShell
