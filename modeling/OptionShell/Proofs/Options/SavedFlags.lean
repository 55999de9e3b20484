import OptionShell.Options.Setter
import OptionShell.Proofs.Options.Inheritance

/-!
# Saved flags

Saving the flags keeps the value of every option with a letter. Putting them back gives such an option the value that
was saved, whatever became of it in between, if it has a cell of its own that the end of a scope may write.
-/
namespace OptionShell

variable {σ : Type} {s t : Options σ} {letter : Char} {value : Int32}

theorem Options.mem_savedFlags_iff :
    (letter, value) ∈ s.savedFlags.values ↔ s.valueLettered letter .scopeEnd = some value := by
  simp only [savedFlags, valuesOf, valueLettered, List.mem_filterMap, Option.bind_eq_some_iff, Option.map_eq_some_iff,
    Prod.mk.injEq]
  constructor
  · rintro ⟨other, -, d, hFound, own, hGet, rfl, rfl⟩
    exact ⟨d, hFound, hGet⟩
  · rintro ⟨d, hFound, hGet⟩
    have hEntry : (letter, d) ∈ s.registry.byLetter.entries := (Table.find?_eq_some_iff _ letter d).mp hFound
    exact ⟨letter, List.mem_map.mpr ⟨(letter, d), hEntry, rfl⟩, d, hFound, value, hGet, rfl, rfl⟩

theorem Options.get_eq_read {d : Definition σ} {cell : CellId} (hGetter : d.getter? = none)
    (hCell : d.cell? = some cell) (s : Options σ) (why : Access) : s.get d why = some (s.storage.read cell) := by
  rw [get, hGetter, hCell]
  rfl

variable [HostVariables σ] {defs : Set (Definition σ)} {admits : Definition σ → Access → Int32 → Bool}
  {I : Options σ → Prop} {d : Definition σ} {cell : CellId}

/-- An option whose letter leads to it, with a cell of its own that the end of a scope may write. -/
structure Reinstatable (admits : Definition σ → Access → Int32 → Bool) (letter : Char) (cell : CellId)
    (d : Definition σ) : Prop where
  letter : d.letter? = some letter
  cell : d.cell? = some cell
  getter : d.getter? = none
  admits : ∀ value, admits d .scopeEnd value = true

namespace SetRules

/-- Putting one flag back writes the cell of its option and no other. -/
theorem ensures_reinstateFlag (hRules : SetRules defs admits I) (hd : Reinstatable admits letter cell d)
    (hs : I s) (hLive : d ∈ s.registry.entries) (other : Char) (value : Int32) :
    Ensures (Update.reinstateFlag other value) s fun _ after => I after ∧ after.registry = s.registry ∧
      after.storage.read cell = if other = letter then value else s.storage.read cell := by
  have hConsistent := hRules.consistent s hs
  have hFound : s.registry.findLetter? letter = some d := (hConsistent.lettered letter d).mpr ⟨hLive, hd.letter⟩
  apply Ensures.get_bind
  split
  · rename_i hNone
    have hOther : other ≠ letter := by
      rintro rfl
      cases hNone.symm.trans hFound
    exact .pure ⟨hs, rfl, (if_neg hOther).symm⟩
  · rename_i e hFoundOther
    obtain ⟨hOtherLive, hOtherLetter⟩ := (hConsistent.lettered other e).mp hFoundOther
    have hMem := (hRules.within s hs).live
    by_cases hSame : other = letter
    · obtain rfl : e = d := Option.some.inj ((hSame ▸ hFoundOther).symm.trans hFound)
      rw [if_pos hSame]
      split
      · rename_i hGet
        rw [Options.get_eq_read hd.getter hd.cell] at hGet
        exact .pure ⟨hs, rfl, Option.some.inj hGet⟩
      · refine (hRules.set e (hMem e hLive) .scopeEnd value s hs).bind fun outcome after ⟨hResult, hAfter⟩ => ?_
        rw [hd.admits] at hResult
        obtain ⟨storage, host, hSameRegistry⟩ := hResult.exists_eq
        exact .pure ⟨hAfter, hSameRegistry ▸ rfl, hResult.read_own hd.cell⟩
    · rw [if_neg hSame]
      have hApart : e.cell? ≠ some cell := by
        intro hShared
        obtain rfl := hRules.cells e (hMem e hOtherLive) d (hMem d hLive) cell hShared hd.cell
        exact hSame (Option.some.inj (hOtherLetter.symm.trans hd.letter))
      split
      · exact .pure ⟨hs, rfl, rfl⟩
      · refine (hRules.set e (hMem e hOtherLive) .scopeEnd value s hs).bind fun outcome after ⟨hResult, hAfter⟩ => ?_
        obtain ⟨storage, host, hSameRegistry⟩ := hResult.exists_eq
        exact .pure ⟨hAfter, hSameRegistry ▸ rfl, hResult.read_of_ne hApart⟩

/-- Flags that are put back leave the value that they all have for a letter, if one of them has this letter. -/
theorem ensures_reinstateFlags (hRules : SetRules defs admits I) (hd : Reinstatable admits letter cell d)
    {saved : SavedFlags} (hValue : ∀ flag ∈ saved.values, flag.1 = letter → flag.2 = value)
    (hSaved : ∃ flag ∈ saved.values, flag.1 = letter) (hs : I s) (hLive : d ∈ s.registry.entries) :
    Ensures (Update.reinstateFlags saved) s fun _ after => I after ∧ after.registry = s.registry ∧
      after.storage.read cell = value := by
  obtain ⟨flags⟩ := saved
  have hStart : s.storage.read cell = value ∨ ∃ flag ∈ flags, flag.1 = letter := .inr hSaved
  rw [Update.reinstateFlags, Assign.reinstateFlags]
  generalize 0 = count
  clear hSaved
  dsimp only at hValue ⊢
  induction flags generalizing count s with
  | nil =>
    obtain hRead | ⟨flag, hMem, -⟩ := hStart
    · exact .pure ⟨hs, rfl, hRead⟩
    · cases hMem
  | cons flag rest ih =>
    rw [List.foldlM_cons, bind_assoc]
    obtain ⟨hFirst, hRest⟩ := List.forall_mem_cons.mp hValue
    refine (hRules.ensures_reinstateFlag hd hs hLive flag.1 flag.2).bind fun changed mid ⟨hMid, hRegistry, hRead⟩ => ?_
    rw [pure_bind]
    refine (ih hMid (hRegistry ▸ hLive) hRest ?_ _).mono fun _ after ⟨hAfter, hSame, hLast⟩ =>
      ⟨hAfter, hSame.trans hRegistry, hLast⟩
    by_cases hOwn : flag.1 = letter
    · exact .inl (by rw [hRead, if_pos hOwn, hFirst hOwn])
    · rw [hRead, if_neg hOwn]
      refine hStart.imp_right ?_
      rintro ⟨other, hMem, hLetter⟩
      obtain rfl | hMem := List.mem_cons.mp hMem
      · exact absurd hLetter hOwn
      · exact ⟨other, hMem, hLetter⟩

/-- Flags that were saved in one state and are put back in another leave the value of the first. -/
theorem ensures_reinstateFlags_savedFlags (hRules : SetRules defs admits I) (hd : Reinstatable admits letter cell d)
    (hFound : s.registry.findLetter? letter = some d) (ht : I t) (hLive : d ∈ t.registry.entries) :
    Ensures (Update.reinstateFlags s.savedFlags) t fun _ after => I after ∧ after.registry = t.registry ∧
      after.storage.read cell = s.storage.read cell := by
  have hLettered : s.valueLettered letter .scopeEnd = some (s.storage.read cell) := by
    rw [Options.valueLettered, hFound]
    exact Options.get_eq_read hd.getter hd.cell s .scopeEnd
  refine hRules.ensures_reinstateFlags hd ?_ ⟨_, Options.mem_savedFlags_iff.mpr hLettered, rfl⟩ ht hLive
  rintro ⟨other, saved⟩ hMem rfl
  exact Option.some.inj ((Options.mem_savedFlags_iff.mp hMem).symm.trans hLettered)

end SetRules

end OptionShell
