import Mathlib.Data.Char
import Mathlib.Data.List.Nodup
import OptionShell.Proofs.Registry.Within

/-!
# Letters in order

The letter table and the registry order are kept apart. In a consistent registry the table lists exactly the letters of
the live definitions, each of them once and in ascending order.
-/
namespace OptionShell.Registry

variable {σ : Type} {r : Registry σ} {d : Definition σ}

/-- The letters of some definitions in ascending order. -/
def lettersOf (defs : List (Definition σ)) : List Char := (defs.filterMap (·.letter?)).mergeSort (· ≤ ·)

theorem pairwise_letters (r : Registry σ) : r.letters.Pairwise (· < ·) := by
  rw [letters, Table.keys, List.pairwise_map]
  exact r.byLetter.ascending.imp fun h => compareOfLessAndEq_eq_lt.mp h

theorem mem_letters_iff {letter : Char} : letter ∈ r.letters ↔ ∃ d, r.findLetter? letter = some d := by
  rw [letters, Table.keys, List.mem_map]
  constructor
  · rintro ⟨⟨own, d⟩, hEntry, rfl⟩
    exact ⟨d, (Table.find?_eq_some_iff _ own d).mpr hEntry⟩
  · rintro ⟨d, hFound⟩
    exact ⟨(letter, d), (Table.find?_eq_some_iff _ letter d).mp hFound, rfl⟩

theorem pairwise_lettersOf (defs : List (Definition σ)) : (lettersOf defs).Pairwise (· ≤ ·) := by
  have hSorted : (lettersOf defs).Pairwise fun a b => decide (a ≤ b) = true := by
    apply List.pairwise_mergeSort
    · intro a b c
      simpa using le_trans
    · intro a b
      simpa using le_total a b
  exact hSorted.imp of_decide_eq_true

theorem eq_lettersOf {letters : List Char} {defs : List (Definition σ)} (hAscending : letters.Pairwise (· < ·))
    (hOnce : (defs.filterMap (·.letter?)).Nodup)
    (hMem : ∀ letter, letter ∈ letters ↔ ∃ d ∈ defs, d.letter? = some letter) : letters = lettersOf defs := by
  have hPerm : letters.Perm (lettersOf defs) := by
    refine List.Perm.trans ?_ (List.mergeSort_perm _ _).symm
    apply (List.perm_ext_iff_of_nodup (hAscending.imp ne_of_lt) hOnce).mpr
    simpa [List.mem_filterMap] using hMem
  exact hPerm.eq_of_pairwise (fun _ _ _ _ => le_antisymm) (hAscending.imp le_of_lt) (pairwise_lettersOf defs)

namespace Consistent

theorem nodup_letters (h : r.Consistent) : (r.entries.filterMap (·.letter?)).Nodup := by
  rw [List.Nodup, List.pairwise_filterMap]
  refine (List.Nodup.of_map _ h.distinct).imp_of_mem ?_
  rintro d e hd he hne letter hdLetter other heLetter rfl
  have hFound := (h.lettered letter d).mpr ⟨hd, hdLetter⟩
  rw [(h.lettered letter e).mpr ⟨he, heLetter⟩] at hFound
  exact hne (Option.some.inj hFound).symm

/-- The letters that lead to definitions with a property are those of the live definitions that have it. -/
theorem filter_letters (h : r.Consistent) (p : Definition σ → Bool) :
    (r.letters.filter fun letter => (r.findLetter? letter).any p) = lettersOf (r.entries.filter p) := by
  refine eq_lettersOf (r.pairwise_letters.filter _) ?_ fun letter => ?_
  · exact h.nodup_letters.sublist (List.filter_sublist.filterMap _)
  · rw [List.mem_filter, mem_letters_iff]
    constructor
    · rintro ⟨-, hAny⟩
      obtain ⟨d, hFound, hd⟩ := (Option.any_eq_true _ _).mp hAny
      obtain ⟨hLive, hLetter⟩ := (h.lettered letter d).mp hFound
      exact ⟨d, List.mem_filter.mpr ⟨hLive, hd⟩, hLetter⟩
    · rintro ⟨d, hMem, hLetter⟩
      obtain ⟨hLive, hd⟩ := List.mem_filter.mp hMem
      have hFound := (h.lettered letter d).mpr ⟨hLive, hLetter⟩
      exact ⟨⟨d, hFound⟩, (Option.any_eq_true _ _).mpr ⟨d, hFound, hd⟩⟩

theorem letters_eq (h : r.Consistent) : r.letters = lettersOf r.entries := by
  have hAll := h.filter_letters fun _ => true
  rw [List.filter_true, List.filter_eq_self.mpr] at hAll
  · exact hAll
  · intro letter hLetter
    obtain ⟨d, hFound⟩ := mem_letters_iff.mp hLetter
    rw [hFound]
    rfl

end Consistent

/-- A definition without a letter adds none to the list. -/
theorem lettersOf_visible_flag (r : Registry σ) (p : Definition σ → Bool) :
    lettersOf ((r.visible .flag).filter p) = lettersOf (r.entries.filter p) := by
  rw [lettersOf, lettersOf, visible, List.filter_filter]
  congr 1
  rw [List.filterMap_filter, List.filterMap_filter]
  apply List.filterMap_congr
  intro d hd
  cases hLetter : d.letter? <;> simp [Access.hides, hLetter]

end OptionShell.Registry
