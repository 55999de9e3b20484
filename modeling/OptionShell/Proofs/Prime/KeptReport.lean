import Mathlib.Logic.Relation
import OptionShell.Proofs.Prime.Division
import OptionShell.Proofs.Prime.Report
import OptionShell.Proofs.Text.Numeral
import OptionShell.Text.Column
import OptionShell.Text.Separator

/-!
# The kept report

The state of the extension goes from move to move: a candidate is considered, a factor is searched, the report is
handed over. A search replaces the report of the search before it, unless the candidate is the least number. What a
division shows before the divisor is therefore the report on its own candidate or nothing, but for the least number:
there it is the report that was kept, on another candidate.
-/
namespace OptionShell.Prime

namespace State

/-- One change of the state. -/
inductive Move (s : State) : State → Prop where
  | consider (n : Int64) : Move s (s.consider n)
  | search (verbose : Bool) : Move s (s.search verbose)
  | handOver : Move s s.handOverTrials.2

abbrev Moves := Relation.ReflTransGen Move

variable {s t : State}

theorem moves_searchIsPrime (s : State) (verbose : Bool) : Moves s (s.searchIsPrime verbose) := by
  rw [searchIsPrime]
  split
  · exact .single (.search verbose)
  · exact .refl

theorem moves_divide (s : State) (auto verbose : Bool) : Moves s (s.divide auto verbose).2 := by
  rw [divide]
  dsimp only
  split
  · exact .tail (.single (.search verbose)) (.consider _)
  · exact .single (.search verbose)

theorem Current.move (h : s.Current) (hMove : Move s t) : t.Current := by
  cases hMove with
  | consider n => exact .inl rfl
  | search verbose => exact current_search s verbose h
  | handOver => exact h

theorem Current.moves (h : s.Current) (hMoves : Moves s t) : t.Current := by
  induction hMoves with
  | refl => exact h
  | tail _ hMove ih => exact ih.move hMove

/-! ## What is kept -/

/-- The kept report is that of an earlier search. Once the factor of the candidate is known, it is the report on the
candidate, unless that is the least number. -/
structure Reported (s : State) : Prop where
  earlier : s.trials = [] ∨ ∃ n, n ≠ Int64.minValue ∧ s.trials = trialLines n
  own : s.known? ≠ none → s.candidate ≠ Int64.minValue → s.trials = [] ∨ s.trials = trialLines s.candidate

theorem trials_search_of_none (hNone : s.known? = none) (verbose : Bool) :
    (s.search verbose).trials = if s.candidate = Int64.minValue then s.trials
      else if verbose then trialLines s.candidate else [] := by
  rw [search, hNone]

theorem search_of_ne_none (hKnown : s.known? ≠ none) (verbose : Bool) : s.search verbose = s := by
  obtain ⟨factor, hFactor⟩ := Option.ne_none_iff_exists'.mp hKnown
  rw [search, hFactor]

/-- The least number is not searched. -/
theorem trials_search_of_minValue (hMin : s.candidate = Int64.minValue) (verbose : Bool) :
    (s.search verbose).trials = s.trials := by
  by_cases hNone : s.known? = none
  · rw [trials_search_of_none hNone, if_pos hMin]
  · rw [search_of_ne_none hNone]

namespace Reported

theorem trials_search (h : s.Reported) (hOther : s.candidate ≠ Int64.minValue) (verbose : Bool) :
    (s.search verbose).trials = [] ∨ (s.search verbose).trials = trialLines s.candidate := by
  by_cases hNone : s.known? = none
  · rw [trials_search_of_none hNone, if_neg hOther]
    cases verbose with
    | true => exact .inr rfl
    | false => exact .inl rfl
  · rw [search_of_ne_none hNone]
    exact h.own hNone hOther

theorem move (h : s.Reported) (hMove : Move s t) : t.Reported := by
  cases hMove with
  | consider n => exact ⟨h.earlier, fun hKnown => absurd rfl hKnown⟩
  | search verbose =>
    refine ⟨?_, fun _ hOther => ?_⟩
    · by_cases hMin : s.candidate = Int64.minValue
      · rw [trials_search_of_minValue hMin]
        exact h.earlier
      · exact (h.trials_search hMin verbose).imp id fun hOwn => ⟨s.candidate, hMin, hOwn⟩
    · rw [candidate_search] at hOther ⊢
      exact h.trials_search hOther verbose
  | handOver => exact ⟨.inl rfl, fun _ _ => .inl rfl⟩

theorem moves (h : s.Reported) (hMoves : Moves s t) : t.Reported := by
  induction hMoves with
  | refl => exact h
  | tail _ hMove ih => exact ih.move hMove

end Reported

/-- The state from which the extension starts. -/
theorem reported_default : ({} : State).Reported := ⟨.inl rfl, fun hKnown => absurd rfl hKnown⟩

end State

/-! ## What is shown -/

/-- The text that is shown for a division: the trials and then the divisor. -/
def shownText (trials : List String) (divisor : Int64) : String := Text.joinLines (trials ++ [toString divisor])

section Text

variable {m n : Int64}

theorem blank_notMem_toString (n : Int64) : ' ' ∉ (toString n).toList :=
  Text.notMem_toString (by decide) (by decide) n.toInt

theorem toString_injective : Function.Injective (toString : Int64 → String) := fun m n hSame =>
  Option.some.inj <| calc
    some m = Text.int64? (toString m).toList := (Text.int64?_toString m).symm
    _ = some n := by rw [hSame, Text.int64?_toString]

theorem exists_subject_linesOf (subject : String) (failed : List Nat) (found? : Option Nat) :
    ∃ rest lines, linesOf subject failed found? = (subject ++ (" " ++ rest)) :: lines := by
  cases failed with
  | nil =>
    cases found? with
    | none => exact ⟨"is prime", [], rfl⟩
    | some d => exact ⟨"is divisible by " ++ toString d, [], rfl⟩
  | cons d failed =>
    refine ⟨"is not divisible by " ++ toString d, linesOf subject failed found?, ?_⟩
    rw [linesOf, List.map_cons, List.cons_append, String.append_assoc]
    rfl

/-- The first line of a report begins with the number that was searched. -/
theorem exists_subject (n : Int64) : ∃ rest lines, trialLines n = (toString n ++ (" " ++ rest)) :: lines := by
  rw [trialLines]
  split
  · exact ⟨"is quickly divisible by -1", [], rfl⟩
  · split
    · exact ⟨"is quickly divisible by 1", [], rfl⟩
    · split
      · exact ⟨"is quickly prime", [], rfl⟩
      · exact exists_subject_linesOf (toString n) _ (properDivisor? n.toNatClampNeg)

theorem toList_joinLines_cons (line : String) (lines : List String) :
    ∃ rest, (Text.joinLines (line :: lines)).toList = line.toList ++ rest := by
  cases lines with
  | nil => exact ⟨[], by rw [Text.joinLines, String.intercalate_singleton, List.append_nil]⟩
  | cons second rest =>
    exact ⟨_, by rw [Text.joinLines, String.intercalate_cons_cons, String.toList_append, String.toList_append,
      List.append_assoc]⟩

/-- Up to its first blank, a text that shows trials is the number that was searched. -/
theorem splitFirst?_shownText (n divisor : Int64) :
    ∃ rest, Text.splitFirst? ' ' (shownText (trialLines n) divisor).toList = some ((toString n).toList, rest) := by
  obtain ⟨tail, lines, hLines⟩ := exists_subject n
  obtain ⟨rest, hRest⟩ := toList_joinLines_cons (toString n ++ (" " ++ tail)) (lines ++ [toString divisor])
  refine ⟨tail.toList ++ rest, Text.splitFirst?_eq_some_iff.mpr ⟨?_, blank_notMem_toString n⟩⟩
  rw [shownText, hLines, List.cons_append, hRest, String.toList_append, String.toList_append, List.append_assoc,
    List.append_assoc]
  rfl

theorem eq_of_shownText_eq {divisor other : Int64}
    (h : shownText (trialLines m) divisor = shownText (trialLines n) other) : m = n := by
  obtain ⟨rest, hFirst⟩ := splitFirst?_shownText m divisor
  obtain ⟨rest', hSecond⟩ := splitFirst?_shownText n other
  rw [h, hSecond] at hFirst
  exact toString_injective (String.toList_inj.mp (Prod.ext_iff.mp (Option.some.inj hFirst)).1.symm)

theorem shownText_ne_toString (n divisor other : Int64) : shownText (trialLines n) divisor ≠ toString other := by
  intro hSame
  obtain ⟨rest, hSplit⟩ := splitFirst?_shownText n divisor
  obtain ⟨hText, -⟩ := Text.splitFirst?_eq_some_iff.mp hSplit
  rw [hSame] at hText
  exact blank_notMem_toString other (hText ▸ List.mem_append_right _ List.mem_cons_self)

end Text

namespace State

variable {s : State}

/-- A division leaves the report of its search. -/
theorem trials_divide (s : State) (auto verbose : Bool) :
    (s.divide auto verbose).2.trials = (s.search verbose).trials := by
  rw [divide]
  dsimp only
  split
  · rfl
  · rfl

/-- A division shows the divisor alone or after the trials of its own candidate, unless a report was kept when the least
number was divided. -/
theorem Reported.shows_own_iff (h : s.Reported) (auto verbose : Bool) (divisor : Int64) :
    (shownText (s.divide auto verbose).2.trials divisor = toString divisor ∨
      shownText (s.divide auto verbose).2.trials divisor = shownText (trialLines s.candidate) divisor) ↔
    s.candidate ≠ Int64.minValue ∨ s.trials = [] := by
  rw [trials_divide]
  by_cases hMin : s.candidate = Int64.minValue
  · rw [trials_search_of_minValue hMin]
    obtain hNone | ⟨n, hn, hKept⟩ := h.earlier
    · rw [hNone]
      exact iff_of_true (.inl rfl) (.inr rfl)
    · have hSome : s.trials ≠ [] := by
        obtain ⟨rest, lines, hLines⟩ := exists_subject n
        rw [hKept, hLines]
        exact List.cons_ne_nil _ _
      refine iff_of_false ?_ fun hEither => hEither.elim (absurd hMin) hSome
      rw [hKept, not_or]
      exact ⟨shownText_ne_toString n divisor divisor, fun hSame => hn ((eq_of_shownText_eq hSame).trans hMin)⟩
  · refine iff_of_true ?_ (.inl hMin)
    obtain hNone | hOwn := h.trials_search hMin verbose
    · exact .inl (by rw [hNone]; rfl)
    · exact .inr (by rw [hOwn])

end State

end OptionShell.Prime
