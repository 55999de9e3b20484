import OptionShell.Proofs.Line.Operators

/-!
# The splitter and the reader of words agree on what is quoted

A line is cut exactly at its operators outside quotes and escapes. The reader has no quotes open there, so each command
but the last has words, and the last one leaves the same quotes open as the line.
-/
namespace OptionShell.Line

variable {line : List Char} {own before : List Lexeme} {connective : Connective}

/-- What stands before a connective in the lexemes of commands with the connectives between them. -/
def CutAfter (first : List Lexeme) (others : List (Connective × List Lexeme)) (before : List Lexeme)
    (connective : Connective) : Prop :=
  ∃ front part back, others = front ++ (connective, part) :: back ∧ before = uncut first front

theorem cutAfter_cons_iff {first second : List Lexeme} {prior : Connective} {others : List (Connective × List Lexeme)} :
    CutAfter first ((prior, second) :: others) before connective ↔
      before = first ∧ connective = prior ∨
        ∃ after, before = first ++ (prior.mark ++ after) ∧ CutAfter second others after connective := by
  constructor
  · rintro ⟨_ | ⟨_, front⟩, part, back, hOthers, rfl⟩
    · cases hOthers
      exact .inl ⟨List.append_nil first, rfl⟩
    · cases hOthers
      refine .inr ⟨uncut second front, ?_, front, part, back, rfl, rfl⟩
      rw [uncut, uncut, List.flatMap_cons, List.append_assoc]
  · rintro (⟨rfl, rfl⟩ | ⟨_, rfl, front, part, back, rfl, rfl⟩)
    · exact ⟨[], second, others, rfl, (List.append_nil before).symm⟩
    · refine ⟨(prior, second) :: front, part, back, rfl, ?_⟩
      rw [uncut, uncut, List.flatMap_cons, List.append_assoc]

/-- Lexemes are cut exactly at their operators. -/
theorem operatorAfter_iff_cutAfter (own before : List Lexeme) (connective : Connective) :
    OperatorAfter own before connective ↔ CutAfter (cut own).1 (cut own).2 before connective := by
  obtain ⟨hCut, hUndivided⟩ | ⟨front, prior, rest, hOwn, hCut, hNone⟩ := cut_cases own
  · rw [hCut]
    refine iff_of_false (fun h => ?_) ?_
    · exact hUndivided connective ((List.suffix_append _ _).isInfix.trans h.stands.isInfix)
    · rintro ⟨front, part, back, hOthers, -⟩
      exact List.append_ne_nil_of_right_ne_nil front (List.cons_ne_nil _ back) hOthers.symm
  · rw [hCut, cutAfter_cons_iff, hOwn, operatorAfter_append (hOwn ▸ hNone)]
    simp only [operatorAfter_iff_cutAfter rest]
termination_by own.length
decreasing_by
  have hMark := List.length_pos_iff.mpr prior.mark_ne_nil
  simp only [hOwn, List.length_append]
  omega

/-- At an operator the reader of words has no quotes open. -/
theorem exists_words_of_operatorAfter (h : OperatorAfter (lexemes none line) before connective) :
    ∃ ws, words (source before) = .ok ws := by
  obtain ⟨back, hBack⟩ := h.stands
  rw [List.append_assoc, eq_comm] at hBack
  obtain ⟨hBefore, hRest⟩ := lexemes_source_of_append before hBack
  rw [exists_words_iff, openAfter, hBefore]
  cases connective <;> exact eq_none_of_lexemes_eq_bare_cons hRest

/-- Each command of a line but the last has words, and the last one has words or leaves the same quotes open as the
line. For the line is cut exactly at the operators among its lexemes, and there the reader has no quotes open. -/
theorem quotes_kept_by_segments {segs : List Segment} (h : segments line = .ok segs) :
    (∀ segment ∈ segs.dropLast, ∃ ws, words segment.command = .ok ws) ∧
      (∀ error, words line = .error error ↔
        ∃ last, segs.getLast? = some last ∧ words last.command = .error error) ∧
      ∃ first others, segs = kept ((.always, first) :: others) ∧ lexemes none line = uncut first others ∧
        ∀ before connective,
          (CutAfter first others before connective ↔ OperatorAfter (lexemes none line) before connective) ∧
            (CutAfter first others before connective → ∃ ws, words (source before) = .ok ws) := by
  have hKept := eq_kept_of_segments h
  obtain ⟨hClosed, hLast⟩ := openAfter_kept (ends_cut (rfl : lexemes none line = _)) .always
  rw [← hKept] at hClosed hLast
  refine ⟨fun segment hSegment => (exists_words_iff _).mpr (hClosed segment hSegment), fun error => ?_,
    _, _, hKept, (uncut_cut _).symm, fun before connective => ?_⟩
  · rw [words_eq_error_iff, openAfter, ← hLast]
    cases segs.getLast? with
    | none => simp
    | some last => simp [words_eq_error_iff]
  · rw [← operatorAfter_iff_cutAfter]
    exact ⟨Iff.rfl, exists_words_of_operatorAfter⟩

/-- A protected semicolon and a protected blank before a connective, and a quote that stays open. -/
theorem quotes_kept_by_segments_of_open_quote :
    let line := "echo 'a;b' \\;\\ && say \"x\\\" ; y".toList
    let last : Segment := ⟨.onSuccess, "say \"x\\\" ; y".toList⟩
    segments line = .ok [⟨.always, "echo 'a;b' \\;\\".toList⟩, last] ∧
      words last.command = .error .unterminatedDoubleQuote ∧ words line = .error .unterminatedDoubleQuote := by
  intro line last
  have hSegments : segments line = .ok [⟨.always, "echo 'a;b' \\;\\".toList⟩, last] := rfl
  have hLast : words last.command = .error .unterminatedDoubleQuote := rfl
  exact ⟨hSegments, hLast, ((quotes_kept_by_segments hSegments).2.1 _).mpr ⟨last, rfl, hLast⟩⟩

end OptionShell.Line
