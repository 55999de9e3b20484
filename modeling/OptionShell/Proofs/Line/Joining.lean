import OptionShell.Proofs.Line.Operators

/-!
# Joined commands

Commands that are lines by themselves, joined by operators with a blank on each side, are a line that is cut into these
commands again. If a command ends in a backslash, the backslash protects the blank before the operator, and this blank
is trimmed from the command all the same.
-/
namespace OptionShell.Line

variable {command : List Char} {own : List Lexeme}

def Connective.joint : Connective → List Char
  | always => [' ', ';', ' ']
  | onSuccess => [' ', '&', '&', ' ']
  | onFailure => [' ', '|', '|', ' ']

/-- Commands with the operators between them; what the first one comes after is not written. -/
def joined : List Segment → List Char
  | [] => []
  | first :: others => first.command ++ others.flatMap fun next => next.connective.joint ++ next.command

/-- A command with words that is a line by itself. So it is not blank, and has no blanks at its ends. -/
structure StandsAlone (command : List Char) : Prop where
  read : ∃ ws, words command = .ok ws
  single : segments command = .ok [⟨.always, command⟩]

namespace StandsAlone

/-- A command is no longer than the part of the line that it is cut from, so that part is the line. -/
theorem undivided (h : StandsAlone command) : Undivided (lexemes none command) := by
  obtain ⟨-, hUndivided⟩ | ⟨front, connective, rest, hOwn, hCut, -⟩ := cut_cases (lexemes none command)
  · exact hUndivided
  · have hKept := eq_kept_of_segments h.single
    have hMem := List.mem_singleton_self (⟨.always, command⟩ : Segment)
    rw [hKept] at hMem
    obtain ⟨part, hPart, hSame⟩ := List.mem_map.mp (List.mem_filter.mp hMem).1
    have hCommand : Text.trim (source part.2) = command := congrArg Segment.command hSame
    have hText := congrArg (List.length ∘ source) hOwn
    have hMark : 0 < (source connective.mark).length := by cases connective <;> decide
    have hLength : command.length ≤ (source part.2).length := hCommand ▸ (trim_sublist _).length_le
    rw [Function.comp_apply, source_lexemes, Function.comp_apply] at hText
    simp only [source, List.flatMap_append, List.length_append] at hText hMark hLength
    rw [hCut] at hPart
    obtain rfl | hPart := List.mem_cons.mp hPart
    · simp only at hLength
      omega
    · have hRest := (source_sublist_of_mem_cut hPart).length_le
      simp only [source] at hRest
      omega

theorem trim_eq (h : StandsAlone command) : Text.trim command = command ∧ command ≠ [] := by
  have hSingle := h.single
  rw [segments_eq_segmentsAfter, segmentsAfter, cut_eq_iff.mpr h.undivided, segmentsOf, source_lexemes] at hSingle
  split at hSingle
  · rename_i hCommand
    have hTrim : Text.trim command = command := congrArg Segment.command (List.cons.inj (Except.ok.inj hSingle)).1
    refine ⟨hTrim, ?_⟩
    rintro rfl
    cases hCommand
  · cases hSingle

theorem segmentsAfter_eq (h : StandsAlone command) (start : Connective) :
    segmentsAfter start command = .ok [⟨start, command⟩] := by
  obtain ⟨hTrim, hCommand⟩ := h.trim_eq
  rw [segmentsAfter, cut_eq_iff.mpr h.undivided]
  dsimp only
  rw [segmentsOf, source_lexemes, hTrim, List.isEmpty_eq_false_iff.mpr hCommand]
  rfl

/-- The blank after a command is the last lexeme that belongs to it, by itself or protected. -/
theorem exists_lexemes (h : StandsAlone command) : ∃ own, Undivided own ∧
    (∀ c ∈ ['&', '|'], own.getLast? ≠ some (.bare c)) ∧
      ∀ rest, lexemes none (command ++ ' ' :: rest) = own ++ lexemes none rest := by
  have hClosed := (exists_words_iff command).mp h.read
  have hUndivided := h.undivided
  obtain ⟨front, back, hText, hFront, rfl | ⟨last, rfl, hLast⟩⟩ := exists_dangling_end none command
  · rw [List.append_nil] at hText
    rw [hText] at hUndivided
    rw [openAfter, hText] at hClosed
    refine ⟨front ++ [.bare ' '], (undivided_concat ?_).mpr hUndivided, ?_, fun rest => ?_⟩
    · rintro (_ | _ | _) <;> decide
    · intro c hc hEnd
      rw [List.getLast?_concat] at hEnd
      cases hEnd
      exact absurd hc (by decide)
    · have hRead := lexemes_append (hText.trans (List.append_nil front).symm) hFront (' ' :: rest)
      rw [hClosed] at hRead
      rw [hRead, List.append_assoc]
      exact congrArg (front ++ ·) (lexemes_blank rest)
  · obtain ⟨hOpen, rfl⟩ := eq_dangling_of_openAfter hClosed hText hLast
    rw [hText] at hUndivided
    have hFrontUndivided := (undivided_concat (by rintro (_ | _ | _) <;> decide)).mp hUndivided
    refine ⟨front ++ [.escaped ' '], (undivided_concat ?_).mpr hFrontUndivided, ?_, fun rest => ?_⟩
    · rintro (_ | _ | _) <;> decide
    · intro c hc hEnd
      rw [List.getLast?_concat] at hEnd
      cases hEnd
    · have hRead := lexemes_append hText hFront (' ' :: rest)
      rw [hOpen] at hRead
      rw [hRead, List.append_assoc]
      rfl

theorem segmentsAfter_joint (h : StandsAlone command) (start next : Connective) (rest : List Char) :
    segmentsAfter start (command ++ (next.joint ++ rest)) =
      (segmentsAfter next rest).map (⟨start, command⟩ :: ·) := by
  obtain ⟨hTrim, hCommand⟩ := h.trim_eq
  obtain ⟨own, hUndivided, hLast, hRead⟩ := h.exists_lexemes
  have hLine : lexemes none (command ++ (next.joint ++ rest)) = own ++ (next.mark ++ lexemes none (' ' :: rest)) := by
    have hMark : ∀ rest, lexemes none (source next.mark ++ rest) = next.mark ++ lexemes none rest := by
      intro rest
      cases next <;> simp [Connective.mark, source, Lexeme.source, lexemes]
    have hJoint : next.joint ++ rest = ' ' :: (source next.mark ++ ' ' :: rest) := by cases next <;> rfl
    rw [hJoint, hRead, hMark]
  have hMark : ∀ own, cut (next.mark ++ own) = ([], (next, (cut own).1) :: (cut own).2) := by
    intro own
    cases next <;> rfl
  have hSource : source own = command ++ [' '] := by
    have hOwn := congrArg source (hRead [])
    rwa [source_lexemes, lexemes, List.append_nil, eq_comm] at hOwn
  have hText : Text.trim (source own) = command := by
    rw [hSource, Text.trim_concat (by decide), hTrim]
  rw [segmentsAfter, hLine, cut_append_of_cut (cut_eq_iff.mpr hUndivided) hLast, hMark, List.append_nil]
  dsimp only
  have hBlank : Text.isBlank ' ' = true := by decide
  rw [segmentsOf, hText, List.isEmpty_eq_false_iff.mpr hCommand, ← segmentsAfter_of_isBlank hBlank]
  rfl

end StandsAlone

/-- Cutting undoes joining. -/
theorem segmentsAfter_joined {first : Segment} {others : List Segment}
    (h : ∀ segment ∈ first :: others, StandsAlone segment.command) :
    segmentsAfter first.connective (joined (first :: others)) = .ok (first :: others) := by
  induction others generalizing first with
  | nil =>
    rw [joined, List.flatMap_nil, List.append_nil]
    exact (h first List.mem_cons_self).segmentsAfter_eq first.connective
  | cons next others ih =>
    obtain ⟨hFirst, hOthers⟩ := List.forall_mem_cons.mp h
    have hJoined : joined (first :: next :: others) =
        first.command ++ (next.connective.joint ++ joined (next :: others)) := by
      rw [joined, List.flatMap_cons, List.append_assoc]
      rfl
    rw [hJoined, hFirst.segmentsAfter_joint, ih hOthers]
    rfl

end OptionShell.Line
