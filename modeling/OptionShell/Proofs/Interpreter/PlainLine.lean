import OptionShell.Builtin.General
import OptionShell.Proofs.Interpreter.QuotedLine
import OptionShell.Proofs.Line.Trimming

/-!
# Lines of one command without references

Such a line dispatches the words that are read from it. If it ends in a blank that a backslash protects, it is trimmed
before it is read, and the last word lacks this blank.
-/
namespace OptionShell

open Line

namespace Interpreter

variable {α : Type}

theorem expandWords_of_notMem {text : List Char} (h : '$' ∉ text) (s : Session α) :
    expandWords s text = (words text).map fun ws => ws.map String.ofList := by
  change (expand (resolve s) text).bind _ = _
  rw [expand, pieces, expandPieces_of_notMem h]
  change (words text).bind _ = _
  cases words text <;> rfl

/-- Runs the words of a command as a step. -/
def dispatch (interp : Interpreter α) (depth : Nat) (text : List Char) (ws : List (List Char)) (s : Session α) :
    Option (Step α) :=
  ((interp.runWords (interp.execute depth) (ws.map String.ofList)).run s).map fun ran =>
    { command := text, unguarded := true, result := ran.1, ended := ran.2 }

/-- A line of one command without references fails if its quotes stay open, and dispatches its words otherwise. Only
a protected blank at its end is missing in the last of them. -/
theorem execute_plainLine (interp : Interpreter α) (depth : Nat) (line : String) (s : Session α)
    (hReference : '$' ∉ line.toList) (hUndivided : Undivided (lexemes none line.toList)) :
    (∀ error, words line.toList = .error error →
      (interp.execute (depth + 1) line).run s = some (.error error.toShellError, Step.after
        { command := Text.trim line.toList, unguarded := true, result := .error error.toShellError, ended := s })) ∧
    ∀ ws, words line.toList = .ok ws → ∃ seen,
      (interp.execute (depth + 1) line).run s =
        (if Text.trim line.toList = [] then some (.ok .silent, s)
          else (interp.dispatch depth (Text.trim line.toList) seen s).map fun step => (step.result, step.after)) ∧
      (seen = ws ↔ endsProtected (lexemes none line.toList) = false) ∧
      (endsProtected (lexemes none line.toList) = true → EndsShorter ws seen) := by
  have hTrimmed : '$' ∉ Text.trim line.toList := by
    obtain ⟨lead, tail, hLine, -, -⟩ := Text.exists_blanks_trim line.toList
    intro hMem
    rw [hLine] at hReference
    exact hReference (List.mem_append_right _ (List.mem_append_left _ hMem))
  have hOpen := openAfter_trim line.toList
  constructor
  · intro error hError
    obtain ⟨quote, hQuote, rfl⟩ := words_eq_error_iff.mp hError
    have hNonempty : Text.trim line.toList ≠ [] := by
      intro hNone
      rw [hNone, hQuote] at hOpen
      cases hOpen
    refine run_execute_of_error interp depth (segments_trim hUndivided hNonempty) ?_
    rw [expandWords_of_notMem hTrimmed, words_eq_error_iff.mpr ⟨quote, hOpen.trans hQuote, rfl⟩]
    rfl
  · intro ws hWords
    have hClosed := (exists_words_iff _).mp ⟨ws, hWords⟩
    rw [words_eq, hClosed] at hWords
    obtain rfl := Except.ok.inj hWords
    obtain ⟨hSeen, hSame, hShorter⟩ := words_trim hClosed
    refine ⟨_, ?_, ⟨fun h => ?_, hSame⟩, hShorter⟩
    · split
      · rename_i hBlank
        rw [execute, runChain, hBlank]
        rfl
      · rename_i hNonempty
        rw [dispatch, Option.map_map]
        refine run_execute_of_words interp depth (segments_trim hUndivided hNonempty) ?_
        rw [expandWords_of_notMem hTrimmed, hSeen]
        rfl
    · cases hProtected : endsProtected (lexemes none line.toList) with
      | false => rfl
      | true => exact absurd h (hShorter hProtected).ne

/-- Protected connectives, quotes in the middle of a word and blanks at both ends. -/
theorem execute_plainLine_of_protected_connectives :
    let interp : Interpreter Unit := { commands := CommandTable.add Builtin.echo .empty }
    let s : Session Unit := { options := { host := { user := () } } }
    let line := " echo \\; 'a && b'\\\\\\|| c\\ d\\  \\n "
    '$' ∉ line.toList ∧ Undivided (lexemes none line.toList) ∧
      words line.toList = .ok (["echo", ";", "a && b\\||", "c d ", "n"].map String.toList) ∧
      ∃ after, (interp.execute 1 line).run s = some (.ok (.text "; a && b\\|| c d  n"), after) := by
  intro interp s line
  have hReference : '$' ∉ line.toList := by decide
  have hCut : cut (lexemes none line.toList) = (lexemes none line.toList, []) := by decide +kernel
  have hWords : words line.toList = .ok (["echo", ";", "a && b\\||", "c d ", "n"].map String.toList) := by decide +kernel
  obtain ⟨seen, hRun, hSame, -⟩ := (execute_plainLine interp 0 line s hReference (cut_eq_iff.mp hCut)).2 _ hWords
  obtain rfl := hSame.mpr (by decide +kernel)
  rw [if_neg (by decide +kernel)] at hRun
  exact ⟨hReference, cut_eq_iff.mp hCut, hWords, _, hRun⟩

/-- The blank is part of the last word, and is trimmed before the line is read. -/
theorem protected_blank_lost :
    let interp : Interpreter Unit := { commands := CommandTable.add Builtin.echo .empty }
    let s : Session Unit := { options := { host := { user := () } } }
    '$' ∉ "echo a\\ ".toList ∧ Undivided (lexemes none "echo a\\ ".toList) ∧
      s.options.enabled "noexec" = false ∧ words "echo a\\ ".toList = .ok (["echo", "a "].map String.toList) ∧
      (interp.runWords (interp.execute 0) ["echo", "a "]).run s = some (.ok (.text "a "), s) ∧
      (interp.execute 1 "echo a\\ ").run s = some (.ok (.text "a"), s) := by
  intro interp s
  have hSeen : expandWords s "echo a\\".toList = .ok ["echo", "a"] := expandWords_of_notMem (by decide) s
  have hSegments : segments (Text.trim "echo a\\ ".toList) = .ok [⟨.always, "echo a\\".toList⟩] := rfl
  exact ⟨by decide, cut_eq_iff.mp rfl, rfl, rfl, rfl, run_execute_of_words interp 0 hSegments hSeen⟩

end Interpreter

end OptionShell
