import OptionShell.Builtin.General
import OptionShell.Proofs.Interpreter.Nesting
import OptionShell.Proofs.Line.Joining

/-!
# Lines that are joined, and lines that are refused

A line is cut into the commands that it was joined from. It is refused exactly if one of its `&&` and `||` has no command
before it, and then it runs nothing and leaves everything as it was.
-/
namespace OptionShell.Interpreter

open Line

variable {α : Type}

theorem segments_joined_or_refused (interp : Interpreter α) (depth : Nat) (s : Session α) :
    (∀ first others, first.connective = .always → (∀ segment ∈ first :: others, StandsAlone segment.command) →
      segments (joined (first :: others)) = .ok (first :: others)) ∧
    ∀ line : String,
      ((∃ error, segments line.toList = .error error) ↔ MissesCommand (lexemes none line.toList)) ∧
      (MissesCommand (lexemes none line.toList) →
        (interp.execute (depth + 1) line).run s = some (.error (.command "syntax error near unexpected token"), s) ∧
          ∀ call, ¬interp.Reaches line s call) := by
  refine ⟨fun first others hFirst hAlone => ?_, fun line => ?_⟩
  · have hCut := segmentsAfter_joined hAlone
    rwa [hFirst, ← segments_eq_segmentsAfter] at hCut
  · have hRefused : (∃ error, segments line.toList = .error error) ↔ MissesCommand (lexemes none line.toList) := by
      rw [segments_eq_segmentsAfter]
      exact exists_error_segmentsAfter_iff .always line.toList
    refine ⟨hRefused, fun hMisses => ?_⟩
    obtain ⟨error, hError⟩ := (exists_error_segments_trim_iff line.toList).mpr (hRefused.mpr hMisses)
    have hRun := run_runChain_of_error hError (interp.runSegment (interp.execute depth)) s
    rw [eq_missingCommand_of_segments hError] at hRun
    refine ⟨hRun, ?_⟩
    rintro call ⟨segs, hSegments, -⟩
    rw [hError] at hSegments
    cases hSegments

/-- Commands with a backslash at the end, quoted operators, and single ampersands and bars at the joints; and a line
with two operators next to each other. -/
theorem segments_joined_or_refused_of_marks_at_joints :
    let interp : Interpreter Unit := { commands := CommandTable.add Builtin.success .empty }
    let s : Session Unit := { options := { host := { user := () } } }
    let first : Segment := ⟨.always, "a\\".toList⟩
    let others : List Segment :=
      [⟨.onSuccess, "'x;' & y &".toList⟩, ⟨.onFailure, "| \"b && c\\\"\"".toList⟩, ⟨.always, "& d".toList⟩]
    (∀ segment ∈ first :: others, StandsAlone segment.command) ∧
      joined (first :: others) = "a\\ && 'x;' & y & || | \"b && c\\\"\" ; & d".toList ∧
      segments (joined (first :: others)) = .ok (first :: others) ∧
      MissesCommand (lexemes none "true&&&& true".toList) ∧
      (interp.execute 1 "true&&&& true").run s = some (.error (.command "syntax error near unexpected token"), s) := by
  intro interp s first others
  have hAlone : ∀ segment ∈ first :: others, StandsAlone segment.command := by
    simp only [first, others, List.forall_mem_cons]
    exact ⟨⟨⟨_, rfl⟩, rfl⟩, ⟨⟨_, rfl⟩, rfl⟩, ⟨⟨_, rfl⟩, rfl⟩, ⟨⟨_, rfl⟩, rfl⟩, nofun⟩
  have hMisses : MissesCommand (lexemes none "true&&&& true".toList) :=
    ⟨.onSuccess, "true&&".toList.map .bare, [], by decide, ⟨by decide +kernel, by decide +kernel⟩, nofun,
      .inr ⟨"true".toList.map .bare, .onSuccess, rfl, by decide +kernel, by decide +kernel⟩⟩
  obtain ⟨hJoined, hRefused⟩ := segments_joined_or_refused interp 0 s
  exact ⟨hAlone, rfl, hJoined first others rfl hAlone, hMisses, ((hRefused _).2 hMisses).1⟩

end OptionShell.Interpreter
