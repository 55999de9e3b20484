import OptionShell.Builtin.General
import OptionShell.Proofs.Interpreter.AndOrLists

/-!
# The recorded status of a line

A line that can be cut into commands records the status of its own result, also if a command cannot be expanded or
read, and if no command is left at all. A line that cannot be cut records nothing, although its result has a status.
-/
namespace OptionShell

@[simp] theorem Output.exitStatus_ofStatus (lines : String) (code : Int32) :
    (Output.ofStatus lines code).exitStatus = code := by
  rw [ofStatus]
  split
  · rename_i hZero
    rw [hZero, ofText]
    split <;> rfl
  · rfl

namespace Interpreter

variable {α : Type} {run : List Char → Execution α Output} {line : String} {s after : Session α}
  {result : Except ShellError Output}

theorem lastStatus_of_runChain {segments : List Line.Segment}
    (hSegments : Line.segments (Text.trim line.toList) = .ok segments) (hLine : Text.trim line.toList ≠ [])
    (hRun : (runChain run line).run s = some (result, after)) : after.lastStatus = statusOf result := by
  cases segments with
  | nil =>
    -- The line has separators only, and its result repeats the status from before.
    rw [runChain, if_neg (by rwa [List.isEmpty_iff]), hSegments] at hRun
    cases hRun
    exact (Output.exitStatus_ofStatus _ _).symm
  | cons first rest =>
    cases rest with
    | nil =>
      rw [run_runChain_of_single hSegments, Option.map_eq_some_iff] at hRun
      obtain ⟨step, -, hStep⟩ := hRun
      cases hStep
      rfl
    | cons second others =>
      rw [run_runChain_of_several hSegments, run_runSegments _ (Line.connective_of_segments hSegments),
        Option.map_map, Option.map_eq_some_iff] at hRun
      obtain ⟨trace, -, hTrace⟩ := hRun
      cases hTrace
      exact (Output.exitStatus_ofStatus _ _).symm

/-- A line that is not blank records the status of its result, unless it cannot be cut into commands. Such a line
changes nothing, and its result has the status of a wrong usage. -/
theorem status_recorded_iff (interp : Interpreter α) (depth : Nat) (line : String) (s after : Session α)
    (result : Except ShellError Output) (hLine : Text.trim line.toList ≠ [])
    (hRun : (interp.execute depth line).run s = some (result, after)) :
    (after.lastStatus = statusOf result ↔
        (∃ segments, Line.segments (Text.trim line.toList) = .ok segments) ∨ s.lastStatus = ExitStatus.badUsage) ∧
      ∀ error, Line.segments (Text.trim line.toList) = .error error →
        after = s ∧ statusOf result = ExitStatus.badUsage := by
  cases depth with
  | zero => cases hRun
  | succ depth =>
    rw [execute] at hRun
    cases hSegments : Line.segments (Text.trim line.toList) with
    | ok segments =>
      refine ⟨?_, fun _ hError => by cases hError⟩
      simp [lastStatus_of_runChain hSegments hLine hRun]
    | error error =>
      rw [run_runChain_of_error hSegments] at hRun
      cases hRun
      refine ⟨?_, fun _ _ => ⟨rfl, rfl⟩⟩
      simp only [reduceCtorEq, exists_false, false_or]
      rfl

/-- The last command of the line cannot be read, and the line records this although it ends without an error. -/
theorem status_recorded_of_open_quote :
    let interp : Interpreter Unit := { commands := CommandTable.add Builtin.success .empty }
    let s : Session Unit := { options := { host := { user := () } } }
    Text.trim "true; true 'a".toList ≠ [] ∧
      ∃ after, (interp.execute 1 "true; true 'a").run s =
          some (.ok (.status "error: unterminated single quote" 2), after) ∧ after.lastStatus = 2 := by
  intro interp s
  have hLine : Text.trim "true; true 'a".toList ≠ [] := by decide +kernel
  have hCut : (Line.segments (Text.trim "true; true 'a".toList)).toOption.isSome = true := by decide +kernel
  have hResult : ((interp.execute 1 "true; true 'a").run s).any (fun ran =>
      ran.1.toOption = some (.status "error: unterminated single quote" 2)) = true := by decide +kernel
  obtain ⟨⟨error | output, after⟩, hRun, hShown⟩ := (Option.any_eq_true _ _).mp hResult
  · cases of_decide_eq_true hShown
  · cases Option.some.inj (of_decide_eq_true hShown)
    have hRecorded := (status_recorded_iff interp 1 "true; true 'a" s after _ hLine hRun).1
    refine ⟨hLine, after, hRun, hRecorded.mpr (.inl ?_)⟩
    cases hSegments : Line.segments (Text.trim "true; true 'a".toList) with
    | error error =>
      rw [hSegments] at hCut
      cases hCut
    | ok segments => exact ⟨segments, rfl⟩

/-- Nothing stands before the connective, and the status that this results in is not recorded. -/
theorem status_unrecorded_of_missing_command :
    let s : Session Unit := { options := { host := { user := () } } }
    ∃ result, (({} : Interpreter Unit).execute 1 "&& true").run s = some (result, s) ∧ statusOf result = 2 ∧
      s.lastStatus = 0 :=
  ⟨_, rfl, rfl, rfl⟩

end Interpreter

end OptionShell
