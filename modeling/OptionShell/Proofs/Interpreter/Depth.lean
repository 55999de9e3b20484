import OptionShell.Proofs.Interpreter.GuardedCalls

/-!
# The depth of a run

The bound on the depth of scopes decides only whether a line has a result, not which. So a line completes if some depth
is enough for it, and then all greater depths give the same result.
-/
namespace OptionShell

open Execution Interpreter Line

variable {α β γ : Type}

/-- Wherever the first has a result, the second has the same. -/
def Execution.Below (execution other : Execution α β) : Prop :=
  ∀ s ran, execution.run s = some ran → other.run s = some ran

/-! ## Lines and the lines in their scopes -/

namespace Execution.Below

theorem refl (execution : Execution α β) : Below execution execution := fun _ _ => id

theorem bind {first first' : Execution α β} {next next' : β → Execution α γ} (h : Below first first')
    (hNext : ∀ answer, Below (next answer) (next' answer)) : Below (first >>= next) (first' >>= next') := by
  intro s ran hRun
  obtain ⟨⟨result, mid⟩, hFirst, hRest⟩ := Option.bind_eq_some_iff.mp (show (first.run s).bind _ = _ from hRun)
  change (first'.run s).bind _ = _
  rw [h s _ hFirst, Option.bind_some]
  cases result with
  | ok answer => exact hNext answer mid ran hRest
  | error error => exact hRest

theorem outcome {execution other : Execution α β} (h : Below execution other) :
    Below (Execution.outcome execution) (Execution.outcome other) := by
  intro s ran hRun
  obtain ⟨ended, hFirst, hRest⟩ := Option.bind_eq_some_iff.mp (show (execution.run s).bind _ = _ from hRun)
  change (other.run s).bind _ = _
  rw [h s _ hFirst]
  exact hRest

variable {interp : Interpreter α}

theorem runScope {runLine runLine' : String → Execution α Output} (h : ∀ line, Below (runLine line) (runLine' line))
    (args : List String) : Below (Interpreter.runScope runLine args) (Interpreter.runScope runLine' args) := by
  rw [Interpreter.runScope, Interpreter.runScope]
  split
  · exact .refl _
  · exact .bind (.refl _) fun _ => .bind (h _).outcome fun _ => .refl _

theorem runSegment {runLine runLine' : String → Execution α Output} (h : ∀ line, Below (runLine line) (runLine' line))
    (command : List Char) : Below (interp.runSegment runLine command) (interp.runSegment runLine' command) := by
  refine .bind (.refl _) fun s => ?_
  split
  · rename_i words _
    cases words with
    | nil => exact .refl _
    | cons name args =>
      refine .bind (.refl _) fun s => ?_
      extract_lets options dispatch dispatch'
      have hDispatch : Below (dispatch ()) (dispatch' ()) := by
        dsimp only [dispatch, dispatch']
        split
        · exact .refl _
        · split
          · exact .refl _
          · split
            · exact runScope h args
            · exact .refl _
      split
      · exact .bind (.refl _) fun _ => hDispatch
      · exact hDispatch
  · exact .refl _

variable {run run' : List Char → Execution α Output}

theorem runRecorded (h : ∀ command, Below (run command) (run' command)) (command : List Char) :
    Below (Interpreter.runRecorded run command) (Interpreter.runRecorded run' command) :=
  .bind (h command).outcome fun _ => .refl _

theorem runSegments (h : ∀ command, Below (run command) (run' command)) (segs : List Segment) :
    Below (Interpreter.runSegments run segs) (Interpreter.runSegments run' segs) := by
  induction segs with
  | nil => exact .refl _
  | cons segment rest ih =>
    refine .bind (.refl _) fun s => ?_
    split
    · exact ih
    · refine .bind (runRecorded h _) fun result => .bind (.refl _) fun stopped => ?_
      split
      · exact .refl _
      · refine .bind (.refl _) fun s => ?_
        split
        · exact .refl _
        · exact .bind ih fun _ => .refl _

theorem runChain (h : ∀ command, Below (run command) (run' command)) (line : String) :
    Below (Interpreter.runChain run line) (Interpreter.runChain run' line) := by
  rw [Interpreter.runChain, Interpreter.runChain]
  split
  · exact .refl _
  · split
    · exact .refl _
    · exact .bind (runRecorded h _) fun _ => .refl _
    · exact .bind (runSegments h _) fun _ => .refl _

/-- More depth changes no result. -/
theorem execute (interp : Interpreter α) {depth deeper : Nat} (h : depth ≤ deeper) (line : String) :
    Below (interp.execute depth line) (interp.execute deeper line) := by
  induction depth generalizing deeper line with
  | zero => exact fun _ _ hRun => nomatch hRun
  | succ depth ih =>
    obtain ⟨deeper, rfl⟩ := Nat.exists_eq_add_of_le' h
    exact runChain (runSegment (ih (Nat.le_add_left ..))) line

end Execution.Below

end OptionShell
