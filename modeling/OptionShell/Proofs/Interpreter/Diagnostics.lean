import OptionShell.Interpreter.Execution
import OptionShell.Proofs.Commutes
import OptionShell.Proofs.Interpreter.Composition

/-!
# Diagnostics decide nothing

Commands and lines report diagnostics and never look at those that were reported before. So what was reported before a
line only stands in front of what the line reports.
-/
namespace OptionShell

variable {α β : Type}

def Session.preceded (earlier : List String) (s : Session α) : Session α :=
  { s with toWorkspace := s.toWorkspace.preceded earlier }

/-- What was reported before the action only stands in front of what it reports. -/
def Action.Appends (action : Action α β) : Prop := ∀ earlier, Commutes (Workspace.preceded earlier) action.run

def Execution.Appends (execution : Execution α β) : Prop := ∀ earlier, Commutes (Session.preceded earlier) execution.run

/-! ## Actions -/

namespace Action

theorem appends_update (change : Update (Host α) β) : Appends (update change) := fun earlier work => by
  rw [run_update, run_update]
  change (change work.options).map _ = _
  cases change work.options <;> rfl

theorem appends_editVars (edit : Variables → Except VariableError Variables) :
    Appends (editVars edit : Action α Unit) := fun earlier work => by
  have hVars : (work.preceded earlier).vars = work.vars := rfl
  rw [run_editVars, run_editVars, hVars]
  cases edit work.vars <;> rfl

/-- Whatever an action is made of, its steps do not look at the diagnostics. -/
theorem Composed.appends {action : Action α β} (h : Composed (fun _ => True) (fun _ _ => True) action) :
    action.Appends := by
  intro earlier
  induction h with
  | ok answer => exact .ok answer
  | throw error => exact .throw error
  | andThen _ _ ih ihNext => exact .andThen ih ihNext
  | look hBlind _ ih => exact .get_andThen (hBlind earlier) fun w => ih w trivial
  | alter g hBlind _ => exact .alter (hBlind earlier)
  | update _ => exact appends_update _ earlier
  | editVars edit _ => exact appends_editVars edit earlier
  | tryCatch _ _ ih ihHandler => exact .tryCatch ih ihHandler

end Action

/-! ## Lines -/

namespace Interpreter

open Execution

/-- Every command that the interpreter can find only appends to the diagnostics. -/
def CommandsAppend (interp : Interpreter α) : Prop :=
  ∀ loaded name command, interp.findCommand? loaded name = some command → ∀ args, (command.run args).Appends

theorem appends_act {action : Action α β} (h : action.Appends) : Execution.Appends (act action) := fun earlier s => by
  change (action.run (s.toWorkspace.preceded earlier)).bind _ = ((action.run s.toWorkspace).bind _).map _
  rw [h earlier]
  cases action.run s.toWorkspace <;> rfl

theorem appends_outcome {execution : Execution α β} (h : execution.Appends) : Execution.Appends (outcome execution) :=
  fun earlier s => by
    change (execution.run (s.preceded earlier)).bind _ = ((execution.run s).bind _).map _
    rw [h earlier]
    cases execution.run s <;> rfl

theorem appends_setStatus (status : Int32) : Execution.Appends (setStatus status : Execution α Unit) :=
  fun _ => .alter fun _ => rfl

theorem appends_closeScope : Execution.Appends (closeScope : Execution α Unit) := fun earlier => by
  refine .get_andThen (fun _ => rfl) fun s => ?_
  split
  · exact .ok _
  · refine .andThen (.alter fun _ => rfl) fun _ => ?_
    split
    · exact .andThen (appends_act (Action.appends_update _) earlier) fun _ => .ok _
    · exact .ok _

section Runs

variable {interp : Interpreter α} {runLine : String → Execution α Output} {run : List Char → Execution α Output}

theorem appends_runScope (hLine : ∀ line, (runLine line).Appends) (args : List String) :
    (runScope runLine args).Appends := fun earlier => by
  rw [runScope]
  split
  · exact .stop _ _
  · refine .andThen (.alter fun _ => rfl) fun _ => .andThen (appends_outcome (hLine _) earlier) fun result => ?_
    exact .andThen (appends_closeScope earlier) fun _ => .ofExcept result

theorem appends_runWords (hCommands : interp.CommandsAppend) (hLine : ∀ line, (runLine line).Appends)
    (words : List String) : (interp.runWords runLine words).Appends := fun earlier => by
  cases words with
  | nil => exact .ok _
  | cons name args =>
    refine .get_andThen (fun _ => rfl) fun s => ?_
    extract_lets options dispatch
    have hDispatch : Commutes (Session.preceded earlier) (dispatch ()).run := by
      dsimp only [dispatch]
      split
      · exact .ok _
      · split
        · exact .ofExcept _
        · split
          · exact appends_runScope hLine args earlier
          · refine .get_andThen (fun _ => rfl) fun s => ?_
            split
            · rename_i command hFound
              exact appends_act (hCommands _ name command hFound args) earlier
            · exact .throw _
    split
    · exact .andThen (appends_act (Action.Composed.diagnose _).appends earlier) fun _ => hDispatch
    · exact hDispatch

theorem appends_runSegment (hCommands : interp.CommandsAppend) (hLine : ∀ line, (runLine line).Appends)
    (command : List Char) : (interp.runSegment runLine command).Appends := fun earlier => by
  refine .get_andThen (fun _ => rfl) fun s => ?_
  split
  · exact appends_runWords hCommands hLine _ earlier
  · exact .throw _

theorem appends_stopOnFailure (status : Int32) (guarded : Bool) :
    Execution.Appends (stopOnFailure status guarded : Execution α Bool) := fun earlier => by
  refine .get_andThen (fun _ => rfl) fun s => ?_
  split
  · exact .ok _
  · exact .andThen (.alter fun _ => rfl) fun _ => .ok _

theorem appends_runRecorded (hRun : ∀ command, (run command).Appends) (command : List Char) :
    (runRecorded run command).Appends := fun earlier =>
  .andThen (appends_outcome (hRun command) earlier) fun _ => .andThen (appends_setStatus _ earlier) fun _ => .ok _

theorem appends_runSegments (hRun : ∀ command, (run command).Appends) (segments : List Line.Segment) :
    (runSegments run segments).Appends := fun earlier => by
  induction segments with
  | nil => exact .ok _
  | cons segment rest ih =>
    refine .get_andThen (fun _ => rfl) fun s => ?_
    split
    · exact ih
    · refine .andThen (appends_runRecorded hRun _ earlier) fun result => ?_
      refine .andThen (appends_stopOnFailure _ _ earlier) fun stopped => ?_
      split
      · exact .ok _
      · refine .get_andThen (fun _ => rfl) fun s => ?_
        split
        · exact .ok _
        · exact .andThen ih fun _ => .ok _

theorem appends_runChain (hRun : ∀ command, (run command).Appends) (line : String) : (runChain run line).Appends :=
  fun earlier => by
    rw [runChain]
    split
    · exact .ok _
    · split
      · exact .throw _
      · refine .andThen (appends_runRecorded hRun _ earlier) fun result => ?_
        exact .andThen (appends_stopOnFailure _ _ earlier) fun _ => .ofExcept result
      · refine .andThen (appends_runSegments hRun _ earlier) fun texts => ?_
        exact .get_andThen (fun _ => rfl) fun _ => .ok _

/-- Lines only append to the diagnostics, at every depth. -/
theorem appends_execute (hCommands : interp.CommandsAppend) (depth : Nat) (line : String) :
    (interp.execute depth line).Appends := by
  induction depth generalizing line with
  | zero => exact fun _ => .none
  | succ depth ih => exact appends_runChain (appends_runSegment hCommands ih) line

end Runs

end Interpreter

end OptionShell
