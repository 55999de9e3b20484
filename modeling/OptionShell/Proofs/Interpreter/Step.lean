import OptionShell.Interpreter.Execution

/-!
# Steps of a line

A step is a command of a line that ran. Its status is recorded after it, and its failure can end the line; what the
line goes on with is told by the step alone.
-/
namespace OptionShell

open Execution Interpreter

variable {α β : Type}

/-- A command of a line that ran, and the session in which it ended. -/
structure Step (α : Type) where
  command : List Char
  /-- Whether it is the last of its and-or list, so that nothing guards against its failure. -/
  unguarded : Bool
  result : Except ShellError Output
  ended : Session α

namespace Step

def status (step : Step α) : Int32 := statusOf step.result

/-- An unguarded failure after which `errexit` is on. -/
def isFatal (step : Step α) : Bool :=
  step.unguarded && step.status ≠ 0 && step.ended.options.enabled "errexit"

/-- Whether the line ends after this step. -/
def stops (step : Step α) : Bool := step.isFatal || step.ended.exit?.isSome

/-- The session after the step: its status is recorded, and it is the status of the shell if the step is fatal. -/
def after (step : Step α) : Session α :=
  { step.ended with
    lastStatus := step.status
    exit? := if step.isFatal then some step.status else step.ended.exit? }

theorem isSome_exit?_after (step : Step α) : step.after.exit?.isSome = step.stops := by
  rw [after, stops]
  cases step.isFatal <;> rfl

/-- Runs a command as a step. -/
def run (run : List Char → Execution α Output) (command : List Char) (unguarded : Bool) (s : Session α) :
    Option (Step α) :=
  ((run command).run s).map fun ran => { command, unguarded, result := ran.1, ended := ran.2 }

end Step

namespace Interpreter

variable {run : List Char → Execution α Output} {s : Session α}

theorem run_get_bind (f : Session α → Execution α β) (s : Session α) : (get >>= f).run s = (f s).run s := rfl

theorem run_runRecorded (run : List Char → Execution α Output) (command : List Char) (s : Session α) :
    (runRecorded run command).run s =
      ((run command).run s).map fun ran => (.ok ran.1, { ran.2 with lastStatus := statusOf ran.1 }) := by
  change (((run command).run s).bind _).bind _ = _
  cases (run command).run s <;> rfl

theorem run_stopOnFailure (step : Step α) :
    (stopOnFailure step.status (!step.unguarded)).run { step.ended with lastStatus := step.status } =
      some (.ok step.isFatal, step.after) := by
  have hTest : (decide (step.status = 0) || !step.unguarded || !step.ended.options.enabled "errexit") =
      !step.isFatal := by
    rw [Step.isFatal, decide_not]
    cases step.unguarded <;> cases decide (step.status = 0) <;> rfl
  change (ite (_ = true) _ _ : Execution α Bool).run { step.ended with lastStatus := step.status } = _
  rw [hTest, Step.after]
  cases step.isFatal <;> rfl

/-- A command is run, recorded and tested in one step, from which the line goes on. -/
theorem run_recorded_bind (run : List Char → Execution α Output) (command : List Char) (guarded : Bool)
    (next : Except ShellError Output → Bool → Execution α β) (s : Session α) :
    (do
      let result ← runRecorded run command
      let stopped ← stopOnFailure (statusOf result) guarded
      next result stopped : Execution α β).run s =
      (Step.run run command (!guarded) s).bind fun step => (next step.result step.isFatal).run step.after := by
  change ((runRecorded run command).run s).bind _ = _
  rw [run_runRecorded, Step.run, Option.bind_map, Option.bind_map]
  refine congrArg (Option.bind _) (funext fun ran => ?_)
  have hStop := run_stopOnFailure ⟨command, !guarded, ran.1, ran.2⟩
  dsimp only at hStop
  rw [Bool.not_not] at hStop
  exact congrArg (fun stopped => stopped.bind fun told =>
    ExceptT.bindCont (fun stopped => next ran.1 stopped) told.1 told.2) hStop

/-- A segment that its connective refuses is left out. -/
theorem run_runSegments_of_refused {segment : Line.Segment} (rest : List Line.Segment)
    (hAdmits : segment.connective.admits s.lastStatus = false) :
    (runSegments run (segment :: rest)).run s = (runSegments run rest).run s := by
  change (ite (!segment.connective.admits s.lastStatus) _ _ : Execution α (List String)).run s = _
  rw [hAdmits]
  rfl

/-- The segments after one that runs go on in the session after its step, if that did not end the line. -/
theorem run_runSegments_cons {segment : Line.Segment} (rest : List Line.Segment)
    (hAdmits : segment.connective.admits s.lastStatus = true) :
    (runSegments run (segment :: rest)).run s =
      (Step.run run segment.command (!Line.guards rest) s).bind fun step =>
        if step.stops then some (.ok (chainText step.result), step.after)
        else ((runSegments run rest).run step.after).map fun ran =>
          (ran.1.map (chainText step.result ++ ·), ran.2) := by
  have hRound : (runSegments run (segment :: rest)).run s =
      (if !segment.connective.admits s.lastStatus then runSegments run rest
        else do
          let result ← runRecorded run segment.command
          let stopped ← stopOnFailure (statusOf result) (Line.guards rest)
          if stopped then return chainText result
          if (← get).exit?.isSome then return chainText result
          return chainText result ++ (← runSegments run rest) : Execution α (List String)).run s := rfl
  rw [hRound, hAdmits]
  refine (run_recorded_bind run segment.command (Line.guards rest) (fun result stopped => do
    if stopped then return chainText result
    if (← get).exit?.isSome then return chainText result
    return chainText result ++ (← runSegments run rest)) s).trans ?_
  refine congrArg (Option.bind _) (funext fun step => ?_)
  have hExit := step.isSome_exit?_after
  cases hFatal : step.isFatal with
  | true =>
    rw [Step.stops, hFatal]
    rfl
  | false =>
    change (ite (step.after.exit?.isSome = true) _ _ : Execution α (List String)).run step.after = _
    rw [hExit]
    cases step.stops with
    | true => rfl
    | false =>
      change ((runSegments run rest).run step.after).bind _ = ((runSegments run rest).run step.after).map _
      cases (runSegments run rest).run step.after with
      | none => rfl
      | some ran =>
        obtain ⟨_ | texts, last⟩ := ran <;> rfl

theorem nonempty_of_segments {text : List Char} (h : Line.segments text ≠ .ok []) : ¬text.isEmpty = true := by
  intro hEmpty
  rw [List.isEmpty_iff.mp hEmpty] at h
  exact h rfl

/-- A line that cannot be cut into commands runs none of them. -/
theorem run_runChain_of_error {line : String} {error : LineError}
    (hSegments : Line.segments (Text.trim line.toList) = .error error) (run : List Char → Execution α Output)
    (s : Session α) : (runChain run line).run s = some (.error error.toShellError, s) := by
  rw [runChain, if_neg (nonempty_of_segments (by rw [hSegments]; nofun)), hSegments]
  rfl

/-- A line of one command is one step, whose result is that of the line. -/
theorem run_runChain_of_single {line : String} {segment : Line.Segment}
    (hSegments : Line.segments (Text.trim line.toList) = .ok [segment]) (run : List Char → Execution α Output)
    (s : Session α) :
    (runChain run line).run s = (Step.run run segment.command true s).map fun step => (step.result, step.after) := by
  rw [runChain, if_neg (nonempty_of_segments (by rw [hSegments]; nofun)), hSegments]
  refine (run_recorded_bind run segment.command false (fun result _ => ofExcept result) s).trans ?_
  rw [Bool.not_false, Option.map_eq_bind]
  refine congrArg (Option.bind _) (funext fun step => ?_)
  rw [Function.comp_apply]
  cases step.result <;> rfl

/-- A line of several commands shows what they show, with the status that they leave. -/
theorem run_runChain_of_several {line : String} {first second : Line.Segment} {others : List Line.Segment}
    (hSegments : Line.segments (Text.trim line.toList) = .ok (first :: second :: others))
    (run : List Char → Execution α Output) (s : Session α) :
    (runChain run line).run s = ((runSegments run (first :: second :: others)).run s).map fun ran =>
      (ran.1.map fun texts => .ofStatus (Text.joinLines texts) ran.2.lastStatus, ran.2) := by
  rw [runChain, if_neg (nonempty_of_segments (by rw [hSegments]; nofun)), hSegments]
  change ((runSegments run (first :: second :: others)).run s).bind _ = _
  cases (runSegments run (first :: second :: others)).run s with
  | none => rfl
  | some ran =>
    obtain ⟨_ | texts, last⟩ := ran <;> rfl

end Interpreter

end OptionShell
