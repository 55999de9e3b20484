import OptionShell.Proofs.Interpreter.AndOrLists

/-!
# The calls of a line

A call is a command of a line with the session in which it starts. The calls of a line run one after the other, up to
the first after which the shell is to stop.
-/
namespace OptionShell

open Execution Interpreter Line

variable {α : Type}

/-- A command that a line comes to, with what follows it there and the session in which it starts. Lines in its scopes
nest less than `depth` deep. -/
structure Call (α : Type) where
  depth : Nat
  command : List Char
  rest : List Segment
  start : Session α

namespace Call

def step? (interp : Interpreter α) (call : Call α) : Option (Step α) :=
  Step.run (interp.runSegment (interp.execute call.depth)) call.command (!guards call.rest) call.start

/-- Whether the call fails with nothing to guard it and `errexit` on. -/
def isFatal (interp : Interpreter α) (call : Call α) : Bool := (call.step? interp).any Step.isFatal

def stops (interp : Interpreter α) (call : Call α) : Bool := (call.step? interp).any Step.stops

/-- Whether the first word of the command is this name and may run. -/
def runs (name : String) (call : Call α) : Bool :=
  (expandWords call.start call.command).toOption.any fun words =>
    words.head? = some name && !call.start.options.enabled "noexec"

end Call

namespace Interpreter

def lineCalls (interp : Interpreter α) (depth : Nat) : List Segment → Session α → List (Call α)
  | [], _ => []
  | segment :: rest, s =>
    if segment.connective.admits s.lastStatus then
      let call : Call α := { depth, command := segment.command, rest, start := s }
      call :: (call.step? interp).elim [] fun step => if step.stops then [] else lineCalls interp depth rest step.after
    else lineCalls interp depth rest s

end Interpreter

/-! ## The calls of a line -/

namespace Interpreter

/-- A line from a session on comes to a call. -/
inductive ComesTo (interp : Interpreter α) (depth : Nat) (call : Call α) : List Segment → Session α → Prop where
  | here {segment : Segment} {rest : List Segment} {s : Session α}
      (hAdmits : segment.connective.admits s.lastStatus = true)
      (hCall : call = { depth, command := segment.command, rest, start := s }) :
      ComesTo interp depth call (segment :: rest) s
  | refused {segment : Segment} {rest : List Segment} {s : Session α}
      (hAdmits : segment.connective.admits s.lastStatus = false) (h : ComesTo interp depth call rest s) :
      ComesTo interp depth call (segment :: rest) s
  | later {segment : Segment} {rest : List Segment} {s : Session α} (step : Step α)
      (hAdmits : segment.connective.admits s.lastStatus = true)
      (hStep : Step.run (interp.runSegment (interp.execute depth)) segment.command (!guards rest) s = some step)
      (hStops : step.stops = false) (h : ComesTo interp depth call rest step.after) :
      ComesTo interp depth call (segment :: rest) s

variable {interp : Interpreter α} {depth : Nat} {segs : List Segment} {s after : Session α} {call : Call α}
  {step : Step α}

theorem comesTo_of_mem (h : call ∈ interp.lineCalls depth segs s) : ComesTo interp depth call segs s := by
  induction segs generalizing s with
  | nil => cases h
  | cons segment rest ih =>
    rw [lineCalls] at h
    split at h
    · rename_i hAdmits
      obtain hHere | hLater := List.mem_cons.mp h
      · exact .here hAdmits hHere
      · cases hStep : Call.step? interp { depth, command := segment.command, rest, start := s } with
        | none =>
          rw [hStep] at hLater
          cases hLater
        | some step =>
          rw [hStep, Option.elim_some] at hLater
          split at hLater
          · cases hLater
          · rename_i hStops
            exact .later step hAdmits hStep (Bool.eq_false_iff.mpr hStops) (ih hLater)
    · rename_i hAdmits
      exact .refused (Bool.eq_false_iff.mpr hAdmits) (ih h)

theorem first_mem_lineCalls {segment : Segment} {rest : List Segment}
    (hAdmits : segment.connective.admits s.lastStatus = true) :
    { depth, command := segment.command, rest, start := s } ∈ interp.lineCalls depth (segment :: rest) s := by
  rw [lineCalls, if_pos hAdmits]
  exact List.mem_cons_self

namespace ComesTo

theorem depth_eq (h : ComesTo interp depth call segs s) : call.depth = depth := by
  induction h with
  | here hAdmits hCall => rw [hCall]
  | refused hAdmits h ih => exact ih
  | later step hAdmits hStep hStops h ih => exact ih

theorem exit?_eq (h : ComesTo interp depth call segs s) (hStart : s.exit? = none) : call.start.exit? = none := by
  induction h with
  | here hAdmits hCall => rwa [hCall]
  | refused hAdmits h ih => exact ih hStart
  | later step hAdmits hStep hStops h ih =>
    apply ih
    rwa [← Option.not_isSome_iff_eq_none, step.isSome_exit?_after, Bool.not_eq_true]

theorem exists_front (h : ComesTo interp depth call segs s) :
    ∃ front segment, segs = front ++ segment :: call.rest := by
  induction h with
  | @here segment rest s hAdmits hCall => exact ⟨[], segment, by rw [hCall]; rfl⟩
  | @refused segment rest s hAdmits h ih =>
    obtain ⟨front, last, rfl⟩ := ih
    exact ⟨segment :: front, last, rfl⟩
  | @later segment rest s step hAdmits hStep hStops h ih =>
    obtain ⟨front, last, rfl⟩ := ih
    exact ⟨segment :: front, last, rfl⟩

/-- The line ends with a call after which the shell is to stop, and goes on with the segments after any other. -/
theorem run_runSegments (h : ComesTo interp depth call segs s) (hStep : call.step? interp = some step) :
    ∃ texts, (runSegments (interp.runSegment (interp.execute depth)) segs).run s =
      if step.stops then some (.ok texts, step.after)
      else ((runSegments (interp.runSegment (interp.execute depth)) call.rest).run step.after).map fun ran =>
        (ran.1.map (texts ++ ·), ran.2) := by
  induction h with
  | here hAdmits hCall =>
    subst hCall
    refine ⟨chainText step.result, ?_⟩
    rw [run_runSegments_cons _ hAdmits]
    exact congrArg (Option.bind · _) hStep
  | refused hAdmits h ih =>
    rw [run_runSegments_of_refused _ hAdmits]
    exact ih
  | @later segment rest s first hAdmits hFirst hStops h ih =>
    obtain ⟨texts, hRest⟩ := ih
    refine ⟨chainText first.result ++ texts, ?_⟩
    rw [run_runSegments_cons _ hAdmits, hFirst, Option.bind_some, hStops, if_neg Bool.false_ne_true, hRest]
    split
    · rfl
    · rw [Option.map_map]
      refine congrArg (Option.map · _) (funext fun ran => ?_)
      obtain ⟨_ | others, last⟩ := ran
      · rfl
      · change (Except.ok (_ ++ (_ ++ _)), last) = (Except.ok (_ ++ _ ++ _), last)
        rw [List.append_assoc]

theorem exists_step (h : ComesTo interp depth call segs s) {ran : Except ShellError (List String) × Session α}
    (hRun : (runSegments (interp.runSegment (interp.execute depth)) segs).run s = some ran) :
    ∃ step, call.step? interp = some step := by
  induction h generalizing ran with
  | here hAdmits hCall =>
    subst hCall
    rw [run_runSegments_cons _ hAdmits] at hRun
    obtain ⟨step, hStep, -⟩ := Option.bind_eq_some_iff.mp hRun
    exact ⟨step, hStep⟩
  | refused hAdmits h ih =>
    rw [run_runSegments_of_refused _ hAdmits] at hRun
    exact ih hRun
  | later first hAdmits hFirst hStops h ih =>
    rw [run_runSegments_cons _ hAdmits, hFirst, Option.bind_some, hStops, if_neg Bool.false_ne_true] at hRun
    obtain ⟨ran, hRest, -⟩ := Option.map_eq_some_iff.mp hRun
    exact ih hRest

end ComesTo

/-- A line asks the shell to stop exactly if one of its calls does. -/
theorem isSome_exit?_of_runSegments {result : Except ShellError (List String)} (hStart : s.exit? = none)
    (hRun : (runSegments (interp.runSegment (interp.execute depth)) segs).run s = some (result, after)) :
    after.exit?.isSome = (interp.lineCalls depth segs s).any (Call.stops interp) := by
  induction segs generalizing s result with
  | nil =>
    cases hRun
    rw [hStart]
    rfl
  | cons segment rest ih =>
    rw [lineCalls]
    cases hAdmits : segment.connective.admits s.lastStatus with
    | false =>
      rw [run_runSegments_of_refused _ hAdmits] at hRun
      exact ih hStart hRun
    | true =>
      rw [run_runSegments_cons _ hAdmits] at hRun
      obtain ⟨step, hStep, hRest⟩ := Option.bind_eq_some_iff.mp hRun
      have hCall : Call.step? interp { depth, command := segment.command, rest, start := s } = some step := hStep
      rw [if_pos rfl, List.any_cons, Call.stops, hCall, Option.any_some, Option.elim_some]
      cases hStops : step.stops with
      | true =>
        rw [hStops] at hRest
        cases hRest
        rw [step.isSome_exit?_after, hStops]
        rfl
      | false =>
        rw [hStops] at hRest
        obtain ⟨⟨others, last⟩, hOthers, hSame⟩ := Option.map_eq_some_iff.mp hRest
        cases hSame
        have hNext : step.after.exit? = none := by
          rwa [← Option.not_isSome_iff_eq_none, step.isSome_exit?_after, Bool.not_eq_true]
        exact ih hNext hOthers

/-- A line that can be cut runs its segments, also if it has one only. -/
theorem exists_run_of_execute {line : String} {result : Except ShellError Output}
    (hSegments : segments (Text.trim line.toList) = .ok segs)
    (hRun : (interp.execute (depth + 1) line).run s = some (result, after)) :
    ∃ texts, (runSegments (interp.runSegment (interp.execute depth)) segs).run s = some (texts, after) := by
  rw [execute] at hRun
  cases segs with
  | nil =>
    rw [runChain, hSegments] at hRun
    split at hRun <;> cases hRun <;> exact ⟨_, rfl⟩
  | cons first others =>
    cases others with
    | nil =>
      rw [run_runChain_of_single hSegments] at hRun
      obtain ⟨step, hStep, hSame⟩ := Option.map_eq_some_iff.mp hRun
      cases hSame
      have hFirst : first.connective.admits s.lastStatus = true := by
        rw [connective_of_segments hSegments]
        rfl
      rw [run_runSegments_cons [] hFirst]
      refine ⟨.ok (chainText step.result), ?_⟩
      change (Step.run _ _ true s).bind _ = _
      rw [hStep, Option.bind_some]
      split
      · rfl
      · change some (Except.ok (chainText step.result ++ []), step.after) = _
        rw [List.append_nil]
    | cons second others =>
      rw [run_runChain_of_several hSegments] at hRun
      obtain ⟨⟨texts, last⟩, hTexts, hSame⟩ := Option.map_eq_some_iff.mp hRun
      cases hSame
      exact ⟨texts, hTexts⟩

theorem eq_of_execute_of_error {line : String} {result : Except ShellError Output} {error : LineError}
    (hSegments : segments (Text.trim line.toList) = .error error)
    (hRun : (interp.execute (depth + 1) line).run s = some (result, after)) : after = s := by
  rw [execute, run_runChain_of_error hSegments] at hRun
  cases hRun
  rfl

end Interpreter

end OptionShell
