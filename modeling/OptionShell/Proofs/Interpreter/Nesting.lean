import Mathlib.Logic.Function.Iterate
import Mathlib.Tactic.Choose
import OptionShell.Proofs.Interpreter.Depth

/-!
# Endless nesting

A line completes unless its scopes nest without end: then it comes to a call whose scope comes to a call whose scope
comes to a call, and so on. No other part of a line can go on forever.
-/
namespace OptionShell

open Execution Interpreter Line

variable {α : Type} {interp : Interpreter α} {depth deeper : Nat} {line inner : String} {segs : List Segment}
  {s opened : Session α} {call : Call α}

namespace Interpreter

/-- From some depth on, the line has one and the same result. -/
def Completes (interp : Interpreter α) (line : String) (s : Session α) : Prop :=
  ∃ depth ran, ∀ deeper, depth ≤ deeper → (interp.execute deeper line).run s = some ran

theorem completes_iff : interp.Completes line s ↔ ∃ depth ran, (interp.execute depth line).run s = some ran := by
  constructor
  · rintro ⟨depth, ran, hRun⟩
    exact ⟨depth, ran, hRun depth (Nat.le_refl depth)⟩
  · rintro ⟨depth, ran, hRun⟩
    exact ⟨depth, ran, fun deeper hDeeper => Below.execute interp hDeeper line s ran hRun⟩

/-- The line comes to the call, with as much depth as the calls before it need. -/
def Reaches (interp : Interpreter α) (line : String) (s : Session α) (call : Call α) : Prop :=
  ∃ segs, segments (Text.trim line.toList) = .ok segs ∧ call ∈ interp.lineCalls call.depth segs s

end Interpreter

/-- The line that a call runs in a scope, and the session in which that line starts. -/
def Call.scope? (call : Call α) : Option (String × Session α) :=
  (expandWords call.start call.command).toOption.bind (scopeLine? call.start)

/-- The line comes to the first call of the chain, and the scope of each call to the next one. -/
structure Interpreter.EndlessNesting (interp : Interpreter α) (line : String) (s : Session α) (chain : Nat → Call α) :
    Prop where
  first : interp.Reaches line s (chain 0)
  next : ∀ n, ∃ inner opened, (chain n).scope? = some (inner, opened) ∧ interp.Reaches inner opened (chain (n + 1))

/-! ## Depths of steps and calls -/

namespace Interpreter

theorem step_of_le (hDeeper : depth ≤ deeper) {command : List Char} {unguarded : Bool} {step : Step α}
    (h : Step.run (interp.runSegment (interp.execute depth)) command unguarded s = some step) :
    Step.run (interp.runSegment (interp.execute deeper)) command unguarded s = some step := by
  obtain ⟨ran, hRun, rfl⟩ := Option.map_eq_some_iff.mp h
  rw [Step.run, Below.runSegment (Below.execute interp hDeeper) command s ran hRun]
  rfl

theorem step_unique {command : List Char} {unguarded : Bool} {step other : Step α}
    (h : Step.run (interp.runSegment (interp.execute depth)) command unguarded s = some step)
    (hOther : Step.run (interp.runSegment (interp.execute deeper)) command unguarded s = some other) :
    step = other := by
  have hStep := step_of_le (Nat.le_max_left depth deeper) h
  exact Option.some.inj (hStep.symm.trans (step_of_le (Nat.le_max_right depth deeper) hOther))

/-- A line comes to the call of its first segment that runs, and then to those after it. -/
theorem lineCalls_of_step {segment : Segment} {rest : List Segment} {step : Step α}
    (hAdmits : segment.connective.admits s.lastStatus = true)
    (hStep : Step.run (interp.runSegment (interp.execute depth)) segment.command (!guards rest) s = some step) :
    interp.lineCalls depth (segment :: rest) s = { depth, command := segment.command, rest, start := s } ::
      if step.stops then [] else interp.lineCalls depth rest step.after := by
  have hFirst : Call.step? interp { depth, command := segment.command, rest, start := s } = some step := hStep
  rw [lineCalls, if_pos hAdmits]
  dsimp only
  rw [hFirst]
  rfl

theorem mem_lineCalls_of_le (hDeeper : depth ≤ deeper) (h : call ∈ interp.lineCalls depth segs s) :
    { call with depth := deeper } ∈ interp.lineCalls deeper segs s := by
  have hComes := comesTo_of_mem h
  clear h
  induction hComes with
  | here hAdmits hCall =>
    subst hCall
    exact first_mem_lineCalls hAdmits
  | refused hAdmits _ ih =>
    rw [lineCalls, hAdmits]
    exact ih
  | later step hAdmits hStep hStops _ ih =>
    rw [lineCalls_of_step hAdmits (step_of_le hDeeper hStep), hStops]
    exact List.mem_cons_of_mem _ ih

/-- The calls that a line comes to have ended if the line has, whatever depth was used to come to them. -/
theorem ComesTo.exists_ended (h : ComesTo interp deeper call segs s) {ran : Except ShellError (List String) × Session α}
    (hRun : (runSegments (interp.runSegment (interp.execute depth)) segs).run s = some ran) :
    ∃ ended, (interp.runSegment (interp.execute depth) call.command).run call.start = some ended := by
  induction h generalizing ran with
  | here hAdmits hCall =>
    subst hCall
    rw [run_runSegments_cons _ hAdmits] at hRun
    obtain ⟨step, hStep, -⟩ := Option.bind_eq_some_iff.mp hRun
    obtain ⟨ended, hEnded, -⟩ := Option.map_eq_some_iff.mp hStep
    exact ⟨ended, hEnded⟩
  | refused hAdmits h ih =>
    rw [run_runSegments_of_refused _ hAdmits] at hRun
    exact ih hRun
  | later step hAdmits hStep hStops h ih =>
    rw [run_runSegments_cons _ hAdmits] at hRun
    obtain ⟨other, hOther, hRest⟩ := Option.bind_eq_some_iff.mp hRun
    obtain rfl := step_unique hStep hOther
    rw [hStops, if_neg Bool.false_ne_true] at hRest
    obtain ⟨last, hLast, -⟩ := Option.map_eq_some_iff.mp hRest
    exact ih hLast

/-- A line that has a result has brought the scopes of its calls to an end, with less depth. -/
theorem exists_run_of_reaches {ran : Except ShellError Output × Session α}
    (hRun : (interp.execute (depth + 1) line).run s = some ran) (hReaches : interp.Reaches line s call)
    (hScope : call.scope? = some (inner, opened)) :
    ∃ ended, (interp.execute depth inner).run opened = some ended := by
  obtain ⟨segs, hSegments, hCall⟩ := hReaches
  obtain ⟨texts, hTexts⟩ := exists_run_of_execute hSegments hRun
  obtain ⟨⟨result, after⟩, hEnded⟩ := (comesTo_of_mem hCall).exists_ended hTexts
  obtain ⟨-, output, mid, hInner, -⟩ := exists_run_of_scopeLine hScope hEnded
  exact ⟨(output, mid), hInner⟩

/-- No depth is enough for scopes that nest without end. -/
theorem EndlessNesting.run_eq_none {chain : Nat → Call α} (h : interp.EndlessNesting line s chain) (depth : Nat) :
    (interp.execute depth line).run s = none := by
  induction depth generalizing line s chain with
  | zero => rfl
  | succ depth ih =>
    obtain ⟨inner, opened, hScope, hNext⟩ := h.next 0
    have hInner : interp.EndlessNesting inner opened fun n => chain (n + 1) := ⟨hNext, fun n => h.next (n + 1)⟩
    refine Option.eq_none_iff_forall_ne_some.mpr fun ran hRun => ?_
    obtain ⟨ended, hEnded⟩ := exists_run_of_reaches hRun h.first hScope
    rw [ih hInner] at hEnded
    cases hEnded

/-! ## Lines that complete -/

/-- Segments have a result at some depth if each of their calls has ended at some depth. -/
theorem exists_runSegments_of_calls (hCalls : ∀ depth, ∀ call ∈ interp.lineCalls depth segs s,
      ∃ depth ended, (interp.runSegment (interp.execute depth) call.command).run call.start = some ended) :
    ∃ depth ran, (runSegments (interp.runSegment (interp.execute depth)) segs).run s = some ran := by
  induction segs generalizing s with
  | nil => exact ⟨0, _, rfl⟩
  | cons segment rest ih =>
    cases hAdmits : segment.connective.admits s.lastStatus with
    | false =>
      have hRest := ih (s := s) fun depth call hCall => hCalls depth call (by
        rw [lineCalls, hAdmits]
        exact hCall)
      obtain ⟨depth, ran, hRun⟩ := hRest
      exact ⟨depth, ran, (run_runSegments_of_refused rest hAdmits).trans hRun⟩
    | true =>
      obtain ⟨first, ended, hEnded⟩ := hCalls 0 _ (first_mem_lineCalls hAdmits)
      obtain ⟨step, hStep⟩ : ∃ step, Step.run (interp.runSegment (interp.execute first)) segment.command
          (!guards rest) s = some step := ⟨_, Option.map_eq_some_iff.mpr ⟨ended, hEnded, rfl⟩⟩
      cases hStops : step.stops with
      | true =>
        refine ⟨first, (.ok (chainText step.result), step.after), ?_⟩
        rw [run_runSegments_cons rest hAdmits, hStep, Option.bind_some, if_pos hStops]
      | false =>
        have hRest := ih (s := step.after) fun depth call hCall => by
          refine hCalls (max depth first) { call with depth := max depth first } ?_
          rw [lineCalls_of_step hAdmits (step_of_le (Nat.le_max_right depth first) hStep), hStops]
          exact List.mem_cons_of_mem _ (mem_lineCalls_of_le (Nat.le_max_left depth first) hCall)
        obtain ⟨depth, ran, hRun⟩ := hRest
        refine ⟨max depth first, (ran.1.map (chainText step.result ++ ·), ran.2), ?_⟩
        have hRunThere := Below.runSegments (Below.runSegment (Below.execute interp (Nat.le_max_left depth first)))
          rest step.after ran hRun
        rw [run_runSegments_cons rest hAdmits, step_of_le (Nat.le_max_right depth first) hStep, Option.bind_some,
          hStops, if_neg Bool.false_ne_true, hRunThere]
        rfl

theorem exists_execute_of_runSegments (hSegments : segments (Text.trim line.toList) = .ok segs)
    {ran : Except ShellError (List String) × Session α}
    (hRun : (runSegments (interp.runSegment (interp.execute depth)) segs).run s = some ran) :
    ∃ ended, (interp.execute (depth + 1) line).run s = some ended := by
  rw [execute]
  cases segs with
  | nil =>
    rw [runChain, hSegments]
    split <;> exact ⟨_, rfl⟩
  | cons first others =>
    cases others with
    | nil =>
      have hFirst : first.connective.admits s.lastStatus = true := by
        rw [connective_of_segments hSegments]
        rfl
      rw [run_runSegments_cons [] hFirst] at hRun
      obtain ⟨step, hStep, -⟩ := Option.bind_eq_some_iff.mp hRun
      rw [run_runChain_of_single hSegments]
      exact ⟨_, Option.map_eq_some_iff.mpr ⟨step, hStep, rfl⟩⟩
    | cons second others =>
      rw [run_runChain_of_several hSegments, hRun]
      exact ⟨_, rfl⟩

/-- A line completes if each call that it comes to ends at some depth. -/
theorem completes_of_calls (hCalls : ∀ call, interp.Reaches line s call →
      ∃ depth ended, (interp.runSegment (interp.execute depth) call.command).run call.start = some ended) :
    interp.Completes line s := by
  rw [completes_iff]
  cases hSegments : segments (Text.trim line.toList) with
  | error error => exact ⟨1, _, run_runChain_of_error hSegments _ s⟩
  | ok segs =>
    have hEnds : ∀ depth, ∀ call ∈ interp.lineCalls depth segs s,
        ∃ depth ended, (interp.runSegment (interp.execute depth) call.command).run call.start = some ended :=
      fun depth call hCall => hCalls call ⟨segs, hSegments, (comesTo_of_mem hCall).depth_eq ▸ hCall⟩
    obtain ⟨depth, ran, hRun⟩ := exists_runSegments_of_calls hEnds
    exact ⟨depth + 1, exists_execute_of_runSegments hSegments hRun⟩

/-- Scopes nest without end if from each line that does not complete, in a session of some kind, another one like that
is opened in a scope. -/
theorem exists_endlessNesting (Kind : Session α → Prop)
    (hOpens : ∀ line s, Kind s → ¬interp.Completes line s → ∃ call inner opened, interp.Reaches line s call ∧
      call.scope? = some (inner, opened) ∧ Kind opened ∧ ¬interp.Completes inner opened)
    (hs : Kind s) (h : ¬interp.Completes line s) : ∃ chain, interp.EndlessNesting line s chain := by
  have hNext : ∀ stuck : { stuck : String × Session α // Kind stuck.2 ∧ ¬interp.Completes stuck.1 stuck.2 },
      ∃ call, ∃ next : { stuck : String × Session α // Kind stuck.2 ∧ ¬interp.Completes stuck.1 stuck.2 },
        interp.Reaches stuck.1.1 stuck.1.2 call ∧ call.scope? = some next.1 := by
    rintro ⟨⟨line, s⟩, hKind, hStuck⟩
    obtain ⟨call, inner, opened, hReaches, hScope, hOpened, hInner⟩ := hOpens line s hKind hStuck
    exact ⟨call, ⟨(inner, opened), hOpened, hInner⟩, hReaches, hScope⟩
  choose call next hReaches hScope using hNext
  let stuck := fun n => next^[n] ⟨(line, s), hs, h⟩
  have hStep : ∀ n, stuck (n + 1) = next (stuck n) := fun n => Function.iterate_succ_apply' next n _
  refine ⟨fun n => call (stuck n), hReaches (stuck 0), fun n => ?_⟩
  refine ⟨(next (stuck n)).1.1, (next (stuck n)).1.2, hScope (stuck n), ?_⟩
  rw [hStep]
  exact hReaches (next (stuck n))

end Interpreter

end OptionShell
