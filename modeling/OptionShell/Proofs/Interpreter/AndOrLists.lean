import OptionShell.Builtin.General
import OptionShell.Proofs.Interpreter.Step
import OptionShell.Proofs.Line.Scanning
import OptionShell.Shell.StandardOptions

/-!
# And-or lists

The commands of a line are grouped into and-or lists, one after the other, with a new one after each `;`. In a list
`&&` and `||` associate to the left. A line runs the steps that this tree calls for, up to the first that ends it.
-/
namespace OptionShell

namespace Line

/-! ## Lists and sequences -/

/-- Commands joined by `&&` and `||`. -/
inductive AndOrList where
  | command (text : List Char)
  | onSuccess (first : AndOrList) (text : List Char)
  | onFailure (first : AndOrList) (text : List Char)
deriving Repr

/-- And-or lists with `;` between them. -/
inductive Sequence where
  | final (list : AndOrList)
  | followed (list : AndOrList) (rest : Sequence)
deriving Repr

/-- The sequence that starts with a list and goes on with the segments after it. -/
def AndOrList.continued (list : AndOrList) : List Segment → Sequence
  | [] => .final list
  | ⟨.always, text⟩ :: rest => .followed list ((AndOrList.command text).continued rest)
  | ⟨.onSuccess, text⟩ :: rest => (AndOrList.onSuccess list text).continued rest
  | ⟨.onFailure, text⟩ :: rest => (AndOrList.onFailure list text).continued rest

/-- The segments of a line as a sequence. The first of them starts a list. -/
def sequence (first : Segment) (rest : List Segment) : Sequence := (AndOrList.command first.command).continued rest

/-- What is left out before the first segment stands before `;`. -/
theorem connective_of_segmentsOf {commands : List (Connective × List Lexeme)} {first : Segment} {rest : List Segment}
    (hAlways : ∀ command ∈ commands.head?, command.1 = .always) (h : segmentsOf commands = .ok (first :: rest)) :
    first.connective = .always := by
  induction commands with
  | nil => cases h
  | cons command others ih =>
    rw [segmentsOf] at h
    split at h
    · cases hOthers : segmentsOf others with
      | error error =>
        rw [hOthers] at h
        cases h
      | ok segments =>
        rw [hOthers] at h
        cases h
        exact hAlways command rfl
    · split at h
      · cases h
      · rename_i hNext
        refine ih (fun next hHead => ?_) h
        rw [Option.mem_def.mp hHead] at hNext
        simpa using hNext

theorem connective_of_segments {text : List Char} {first : Segment} {rest : List Segment}
    (h : segments text = .ok (first :: rest)) : first.connective = .always := by
  rw [segments_eq_segmentsAfter] at h
  refine connective_of_segmentsOf (fun command hHead => ?_) h
  cases hHead
  rfl

end Line

open Execution Interpreter Line

variable {α : Type}

/-! ## Evaluation -/

/-- Steps that ran: the last of them, and those before it. -/
structure Trace (α : Type) where
  earlier : List (Step α)
  last : Step α

namespace Trace

def steps (trace : Trace α) : List (Step α) := trace.earlier ++ [trace.last]

/-- What the steps show, in the order in which they ran: texts that are not empty, and a line for each error. -/
def texts (trace : Trace α) : List String := trace.steps.filterMap fun step =>
  match step.result with
  | .ok output => if output.lines = "" then none else some output.lines
  | .error error => some ("error: " ++ error.message)

def after (trace : Trace α) : Session α := trace.last.after

theorem texts_single (step : Step α) : texts { earlier := [], last := step } = chainText step.result := by
  rw [texts, steps, List.nil_append, List.filterMap_cons, List.filterMap_nil]
  dsimp only
  cases step.result with
  | error error => rfl
  | ok output => by_cases hEmpty : output.lines = "" <;> simp [chainText, hEmpty]

theorem texts_concat (trace : Trace α) (step : Step α) :
    texts { earlier := trace.steps, last := step } = trace.texts ++ chainText step.result := by
  rw [← texts_single step, texts, texts, texts, ← List.filterMap_append]
  rfl

def prepend (front : List (Step α)) (trace : Trace α) : Trace α := { trace with earlier := front ++ trace.earlier }

/-- A command that runs alone. -/
def ofCommand (run : List Char → Execution α Output) (text : List Char) (unguarded : Bool) (s : Session α) :
    Option (Trace α) :=
  (Step.run run text unguarded s).map fun step => { earlier := [], last := step }

/-- Goes on with `next` after the last step, unless that ends everything or what follows is not wanted. -/
def goOn (ends : Step α → Bool) (wanted : Bool) (next : Session α → Option (Trace α)) (trace : Trace α) :
    Option (Trace α) :=
  if ends trace.last || !wanted then some trace else (next trace.after).map (prepend trace.steps)

end Trace

/-- Evaluates a list from the left, up to a step that `ends` tells. The last command of a whole list is unguarded. -/
def Line.AndOrList.eval (ends : Step α → Bool) (run : List Char → Execution α Output) :
    AndOrList → (unguarded : Bool) → Session α → Option (Trace α)
  | .command text, unguarded, s => Trace.ofCommand run text unguarded s
  | .onSuccess first text, unguarded, s =>
    (first.eval ends run false s).bind fun trace =>
      trace.goOn ends (trace.last.status = 0) (Trace.ofCommand run text unguarded)
  | .onFailure first text, unguarded, s =>
    (first.eval ends run false s).bind fun trace =>
      trace.goOn ends (trace.last.status ≠ 0) (Trace.ofCommand run text unguarded)

/-- Evaluates one list after the other. -/
def Line.Sequence.eval (ends : Step α → Bool) (run : List Char → Execution α Output) :
    Sequence → Session α → Option (Trace α)
  | .final list, s => list.eval ends run true s
  | .followed list rest, s =>
    (list.eval ends run true s).bind fun trace => trace.goOn ends true (rest.eval ends run)

/-! ## Steps that end a line -/

variable {run : List Char → Execution α Output} {s : Session α} {trace last : Trace α}

namespace Trace

/-- Goes on with the segments after a trace, one by one. -/
def loop (run : List Char → Execution α Output) : List Segment → Trace α → Option (Trace α)
  | [], trace => some trace
  | segment :: rest, trace =>
    if trace.last.stops then some trace
    else if !segment.connective.admits trace.last.status then loop run rest trace
    else (Step.run run segment.command (!guards rest) trace.after).bind fun step =>
      loop run rest { earlier := trace.steps, last := step }

theorem loop_of_stops {rest : List Segment} (h : trace.last.stops = true) : trace.loop run rest = some trace := by
  cases rest with
  | nil => rfl
  | cons segment rest => rw [loop, if_pos h]

theorem loop_of_refused {segment : Segment} {rest : List Segment}
    (h : segment.connective.admits trace.last.status = false) :
    trace.loop run (segment :: rest) = trace.loop run rest := by
  cases hStops : trace.last.stops with
  | true => rw [loop_of_stops hStops, loop_of_stops hStops]
  | false =>
    rw [loop, hStops, h]
    rfl

theorem loop_of_admitted {segment : Segment} {rest : List Segment} (hStops : trace.last.stops = false)
    (h : segment.connective.admits trace.last.status = true) :
    trace.loop run (segment :: rest) = (Step.run run segment.command (!guards rest) trace.after).bind fun step =>
      loop run rest { earlier := trace.steps, last := step } := by
  rw [loop, hStops, h]
  rfl

theorem loop_prepend (front : List (Step α)) (rest : List Segment) (trace : Trace α) :
    (trace.prepend front).loop run rest = (trace.loop run rest).map (prepend front) := by
  induction rest generalizing trace with
  | nil => rfl
  | cons segment rest ih =>
    cases hStops : trace.last.stops with
    | true =>
      have hFront : (trace.prepend front).last.stops = true := hStops
      rw [loop_of_stops hStops, loop_of_stops hFront]
      rfl
    | false =>
      have hFront : (trace.prepend front).last.stops = false := hStops
      cases hAdmits : segment.connective.admits trace.last.status with
      | false =>
        have hRefused : segment.connective.admits (trace.prepend front).last.status = false := hAdmits
        rw [loop_of_refused hAdmits, loop_of_refused hRefused, ih]
      | true =>
        have hAdmitted : segment.connective.admits (trace.prepend front).last.status = true := hAdmits
        rw [loop_of_admitted hStops hAdmits, loop_of_admitted hFront hAdmitted, Option.map_bind]
        congr 1
        funext step
        refine Eq.trans ?_ (ih { earlier := trace.steps, last := step })
        rw [prepend, prepend, steps, steps, List.append_assoc]

/-- The loop can be entered before or after a trace is put in front. -/
theorem goOn_loop (next : Session α → Option (Trace α)) (rest : List Segment) (trace : Trace α) :
    trace.goOn Step.stops true (fun s => (next s).bind (loop run rest)) =
      (trace.goOn Step.stops true next).bind (loop run rest) := by
  cases hStops : trace.last.stops with
  | true =>
    rw [goOn, goOn, hStops]
    exact (loop_of_stops hStops).symm
  | false =>
    rw [goOn, goOn, hStops]
    change ((next trace.after).bind _).map _ = ((next trace.after).map _).bind _
    rw [Option.map_bind, Option.bind_map]
    congr 1
    funext more
    exact (loop_prepend trace.steps rest more).symm

/-- A command after a trace is one round of the loop. -/
theorem goOn_bind_loop (wanted : Bool) (segment : Segment) (rest : List Segment) (trace : Trace α)
    (hWanted : segment.connective.admits trace.last.status = wanted) :
    (trace.goOn Step.stops wanted (ofCommand run segment.command (!guards rest))).bind (loop run rest) =
      trace.loop run (segment :: rest) := by
  cases hStops : trace.last.stops with
  | true =>
    rw [loop_of_stops hStops, goOn, hStops]
    exact loop_of_stops hStops
  | false =>
    subst hWanted
    cases hAdmits : segment.connective.admits trace.last.status with
    | false =>
      rw [loop_of_refused hAdmits, goOn, hStops]
      rfl
    | true =>
      rw [loop_of_admitted hStops hAdmits, goOn, hStops, ofCommand]
      change (((Step.run run _ _ _).map _).map _).bind _ = _
      rw [Option.map_map, Option.bind_map]
      congr 1
      funext step
      rw [Function.comp_apply, Function.comp_apply, prepend, List.append_nil]

end Trace

/-- Evaluating the tree of a list and the segments after it is evaluating the list and looping over the segments. -/
theorem Line.AndOrList.eval_continued (list : AndOrList) (rest : List Segment) (s : Session α) :
    (list.continued rest).eval Step.stops run s =
      (list.eval Step.stops run (!guards rest) s).bind (Trace.loop run rest) := by
  induction rest generalizing list s with
  | nil => exact (Option.bind_fun_some _).symm
  | cons segment rest ih =>
    obtain ⟨connective, text⟩ := segment
    cases connective with
    | always =>
      rw [continued, Sequence.eval, funext (ih (.command text))]
      change _ = (list.eval Step.stops run true s).bind _
      congr 1
      funext trace
      rw [Trace.goOn_loop]
      exact Trace.goOn_bind_loop true ⟨.always, text⟩ rest trace rfl
    | onSuccess =>
      rw [continued, ih, eval, Option.bind_assoc]
      congr 1
      funext trace
      exact Trace.goOn_bind_loop _ ⟨.onSuccess, text⟩ rest trace rfl
    | onFailure =>
      rw [continued, ih, eval, Option.bind_assoc]
      congr 1
      funext trace
      exact Trace.goOn_bind_loop _ ⟨.onFailure, text⟩ rest trace rfl

namespace Interpreter

/-- Going on after a trace is looping over the segments. -/
theorem run_runSegments_after (trace : Trace α) (rest : List Segment) :
    (trace.loop run rest).map (fun last => (.ok last.texts, last.after)) =
      if trace.last.stops then some (.ok trace.texts, trace.after)
      else ((runSegments run rest).run trace.after).map fun ran => (ran.1.map (trace.texts ++ ·), ran.2) := by
  induction rest generalizing trace with
  | nil =>
    change some (Except.ok trace.texts, trace.after) =
      ite _ _ (some (Except.ok (trace.texts ++ []), trace.after))
    rw [List.append_nil, ite_self]
  | cons segment rest ih =>
    cases hStops : trace.last.stops with
    | true =>
      rw [Trace.loop_of_stops hStops]
      rfl
    | false =>
      cases hAdmits : segment.connective.admits trace.last.status with
      | false =>
        have hRefused : segment.connective.admits trace.after.lastStatus = false := hAdmits
        rw [Trace.loop_of_refused hAdmits, ih trace, hStops, run_runSegments_of_refused rest hRefused]
      | true =>
        rw [Trace.loop_of_admitted hStops hAdmits, run_runSegments_cons rest hAdmits, Option.map_bind]
        change _ = Option.map _ _
        rw [Option.map_bind]
        congr 1
        funext step
        rw [Function.comp_apply, Function.comp_apply, ih, Trace.texts_concat]
        dsimp only
        cases step.stops with
        | true => rfl
        | false =>
          change ((runSegments run rest).run step.after).map _ = (((runSegments run rest).run step.after).map _).map _
          rw [Option.map_map]
          congr 1
          funext ran
          obtain ⟨_ | texts, last⟩ := ran
          · rfl
          · change (Except.ok (_ ++ _ ++ _), _) = (Except.ok (_ ++ (_ ++ _)), _)
            rw [List.append_assoc]

/-- Several commands are evaluated as a sequence. -/
theorem run_runSegments {first : Segment} (rest : List Segment) (hFirst : first.connective = .always) (s : Session α) :
    (runSegments run (first :: rest)).run s = ((Line.sequence first rest).eval Step.stops run s).map fun trace =>
      (.ok trace.texts, trace.after) := by
  rw [Line.sequence, AndOrList.eval_continued, run_runSegments_cons rest (by rw [hFirst]; rfl), Option.map_bind]
  change _ = ((Step.run run first.command (!guards rest) s).map _).bind _
  rw [Option.bind_map]
  congr 1
  funext step
  rw [Function.comp_apply, Function.comp_apply, run_runSegments_after, Trace.texts_single]
  rfl

end Interpreter

end OptionShell
