import OptionShell.Proofs.Interpreter.Effects
import OptionShell.Proofs.Interpreter.LineCalls
import OptionShell.Proofs.Interpreter.QuotedLine
import OptionShell.Proofs.Interpreter.Scopes

/-!
# Guarded calls

A command that opens a scope has further calls in it. A connective guards a call against its own failure, but not
against that of a call in its scope: the line of the scope does not know of the connective outside.
-/
namespace OptionShell

open Execution Interpreter Line

variable {α : Type}

/-! ## Calls in scopes -/

namespace Interpreter

/-- The line that words run in a scope, and the session in which it starts. -/
def scopeLine? (s : Session α) : List String → Option (String × Session α)
  | [] => none
  | name :: args =>
    if name = "scope" && !args.isEmpty && !s.options.enabled "noexec" then
      let work := traced (name :: args) s
      some (" ".intercalate args, { s with toWorkspace := { work with scopes := none :: work.scopes } })
    else none

/-- The calls in the scope that a command opens, each with those in its own scope after it. -/
def scopeCalls (interp : Interpreter α) : Nat → List Char → Session α → List (Call α)
  | 0, _, _ => []
  | depth + 1, command, s =>
    ((expandWords s command).toOption.bind (scopeLine? s)).elim [] fun (line, opened) =>
      (segments (Text.trim line.toList)).toOption.elim [] fun segs =>
        (interp.lineCalls depth segs opened).flatMap fun call =>
          call :: scopeCalls interp depth call.command call.start

end Interpreter

def Call.nested (interp : Interpreter α) (call : Call α) : List (Call α) :=
  interp.scopeCalls call.depth call.command call.start

namespace Interpreter

def ofBuiltins (catalog : Catalog α) : Interpreter α :=
  { commands := CommandTable.addAll (Builtin.all catalog) .empty, catalog }

variable {interp : Interpreter α} {catalog : Catalog α} {depth : Nat} {s after : Session α}
  {runLine : String → Execution α Output} {name : String} {args : List String} {result : Except ShellError Output}

theorem mem_builtins_of_find? {loaded : List String} {command : Command α}
    (hCommands : ∀ loaded, catalog.commands loaded = [])
    (hFound : (ofBuiltins catalog).findCommand? loaded name = some command) :
    command ∈ Builtin.all catalog ∧ command.name = name := by
  obtain hOwn | ⟨-, hLoaded⟩ := Option.or_eq_some_iff.mp hFound
  · obtain hBuiltin | hEmpty := CommandTable.mem_of_find?_addAll hOwn
    · exact hBuiltin
    · cases hEmpty
  · rw [ofBuiltins, Catalog.findCommand?, hCommands] at hLoaded
    cases hLoaded

/-- Only `exit` and scopes ask the shell to stop. -/
theorem exit?_of_dispatched (hCommands : ∀ loaded, catalog.commands loaded = [])
    (hExit : name = "exit" → s.options.enabled "noexec" = true)
    (hScope : name = "scope" → args = [] ∨ s.options.enabled "noexec" = true)
    (hRun : (ofBuiltins catalog).dispatched runLine name args s = some (result, after)) : after.exit? = s.exit? := by
  rw [dispatched] at hRun
  split at hRun
  · cases hRun
    rfl
  · rename_i hRuns
    split at hRun
    · cases hRun
      rfl
    · split at hRun
      · rename_i hName
        obtain rfl | hExec := hScope hName
        · cases hRun
          rfl
        · exact absurd (by rw [hExec, hName]; rfl) hRuns
      · split at hRun
        · rename_i command hFound
          obtain ⟨ran, hCommand, hSame⟩ := Option.map_eq_some_iff.mp hRun
          cases hSame
          obtain ⟨hMem, hName⟩ := mem_builtins_of_find? hCommands hFound
          obtain rfl | hEffects := Builtin.eq_exit_or_leads hMem
          · exact absurd (by rw [hExit hName.symm, ← hName]; rfl) hRuns
          · exact sameExit_of_effects (hEffects args s.toWorkspace ran.1 ran.2 hCommand)
        · cases hRun
          rfl

theorem scopeCalls_of_none {command : List Char} (h : (expandWords s command).toOption.bind (scopeLine? s) = none) :
    interp.scopeCalls depth command s = [] := by
  cases depth with
  | zero => rfl
  | succ depth =>
    rw [scopeCalls, h]
    rfl

theorem exists_of_scopeLine {words : List String} {line : String} {opened : Session α}
    (h : scopeLine? s words = some (line, opened)) :
    ∃ args, words = "scope" :: args ∧ args ≠ [] ∧ s.options.enabled "noexec" = false ∧
      line = " ".intercalate args ∧ opened =
        { s with toWorkspace := { traced words s with scopes := none :: (traced words s).scopes } } := by
  cases words with
  | nil => cases h
  | cons name args =>
    rw [scopeLine?] at h
    split at h
    · rename_i hScope
      simp only [Bool.and_eq_true, Bool.not_eq_true', decide_eq_true_eq] at hScope
      obtain ⟨⟨rfl, hArgs⟩, hExec⟩ := hScope
      cases h
      refine ⟨args, rfl, ?_, hExec, rfl, rfl⟩
      rintro rfl
      cases hArgs
    · cases h

theorem dispatched_of_scopeLine {line : String} {opened : Session α}
    (h : scopeLine? s (name :: args) = some (line, opened)) :
    interp.dispatched runLine name args { s with toWorkspace := traced (name :: args) s } =
      ((runLine line).run opened).bind fun ran =>
        (closeScope.run ran.2).map fun closed => (closed.1.bind fun _ => ran.1, closed.2) := by
  obtain ⟨_, hWords, hArgs, hExec, rfl, rfl⟩ := exists_of_scopeLine h
  obtain ⟨rfl, rfl⟩ := List.cons.inj hWords
  have hTraced : (traced ("scope" :: args) s).options.enabled "noexec" = false := by
    obtain ⟨diagnostics, hTraced⟩ := exists_traced ("scope" :: args) s
    rwa [hTraced]
  rw [dispatched, hTraced]
  exact run_runScope runLine hArgs _

theorem exit?_traced (words : List String) (s : Session α) : (traced words s).exit? = s.exit? := by
  obtain ⟨diagnostics, hTraced⟩ := exists_traced words s
  rw [hTraced]

/-- A command without words opens no scope and changes nothing, and any other is dispatched by its first word. -/
theorem eq_or_dispatched {command : List Char}
    (hRun : (interp.runSegment runLine command).run s = some (result, after)) :
    (expandWords s command).toOption.bind (scopeLine? s) = none ∧ after = s ∨
      ∃ name args, expandWords s command = .ok (name :: args) ∧
        interp.dispatched runLine name args { s with toWorkspace := traced (name :: args) s } =
          some (result, after) := by
  rw [run_runSegment] at hRun
  cases hWords : expandWords s command with
  | error error =>
    rw [hWords] at hRun
    cases hRun
    exact .inl ⟨rfl, rfl⟩
  | ok words =>
    rw [hWords] at hRun
    cases words with
    | nil =>
      cases hRun
      exact .inl ⟨rfl, rfl⟩
    | cons name args =>
      dsimp only at hRun
      rw [run_runWords_cons] at hRun
      exact .inr ⟨name, args, rfl, hRun⟩

theorem exit?_of_unscoped (hCommands : ∀ loaded, catalog.commands loaded = []) {call : Call α}
    (hScope : (expandWords call.start call.command).toOption.bind (scopeLine? call.start) = none)
    (hOwn : call.runs "exit" = false)
    (hRun : ((ofBuiltins catalog).runSegment runLine call.command).run call.start = some (result, after)) :
    after.exit? = call.start.exit? := by
  obtain ⟨-, rfl⟩ | ⟨name, args, hWords, hDispatched⟩ := eq_or_dispatched hRun
  · rfl
  · rw [Call.runs, hWords] at hOwn
    rw [hWords] at hScope
    obtain ⟨diagnostics, hTraced⟩ := exists_traced (name :: args) call.start
    have hSame := exit?_of_dispatched hCommands ?_ ?_ hDispatched
    · exact hSame.trans (exit?_traced _ _)
    · rintro rfl
      rw [hTraced]
      simpa [Except.toOption] using hOwn
    · rintro rfl
      rw [hTraced]
      simpa [Except.toOption, scopeLine?, or_iff_not_imp_left] using hScope

theorem exists_run_of_scopeLine {call : Call α} {line : String} {opened : Session α}
    (hScope : (expandWords call.start call.command).toOption.bind (scopeLine? call.start) = some (line, opened))
    (hRun : (interp.runSegment runLine call.command).run call.start = some (result, after)) :
    opened.exit? = call.start.exit? ∧
      ∃ inner mid, (runLine line).run opened = some (inner, mid) ∧ after.exit? = mid.exit? := by
  obtain ⟨hNone, -⟩ | ⟨name, args, hWords, hDispatched⟩ := eq_or_dispatched hRun
  · cases hNone.symm.trans hScope
  · rw [hWords] at hScope
    change scopeLine? call.start (name :: args) = some (line, opened) at hScope
    rw [dispatched_of_scopeLine hScope] at hDispatched
    obtain ⟨⟨inner, mid⟩, hInner, hRest⟩ := Option.bind_eq_some_iff.mp hDispatched
    obtain ⟨⟨_, closed⟩, hClose, hSame⟩ := Option.map_eq_some_iff.mp hRest
    cases hSame
    refine ⟨?_, inner, mid, hInner, exit?_of_closeScope hClose⟩
    obtain ⟨-, -, -, -, -, rfl⟩ := exists_of_scopeLine hScope
    exact exit?_traced _ _

/-! ## Guards -/

/-- If `exit` does not run, a call asks the shell to stop exactly if a call in its scopes is fatal. -/
theorem isSome_exit?_of_step? (hCommands : ∀ loaded, catalog.commands loaded = []) {call : Call α} {step : Step α}
    (hStart : call.start.exit? = none) (hStep : call.step? (ofBuiltins catalog) = some step)
    (hOwn : call.runs "exit" = false)
    (hNested : ∀ inner ∈ call.nested (ofBuiltins catalog), inner.runs "exit" = false) :
    step.ended.exit?.isSome = (call.nested (ofBuiltins catalog)).any (Call.isFatal (ofBuiltins catalog)) := by
  -- The calls in a scope have one depth less, whatever follows them in their line.
  induction hDepth : call.depth using Nat.strongRecOn generalizing call step with
  | ind depth ih =>
    subst hDepth
    obtain ⟨⟨result, ended⟩, hRun, rfl⟩ := Option.map_eq_some_iff.mp hStep
    dsimp only at hRun ⊢
    rw [Call.nested] at hNested ⊢
    cases hScope : (expandWords call.start call.command).toOption.bind (scopeLine? call.start) with
    | none =>
      rw [exit?_of_unscoped hCommands hScope hOwn hRun, hStart, scopeCalls_of_none hScope]
      rfl
    | some scope =>
      obtain ⟨line, opened⟩ := scope
      obtain ⟨hOpened, inner, mid, hInner, hEnded⟩ := exists_run_of_scopeLine hScope hRun
      cases hDepth : call.depth with
      | zero =>
        rw [hDepth] at hInner
        cases hInner
      | succ depth =>
        rw [hDepth] at hInner hNested
        rw [scopeCalls, hScope, Option.elim_some] at hNested ⊢
        dsimp only at hNested ⊢
        rw [hEnded]
        cases hSegments : segments (Text.trim line.toList) with
        | error error =>
          rw [eq_of_execute_of_error hSegments hInner, hOpened, hStart]
          rfl
        | ok segs =>
          rw [hSegments] at hNested
          obtain ⟨texts, hTexts⟩ := exists_run_of_execute hSegments hInner
          rw [isSome_exit?_of_runSegments (hOpened.trans hStart) hTexts]
          have hCall : ∀ other ∈ (ofBuiltins catalog).lineCalls depth segs opened,
              other.stops (ofBuiltins catalog) =
                (other :: other.nested (ofBuiltins catalog)).any (Call.isFatal (ofBuiltins catalog)) := by
            intro other hOther
            have hComes := comesTo_of_mem hOther
            have hOtherNested := List.forall_mem_cons.mp (List.forall_mem_flatMap.mp hNested other hOther)
            obtain ⟨step, hOtherStep⟩ := hComes.exists_step hTexts
            have hEnds := ih other.depth (by rw [hComes.depth_eq, hDepth]; omega)
              (hComes.exit?_eq (hOpened.trans hStart)) hOtherStep hOtherNested.1
              (by rw [Call.nested, hComes.depth_eq]; exact hOtherNested.2) rfl
            rw [List.any_cons, ← hEnds, Call.stops, Call.isFatal, hOtherStep]
            rfl
          change _ = (List.flatMap _ ((ofBuiltins catalog).lineCalls depth segs opened)).any _
          rw [List.any_flatMap, Bool.eq_iff_iff, List.any_eq_true, List.any_eq_true]
          refine exists_congr fun other => and_congr_right fun hOther => ?_
          rw [hCall other hOther, Call.nested, (comesTo_of_mem hOther).depth_eq]

/-- Where a call of a line is guarded and `exit` does not run, its own failure does not stop the shell, but that of an
unguarded call in its scopes does. If there is none, the line goes on with the segments after the call; otherwise it
ends. -/
theorem guarded_call_goes_on_iff (catalog : Catalog α) (depth : Nat) (line : String) (segs : List Segment)
    (s : Session α) (call : Call α) (step : Step α) (hCommands : ∀ loaded, catalog.commands loaded = [])
    (hSegments : segments (Text.trim line.toList) = .ok segs) (hExit : s.exit? = none)
    (hCall : call ∈ (ofBuiltins catalog).lineCalls depth segs s) (hGuarded : guards call.rest = true)
    (hStep : call.step? (ofBuiltins catalog) = some step) (hOwn : call.runs "exit" = false)
    (hNested : ∀ inner ∈ call.nested (ofBuiltins catalog), inner.runs "exit" = false) :
    (step.after.exit? = none ↔ ∀ inner ∈ call.nested (ofBuiltins catalog), inner.isFatal (ofBuiltins catalog) = false) ∧
      ∃ texts, ((ofBuiltins catalog).execute (depth + 1) line).run s =
        (if step.after.exit? = none then
          ((runSegments ((ofBuiltins catalog).runSegment ((ofBuiltins catalog).execute depth)) call.rest).run
            step.after).map fun ran => (ran.1.map (texts ++ ·), ran.2)
        else some (.ok texts, step.after)).map fun ran =>
          (ran.1.map fun shown => .ofStatus (Text.joinLines shown) ran.2.lastStatus, ran.2) := by
  have hComes := comesTo_of_mem hCall
  have hUnguarded : step.unguarded = false := by
    obtain ⟨ran, -, rfl⟩ := Option.map_eq_some_iff.mp hStep
    rw [hGuarded]
    rfl
  have hStops : step.stops = step.ended.exit?.isSome := by
    rw [Step.stops, Step.isFatal, hUnguarded]
    rfl
  have hNone : step.after.exit? = none ↔ step.stops = false := by
    rw [← Option.not_isSome_iff_eq_none, step.isSome_exit?_after, Bool.not_eq_true]
  constructor
  · rw [hNone, hStops, isSome_exit?_of_step? hCommands (hComes.exit?_eq hExit) hStep hOwn hNested]
    simp
  · obtain ⟨texts, hTexts⟩ := hComes.run_runSegments hStep
    refine ⟨texts, ?_⟩
    -- A guarded call has a segment after it, so that the line has more than one.
    obtain ⟨first, second, others, rfl⟩ : ∃ first second others, segs = first :: second :: others := by
      obtain ⟨front, segment, rfl⟩ := hComes.exists_front
      cases hRest : call.rest with
      | nil =>
        rw [hRest] at hGuarded
        cases hGuarded
      | cons next rest =>
        cases front with
        | nil => exact ⟨segment, next, rest, rfl⟩
        | cons first front =>
          cases front with
          | nil => exact ⟨first, segment, next :: rest, rfl⟩
          | cons second front => exact ⟨first, second, front ++ segment :: next :: rest, rfl⟩
    rw [execute, run_runChain_of_several hSegments, hTexts]
    cases hEnds : step.stops with
    | true => rw [if_pos rfl, if_neg (by rw [hNone, hEnds]; decide)]
    | false => rw [if_neg (by decide), if_pos (hNone.mpr hEnds)]

/-- The line of the scope fails by a command that is guarded there, and the line outside goes on. -/
theorem guarded_call_goes_on_of_failing_scope :
    let interp : Interpreter Unit := ofBuiltins .empty
    let errexit : Definition (Host Unit) := StandardOptions.flagOption 0 "errexit" 'e' ""
    let s : Session Unit := { options := (Options.add errexit { storage := .ofList [1], host := { user := () } }).2 }
    let rest : List Segment := [⟨.onFailure, "echo ok".toList⟩]
    let call : Call Unit := { depth := 1, command := "scope 'false && true'".toList, rest, start := s }
    segments (Text.trim "scope 'false && true' || echo ok".toList) = .ok (⟨.always, call.command⟩ :: rest) ∧
      s.options.enabled "errexit" = true ∧ call ∈ interp.lineCalls 1 (⟨.always, call.command⟩ :: rest) s ∧
      ∃ step, call.step? interp = some step ∧ step.status = 1 ∧ step.after.exit? = none := by
  intro interp errexit s rest call
  have hSegments : segments (Text.trim "scope 'false && true' || echo ok".toList) =
      .ok (⟨.always, call.command⟩ :: rest) := by decide +kernel
  have hCall : call ∈ interp.lineCalls 1 (⟨.always, call.command⟩ :: rest) s := first_mem_lineCalls rfl
  have hRun : (call.step? interp).any (fun step => step.status = 1) = true := by decide +kernel
  have hNested : (call.nested interp).all (fun inner => !inner.runs "exit" && !inner.isFatal interp) = true := by
    decide +kernel
  obtain ⟨step, hStep, hStatus⟩ := (Option.any_eq_true _ _).mp hRun
  simp only [List.all_eq_true, Bool.and_eq_true, Bool.not_eq_true'] at hNested
  have hGoesOn := guarded_call_goes_on_iff .empty 1 "scope 'false && true' || echo ok" _ s call step
    (fun loaded => by induction loaded <;> simp_all [Catalog.commands]) hSegments rfl hCall rfl hStep
    (by decide +kernel) fun inner hInner => (hNested inner hInner).1
  exact ⟨hSegments, by decide +kernel, hCall, step, hStep, of_decide_eq_true hStatus,
    hGoesOn.1.mpr fun inner hInner => (hNested inner hInner).2⟩

/-- The command of the scope fails unguarded in its own line, and the line outside ends with it. -/
theorem guard_lost_in_scope :
    let interp : Interpreter Unit := ofBuiltins .empty
    let errexit : Definition (Host Unit) := StandardOptions.flagOption 0 "errexit" 'e' ""
    let s : Session Unit := { options := (Options.add errexit { storage := .ofList [1], host := { user := () } }).2 }
    let rest : List Segment := [⟨.onFailure, "echo ok".toList⟩]
    let call : Call Unit := { depth := 1, command := "scope false".toList, rest, start := s }
    segments (Text.trim "scope false || echo ok".toList) = .ok (⟨.always, call.command⟩ :: rest) ∧
      s.options.enabled "errexit" = true ∧ s.exit? = none ∧
      call ∈ interp.lineCalls 1 (⟨.always, call.command⟩ :: rest) s ∧ guards call.rest = true ∧
      (call :: call.nested interp).all (fun inner => !inner.runs "exit") = true ∧
      (call.step? interp).any (fun step => step.after.exit? = some 1) = true ∧
      ((interp.execute 2 "scope false || echo ok").run s).any (fun ran =>
        ran.1.toOption = some (.status "" 1) && ran.2.exit? = some 1) = true := by
  intro interp errexit s rest call
  have hCall : call ∈ interp.lineCalls 1 (⟨.always, call.command⟩ :: rest) s := first_mem_lineCalls rfl
  exact ⟨by decide +kernel, by decide +kernel, rfl, hCall, rfl, by decide +kernel, by decide +kernel, by decide +kernel⟩

end Interpreter

end OptionShell
