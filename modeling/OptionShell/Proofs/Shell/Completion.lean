import OptionShell.Proofs.Interpreter.InsertedDollars
import OptionShell.Proofs.Shell.Finishing
import OptionShell.Proofs.Shell.Reachable

/-!
# Which lines complete

Nothing bounds how deep the scopes of a line nest, and the words of a scope come from expansion. So a variable whose
value opens a scope with a reference to the variable itself keeps a line from completing. This is the only way: a line
of a reachable shell that does not complete comes again and again to calls that refer to a variable with a dollar sign
in its value.
-/
namespace OptionShell

namespace Shell

open Execution Interpreter Line Relation

variable {w after : Workspace Unit} {s opened : Session Unit} {call : Call Unit} {segs : List Segment} {depth : Nat}
  {line inner : String} {shell : Shell}

/-! ## Sessions without dollar signs in their flags -/

/-- Sound options, and a dollar sign is no state letter. -/
structure Undollared (w : Workspace Unit) : Prop where
  sound : Sound w.options
  letters : '$' ∉ w.stateLetters.toList

theorem Undollared.flagString (h : Undollared w) : '$' ∉ (w.options.flagString w.stateLetters).toList := by
  have hFamily : ∀ d ∈ family, d.letter? ≠ some '$' := by decide
  rw [Options.flagString, String.toList_append, String.toList_ofList, List.mem_append, not_or]
  refine ⟨fun hMem => ?_, h.letters⟩
  obtain ⟨d, hFound, -⟩ := (Option.any_eq_true _ _).mp (List.mem_filter.mp hMem).2
  obtain ⟨hLive, hLetter⟩ := (h.sound.consistent.lettered '$' d).mp hFound
  exact hFamily d (h.sound.within.live d hLive) hLetter

theorem Move.stateLetters_eq (h : Move w after) : after.stateLetters = w.stateLetters := by
  cases h with
  | load name result after hRun => rw [(loads_load name w result after hRun).2]
  | unload name result after hRun => rw [(loads_unload name w result after hRun).2]
  | _ => rfl

theorem undollared_of_moves (h : Moves w after) (hw : Undollared w) : Undollared after := by
  refine ⟨sound_of_moves h hw.sound, ?_⟩
  induction h with
  | refl => exact hw.letters
  | tail _ hMove ih => rwa [hMove.stateLetters_eq]

theorem Reachable.undollared (h : Reachable shell) : Undollared shell.session.toWorkspace := by
  refine ⟨h.intact.sound, ?_⟩
  induction h with
  | start config arguments environ shell hStart =>
    obtain ⟨options, work, -, -, hSession⟩ := exists_run_start hStart
    rw [hSession]
    dsimp only
    split <;> decide
  | submit shell last line result h hSubmit ih =>
    have hFresh : Undollared (shell.freshLine line).toWorkspace := ⟨h.intact.sound, ih⟩
    exact (undollared_of_moves (moves_submit hSubmit) hFresh).letters
  | close shell last h hClose ih => exact (undollared_of_moves (moves_close hClose) ⟨h.intact.sound, ih⟩).letters

/-! ## Moves along a chain of calls -/

theorem moves_comesTo (h : ComesTo interpreter depth call segs s) :
    Moves s.toWorkspace call.start.toWorkspace := by
  induction h with
  | here hAdmits hCall => rw [hCall]
  | refused hAdmits h ih => exact ih
  | later step hAdmits hStep hStops h ih =>
    obtain ⟨⟨result, ended⟩, hRun, rfl⟩ := Option.map_eq_some_iff.mp hStep
    have hEnded := (lineRules_moves.leads_runSegment (leads_execute _) _ _ result ended hRun).moves
    exact (hEnded.tail (.aside ended.diagnostics _)).trans ih

theorem moves_scope (h : call.scope? = some (inner, opened)) :
    Moves call.start.toWorkspace opened.toWorkspace := by
  obtain ⟨words, -, hLine⟩ := call.exists_of_scope h
  obtain ⟨-, -, -, -, -, rfl⟩ := exists_of_scopeLine hLine
  obtain ⟨diagnostics, hTraced⟩ := exists_traced words call.start
  rw [hTraced]
  exact .tail (.single (.aside diagnostics call.start.exit?)) .openScope

theorem undollared_of_reaches (h : interpreter.Reaches line s call) (hs : Undollared s.toWorkspace) :
    Undollared call.start.toWorkspace := by
  obtain ⟨segs, -, hCall⟩ := h
  exact undollared_of_moves (moves_comesTo (comesTo_of_mem hCall)) hs

theorem undollared_of_endlessNesting {chain : Nat → Call Unit} (h : interpreter.EndlessNesting line s chain)
    (hs : Undollared s.toWorkspace) (n : Nat) : Undollared (chain n).start.toWorkspace := by
  induction n with
  | zero => exact undollared_of_reaches h.first hs
  | succ n ih =>
    obtain ⟨inner, opened, hScope, hReaches⟩ := h.next n
    exact undollared_of_reaches hReaches (undollared_of_moves (moves_scope hScope) ih)

/-! ## Lines that do not complete -/

/-- Where a line does not complete, the scope of one of its calls does not either. -/
theorem exists_scope_of_not_completes (hs : Sound s.options) (h : ¬interpreter.Completes line s) :
    ∃ call inner opened, interpreter.Reaches line s call ∧ call.scope? = some (inner, opened) ∧ Sound opened.options ∧
      ¬interpreter.Completes inner opened := by
  by_contra hNone
  refine h (completes_of_calls fun call hReaches => ?_)
  have hCall : Sound call.start.options := by
    obtain ⟨segs, -, hCall⟩ := hReaches
    exact sound_of_moves (moves_comesTo (comesTo_of_mem hCall)) hs
  cases hScope : call.scope? with
  | none => exact ⟨0, exists_run_of_scope hCall fun _ _ hSome => by rw [hScope] at hSome; cases hSome⟩
  | some scope =>
    obtain ⟨inner, opened⟩ := scope
    have hOpened := sound_of_moves (moves_scope hScope) hCall
    have hInner : interpreter.Completes inner opened := by
      by_contra hStuck
      exact hNone ⟨call, inner, opened, hReaches, hScope, hOpened, hStuck⟩
    obtain ⟨depth, ran, hRun⟩ := completes_iff.mp hInner
    refine ⟨depth, exists_run_of_scope hCall fun _ _ hSome => ⟨ran, ?_⟩⟩
    cases hScope.symm.trans hSome
    exact ⟨hRun, sound_of_moves (leads_execute depth inner opened ran.1 ran.2 hRun).moves hOpened⟩

/-! ## A variable that refers to itself -/

theorem expandWords_ownReference (hValue : s.vars.value? "X" = some "scope $X") :
    expandWords s "$X".toList = .ok ["scope", "$X"] := by
  have hResolve : resolve s (.variableNamed ['X']) = .ok "scope $X".toList := by
    rw [resolve, show String.ofList ['X'] = "X" from rfl, hValue]
  have hReference : reference? ['X'] = some (.variableNamed ['X'], []) := rfl
  have hRest : expandPieces (resolve s) (piecesOf none []) = .ok [] := by
    rw [piecesOf]
    rfl
  have hExpand : expand (resolve s) "$X".toList = .ok ("scope $X".toList ++ []) :=
    expandPieces_reference (by decide) hReference hResolve hRest
  change (expand (resolve s) "$X".toList).bind _ = _
  rw [hExpand]
  rfl

/-- No depth is enough to run a variable whose value runs the variable in a scope. -/
theorem run_ownReference_eq_none (hValue : s.vars.value? "X" = some "scope $X")
    (hExec : s.options.enabled "noexec" = false) (depth : Nat) :
    (interpreter.execute depth "$X").run s = none := by
  have hSegments : segments (Text.trim "$X".toList) = .ok [⟨.always, "$X".toList⟩] := rfl
  induction depth generalizing s with
  | zero => rfl
  | succ depth ih =>
    obtain ⟨diagnostics, hTraced⟩ := exists_traced ["scope", "$X"] s
    have hInner := ih (s := { s with toWorkspace := { s.toWorkspace with scopes := none :: s.scopes, diagnostics } })
      hValue hExec
    rw [run_execute_of_words interpreter depth hSegments (expandWords_ownReference hValue), run_runWords_of_scope,
      hExec, if_neg Bool.false_ne_true, run_runScope _ (List.cons_ne_nil _ _), hTraced]
    rw [String.intercalate_singleton, hInner]
    rfl

/-- The variable comes from the environment of a new shell. -/
theorem exists_ownReference : ∃ shell, Shell.start {} {} [("X", "scope $X")] = some (.ok shell) ∧
    ¬interpreter.Completes "$X" (shell.freshLine "$X") := by
  have hRuns : ((Shell.start {} {} [("X", "scope $X")]).bind Except.toOption).any (fun shell =>
      shell.vars.value? "X" = some "scope $X" && !shell.options.enabled "noexec") = true := by decide +kernel
  obtain ⟨shell, hStart, hBoth⟩ := exists_of_any_start hRuns
  obtain ⟨hValue, hExec⟩ := Bool.and_eq_true_iff.mp hBoth
  have hNone : ∀ depth, (interpreter.execute depth "$X").run (shell.freshLine "$X") = none :=
    run_ownReference_eq_none (of_decide_eq_true hValue) ((Bool.not_eq_true' _).mp hExec)
  refine ⟨shell, hStart, fun hCompletes => ?_⟩
  obtain ⟨depth, ran, hRun⟩ := completes_iff.mp hCompletes
  rw [hNone depth] at hRun
  cases hRun

/-! ## All lines -/

/-- A line of a reachable shell completes unless its scopes nest without end. Where they do, the calls refer again and
again to a variable with a dollar sign in its value. -/
theorem line_completes_iff (shell : Shell) (hReachable : Reachable shell) (line : String) :
    (interpreter.Completes line (shell.freshLine line) ↔
      ¬∃ chain, interpreter.EndlessNesting line (shell.freshLine line) chain) ∧
    ∀ chain, interpreter.EndlessNesting line (shell.freshLine line) chain →
      ∀ n, ∃ m, n ≤ m ∧ (chain m).insertsDollar := by
  have hStart : Undollared (shell.freshLine line).toWorkspace :=
    ⟨hReachable.undollared.sound, hReachable.undollared.letters⟩
  refine ⟨⟨?_, fun hEnds => ?_⟩, fun chain hChain => hChain.exists_insertsDollar fun n =>
    (undollared_of_endlessNesting hChain hStart n).flagString⟩
  · rintro hCompletes ⟨chain, hChain⟩
    obtain ⟨depth, ran, hRun⟩ := completes_iff.mp hCompletes
    rw [hChain.run_eq_none depth] at hRun
    cases hRun
  · by_contra hStuck
    exact hEnds (exists_endlessNesting (fun s => Sound s.options)
      (fun _ _ hs hLine => exists_scope_of_not_completes hs hLine) hStart.sound hStuck)

/-- The line that runs the variable nests without end. -/
theorem line_completes_iff_of_own_reference : ∃ shell chain, Reachable shell ∧
    interpreter.EndlessNesting "$X" (shell.freshLine "$X") chain ∧ ∀ n, ∃ m, n ≤ m ∧ (chain m).insertsDollar := by
  obtain ⟨shell, hStart, hStuck⟩ := exists_ownReference
  have hReachable : Reachable shell := .start _ _ _ shell hStart
  obtain ⟨hCompletes, hDollars⟩ := line_completes_iff shell hReachable "$X"
  obtain ⟨chain, hChain⟩ : ∃ chain, interpreter.EndlessNesting "$X" (shell.freshLine "$X") chain := by
    by_contra hEnds
    exact hStuck (hCompletes.mpr hEnds)
  exact ⟨shell, chain, hReachable, hChain, hDollars chain hChain⟩

/-- A reachable shell with a line that does not complete. -/
theorem own_reference_never_completes : ∃ shell, Shell.start {} {} [("X", "scope $X")] = some (.ok shell) ∧
    Reachable shell ∧ ∀ depth, (interpreter.execute depth "$X").run (shell.freshLine "$X") = none := by
  obtain ⟨shell, hStart, hStuck⟩ := exists_ownReference
  refine ⟨shell, hStart, .start _ _ _ shell hStart, fun depth => ?_⟩
  exact Option.eq_none_iff_forall_ne_some.mpr fun ran hRun => hStuck (completes_iff.mpr ⟨depth, ran, hRun⟩)

end Shell

end OptionShell
