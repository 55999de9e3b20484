import OptionShell.Interpreter.Execution
import OptionShell.Proofs.Interpreter.Loading

/-!
# Scopes

A scope is a line between the opening and the closing of a frame. The flags that the frame saved are put back when it
is gone.
-/
namespace OptionShell

open Execution

namespace Interpreter

variable {α β : Type} {s : Session α}

theorem run_act_update (change : Update (Host α) β) (s : Session α) :
    (act (Action.update change)).run s =
      (change s.options).map fun result => (.ok result.1, { s with options := result.2 }) := by
  change ((Action.update change).run s.toWorkspace).bind _ = _
  rw [Action.run_update]
  cases change s.options <;> rfl

theorem run_closeScope_of_none {outer : List (Option SavedFlags)} (h : s.scopes = none :: outer) :
    (closeScope : Execution α Unit).run s = some (.ok (), { s with scopes := outer }) := by
  obtain ⟨⟨options, loaded, scopes, diagnostics, exit?, stateLetters⟩, lastStatus⟩ := s
  cases h
  rfl

/-- The frame is gone before its flags are put back. -/
theorem run_closeScope_of_some {saved : SavedFlags} {outer : List (Option SavedFlags)}
    (h : s.scopes = some saved :: outer) :
    (closeScope : Execution α Unit).run s = (Update.reinstateFlags saved s.options).map fun ended =>
      (.ok (), { s with scopes := outer, options := ended.2 }) := by
  obtain ⟨⟨options, loaded, scopes, diagnostics, exit?, stateLetters⟩, lastStatus⟩ := s
  cases h
  change ((act (Action.update (Update.reinstateFlags saved))).run _).bind _ = _
  rw [run_act_update, Option.bind_map]
  dsimp only
  cases Update.reinstateFlags saved options <;> rfl

/-- A scope is its line between the opening and the closing of a frame. -/
theorem run_runScope (runLine : String → Execution α Output) {args : List String} (hArgs : args ≠ [])
    (s : Session α) : (runScope runLine args).run s =
      ((runLine (" ".intercalate args)).run { s with scopes := none :: s.scopes }).bind fun ran =>
        (closeScope.run ran.2).map fun closed => (closed.1.bind fun _ => ran.1, closed.2) := by
  obtain ⟨arg, rest, rfl⟩ := List.exists_cons_of_ne_nil hArgs
  change (((runLine _).run _).bind _).bind _ = _
  cases (runLine (" ".intercalate (arg :: rest))).run { s with scopes := none :: s.scopes } with
  | none => rfl
  | some ran =>
    obtain ⟨output, mid⟩ := ran
    change ((closeScope : Execution α Unit).run mid).bind _ = ((closeScope : Execution α Unit).run mid).map _
    cases (closeScope : Execution α Unit).run mid with
    | none => rfl
    | some closed =>
      obtain ⟨_ | _, after⟩ := closed
      · rfl
      · cases output <;> rfl

theorem exit?_of_closeScope {result : Except ShellError Unit} {after : Session α}
    (h : (closeScope : Execution α Unit).run s = some (result, after)) : after.exit? = s.exit? := by
  match hScopes : s.scopes with
  | [] =>
    obtain ⟨⟨options, loaded, scopes, diagnostics, exit?, stateLetters⟩, lastStatus⟩ := s
    cases hScopes
    cases h
    rfl
  | none :: outer =>
    rw [run_closeScope_of_none hScopes] at h
    cases h
    rfl
  | some saved :: outer =>
    rw [run_closeScope_of_some hScopes] at h
    obtain ⟨ended, -, hSame⟩ := Option.map_eq_some_iff.mp h
    cases hSame
    rfl

end Interpreter

end OptionShell
