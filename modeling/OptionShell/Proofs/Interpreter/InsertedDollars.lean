import Mathlib.Order.WellFounded
import OptionShell.Proofs.Interpreter.Nesting
import OptionShell.Proofs.Line.Weight
import OptionShell.Proofs.Text.Numeral

/-!
# Dollar signs that come from variables

A call is heavier than the calls in its scope, unless it refers to a variable with a dollar sign in its value. So no
line nests without end that does not come to such a reference again and again.
-/
namespace OptionShell

open Interpreter Line

variable {α : Type} {interp : Interpreter α} {line inner : String} {segs : List Segment} {s opened : Session α}
  {call : Call α} {depth : Nat}

/-- Whether the command refers to a variable with a dollar sign in its value. -/
def Call.insertsDollar (call : Call α) : Prop :=
  ∃ name value, .reference (.variableNamed name) ∈ pieces call.command ∧
    call.start.vars.value? (String.ofList name) = some value ∧ '$' ∈ value.toList

/-! ## One call -/

theorem dollar_notMem_toString (status : Int32) : '$' ∉ (toString status).toList :=
  Text.notMem_toString (by decide) (by decide) status.toInt

namespace Interpreter

theorem exists_of_expandWords {command : List Char} {words : List String} (h : expandWords s command = .ok words) :
    ∃ expanded ws, expand (resolve s) command = .ok expanded ∧ Line.words expanded = .ok ws ∧
      words = ws.map String.ofList := by
  change (expand (resolve s) command).bind (fun expanded => (Line.words expanded).bind _) = _ at h
  cases hExpanded : expand (resolve s) command with
  | error error =>
    rw [hExpanded] at h
    cases h
  | ok expanded =>
    rw [hExpanded] at h
    cases hWords : Line.words expanded with
    | error error =>
      rw [Except.bind, hWords] at h
      cases h
    | ok ws =>
      rw [Except.bind, hWords] at h
      cases h
      exact ⟨expanded, ws, rfl, hWords, rfl⟩

end Interpreter

theorem Call.exists_of_scope (h : call.scope? = some (inner, opened)) :
    ∃ words, expandWords call.start call.command = .ok words ∧ scopeLine? call.start words = some (inner, opened) := by
  rw [scope?] at h
  cases hWords : expandWords call.start call.command with
  | error error =>
    rw [hWords] at h
    cases h
  | ok words =>
    rw [hWords] at h
    exact ⟨words, rfl, h⟩

/-- A call is heavier than the line in its scope if its flags and variables have no dollar signs. -/
theorem Call.weight_scope_lt (hFlags : '$' ∉ (call.start.options.flagString call.start.stateLetters).toList)
    (hPlain : ¬call.insertsDollar) (hScope : call.scope? = some (inner, opened)) :
    weight inner.toList < weight call.command := by
  obtain ⟨words, hWords, hLine⟩ := call.exists_of_scope hScope
  obtain ⟨expanded, ws, hExpanded, hOwn, rfl⟩ := exists_of_expandWords hWords
  obtain ⟨args, hArgs, hNonempty, -, rfl, -⟩ := exists_of_scopeLine hLine
  have hValues : ∀ r value, .reference r ∈ pieces call.command → resolve call.start r = .ok value → '$' ∉ value := by
    intro r value hMem hValue
    cases r with
    | status =>
      cases hValue
      exact dollar_notMem_toString _
    | flags =>
      cases hValue
      exact hFlags
    | variableNamed name =>
      rw [resolve] at hValue
      split at hValue
      · rename_i text hText
        cases hValue
        exact fun hDollar => hPlain ⟨name, text, hMem, hText, hDollar⟩
      · split at hValue
        · cases hValue
        · cases hValue
          exact List.not_mem_nil
  obtain ⟨first, others, rfl, -, hOthers⟩ := List.map_eq_cons_iff.mp hArgs
  subst hOthers
  have hShorter := weight_intercalate_lt hOwn fun hNone => hNonempty (by rw [hNone]; rfl)
  exact hShorter.trans_le (weight_expand_le hValues hExpanded)

/-! ## Chains of calls -/

namespace Interpreter

theorem ComesTo.exists_segment (h : ComesTo interp depth call segs s) :
    ∃ segment ∈ segs, call.command = segment.command := by
  induction h with
  | here hAdmits hCall => exact ⟨_, List.mem_cons_self, by rw [hCall]⟩
  | refused hAdmits h ih =>
    obtain ⟨segment, hMem, hSame⟩ := ih
    exact ⟨segment, List.mem_cons_of_mem _ hMem, hSame⟩
  | later step hAdmits hStep hStops h ih =>
    obtain ⟨segment, hMem, hSame⟩ := ih
    exact ⟨segment, List.mem_cons_of_mem _ hMem, hSame⟩

theorem Reaches.weight_le (h : interp.Reaches line s call) : weight call.command ≤ weight line.toList := by
  obtain ⟨segs, hSegments, hCall⟩ := h
  obtain ⟨segment, hMem, hSame⟩ := (comesTo_of_mem hCall).exists_segment
  rw [hSame]
  exact (weight_segment_le hSegments hMem).trans (weight_le_of_sublist (trim_sublist _))

/-- Weights cannot fall forever. -/
theorem EndlessNesting.exists_insertsDollar {chain : Nat → Call α} (h : interp.EndlessNesting line s chain)
    (hFlags : ∀ n, '$' ∉ ((chain n).start.options.flagString (chain n).start.stateLetters).toList) (n : Nat) :
    ∃ m, n ≤ m ∧ (chain m).insertsDollar := by
  obtain ⟨k, hHeavy⟩ := WellFounded.not_rel_apply_succ (r := (· < ·)) fun k => weight (chain (n + k)).command
  refine ⟨n + k, Nat.le_add_right n k, ?_⟩
  by_contra hPlain
  obtain ⟨inner, opened, hScope, hReaches⟩ := h.next (n + k)
  exact hHeavy (hReaches.weight_le.trans_lt (Call.weight_scope_lt (hFlags (n + k)) hPlain hScope))

end Interpreter

end OptionShell
