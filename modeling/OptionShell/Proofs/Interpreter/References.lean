import OptionShell.Interpreter.Execution
import OptionShell.Proofs.Line.Fragments

/-!
# The values of references

Expansion puts the current value for each reference of a command and reads nothing in that value. It fails only if
`nounset` is on, for the first variable that is unset.
-/
namespace OptionShell.Interpreter

open Line

variable {α : Type}

/-- What a reference refers to; an unset variable is empty. -/
def valueOf (s : Session α) : Reference → List Char
  | .status => (toString s.lastStatus).toList
  | .flags => (s.options.flagString s.stateLetters).toList
  | .variableNamed name => ((s.vars.value? (String.ofList name)).getD "").toList

/-- The error of a reference to an unset variable with `nounset` on. -/
def unbound? (s : Session α) : Reference → Option LineError
  | .status | .flags => none
  | .variableNamed name =>
    if s.options.enabled "nounset" && (s.vars.value? (String.ofList name)).isNone then
      some (.unboundVariable (String.ofList name))
    else none

theorem resolve_eq (s : Session α) (r : Reference) : resolve s r = (unbound? s r).elim (.ok (valueOf s r)) .error := by
  cases r with
  | status | flags => rfl
  | variableNamed name =>
    rw [resolve, unbound?, valueOf]
    cases s.vars.value? (String.ofList name) with
    | some value => rw [Option.isNone_some, Bool.and_false]; rfl
    | none => cases s.options.enabled "nounset" <;> rfl

theorem expand_references (s : Session α) {fragments : List Fragment} (h : Fitting fragments) :
    expand (resolve s) (written Spelling.source fragments) =
      match (references fragments).findSome? (unbound? s) with
      | some error => .error error
      | none => .ok (written (fun spelling => valueOf s spelling.reference) fragments) := by
  rw [expand_written h (resolve_eq s)]
  cases (references fragments).findSome? (unbound? s) <;> rfl

/-- The value of `X` has quotes, a reference and a backslash; `Y` and `Z` are unset. -/
theorem expand_references_of_marks_in_value :
    let session (nounset : Int32) : Session Unit :=
      let registry := (Registry.empty.add { id := 0, name? := some "nounset", letter? := some 'u', cell? := some 0 }).2
      { options := { registry, storage := .ofList [nounset], host := { vars := .bind "X" "'$Y\"\\" .empty, user := () } }
        stateLetters := "i"
        lastStatus := -2 }
    let fragments : List Fragment :=
      [.unquoted (.plain "a ".toList), .singleQuoted "\"$Y\\".toList,
        .doubleQuoted [.plain "it's ".toList, .reference (.bare "X".toList), .escape '$', .reference .flags],
        .unquoted (.escape '\''), .unquoted (.reference (.braced "X".toList)), .unquoted (.plain "Y".toList),
        .unquoted (.reference .status), .unquoted (.reference (.braced "Z".toList)),
        .unquoted (.reference (.bare "Y".toList))]
    Fitting fragments ∧ written Spelling.source fragments = "a '\"$Y\\'\"it's $X\\$$-\"\\'$\x7bX\x7dY$?$\x7bZ\x7d$Y".toList ∧
      expand (resolve (session 0)) (written Spelling.source fragments) =
        .ok "a '\"$Y\\'\"it's '$Y\"\\\\$i\"\\''$Y\"\\Y-2".toList ∧
      expand (resolve (session 1)) (written Spelling.source fragments) = .error (.unboundVariable "Z") := by
  intro session fragments
  have hFitting : Fitting fragments := by decide +kernel
  refine ⟨hFitting, by decide +kernel, ?_, ?_⟩
  · rw [expand_references (session 0) hFitting]
    decide +kernel
  · rw [expand_references (session 1) hFitting]
    decide +kernel

end OptionShell.Interpreter
