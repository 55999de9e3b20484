import OptionShell.Proofs.Interpreter.Effects

/-!
# Read-only variables

Binding keeps the attributes of a variable, and only protecting makes it read-only. Edits leave read-only variables as
they are, so where only rosters are protected all other variables can be assigned.
-/
namespace OptionShell

namespace Variables

section

variable (vars : Variables) (name other value : String)

/-- Binding keeps the attributes, and a new variable is not read-only. -/
theorem isReadonly_bind : (vars.bind name value).isReadonly other = vars.isReadonly other := by
  rw [isReadonly, bind, Table.find?_insert]
  split
  · rename_i hSame
    rw [isReadonly, hSame]
    cases vars.find? name <;> rfl
  · rfl

theorem isReadonly_protect : (vars.protect name).isReadonly other =
    if other = name then (vars.find? name).isSome else vars.isReadonly other := by
  rw [isReadonly, protect, Table.find?_modify]
  split
  · rename_i hSame
    rw [hSame]
    cases vars.find? name <;> rfl
  · rfl

theorem isReadonly_protect_bind : ((vars.bind name value).protect name).isReadonly other =
    (decide (other = name) || vars.isReadonly other) := by
  rw [isReadonly_protect, isReadonly_bind, bind, Table.find?_insert, if_pos rfl]
  split
  · rename_i hSame
    rw [decide_eq_true hSame]
    rfl
  · rename_i hOther
    rw [decide_eq_false hOther, Bool.false_or]

end

end Variables

/-- Edits leave read-only variables as they are. -/
theorem VarEdit.keeps_readonly {vars after : Variables} (h : VarEdit vars after) {name : String}
    (hReadonly : vars.isReadonly name = true) :
    after.value? name = vars.value? name ∧ after.isReadonly name = true := by
  cases h with
  | assign other value after hEdit =>
    rw [Variables.assign] at hEdit
    split at hEdit
    · cases hEdit
    · split at hEdit
      · cases hEdit
      · rename_i hWritable
        cases hEdit
        have hOther : name ≠ other := fun hSame => hWritable (hSame ▸ hReadonly)
        refine ⟨?_, (Variables.isReadonly_bind ..).trans hReadonly⟩
        rw [Variables.value?, Variables.bind, Table.find?_insert, if_neg hOther]
        rfl
  | unset other after hEdit =>
    rw [Variables.unset] at hEdit
    split at hEdit
    · cases hEdit
    · rename_i hWritable
      cases hEdit
      have hOther : name ≠ other := fun hSame => hWritable (hSame ▸ hReadonly)
      rw [Variables.value?, Variables.isReadonly, Table.find?_erase, if_neg hOther]
      exact ⟨rfl, hReadonly⟩
  | markExported other =>
    rw [Variables.value?, Variables.isReadonly, Variables.markExported, Table.find?_modify]
    split
    · rw [Variables.isReadonly] at hReadonly
      rw [Variables.value?]
      cases hFound : vars.find? name with
      | none =>
        rw [hFound] at hReadonly
        cases hReadonly
      | some var =>
        rw [hFound] at hReadonly
        exact ⟨rfl, hReadonly⟩
    · exact ⟨rfl, hReadonly⟩

/-- All read-only variables are those of rosters. -/
def Variables.OnlyRosters (vars : Variables) : Prop :=
  ∀ name, vars.isReadonly name = true → ∃ roster : Roster, name = roster.varName

namespace Variables

variable {vars after : Variables} {name : String}

theorem onlyRosters_ofEnviron (environ : List (String × String)) : (ofEnviron environ).OnlyRosters := by
  suffices h : ∀ vars : Variables, vars.OnlyRosters → (environ.foldl (fun vars e =>
      vars.insert e.1 { value := e.2, imported := true, exported := true }) vars).OnlyRosters from
    h .empty fun name hReadonly => by cases hReadonly
  induction environ with
  | nil => exact fun vars h => h
  | cons e rest ih =>
    intro vars h
    refine ih _ fun name hReadonly => ?_
    rw [isReadonly, Table.find?_insert] at hReadonly
    split at hReadonly
    · cases hReadonly
    · exact h name hReadonly

theorem OnlyRosters.refresh (h : vars.OnlyRosters) (roster : Roster) (text : String) :
    ((vars.bind roster.varName text).protect roster.varName).OnlyRosters := by
  intro name hReadonly
  rw [isReadonly_protect_bind, Bool.or_eq_true, decide_eq_true_iff] at hReadonly
  obtain rfl | hBefore := hReadonly
  · exact ⟨roster, rfl⟩
  · exact h name hBefore

theorem OnlyRosters.edit (h : vars.OnlyRosters) (hEdit : VarEdit vars after) : after.OnlyRosters := by
  intro name hReadonly
  apply h
  cases hEdit with
  | assign other value after hAssign =>
    rw [assign] at hAssign
    split at hAssign
    · cases hAssign
    · split at hAssign
      · cases hAssign
      · cases hAssign
        rwa [isReadonly_bind] at hReadonly
  | unset other after hUnset =>
    rw [unset] at hUnset
    split at hUnset
    · cases hUnset
    · cases hUnset
      rw [isReadonly, Table.find?_erase] at hReadonly
      split at hReadonly
      · cases hReadonly
      · exact hReadonly
  | markExported other =>
    rw [isReadonly, markExported, Table.find?_modify] at hReadonly
    split at hReadonly
    · rw [isReadonly]
      cases hFound : vars.find? name with
      | none =>
        rw [hFound] at hReadonly
        cases hReadonly
      | some var =>
        rw [hFound] at hReadonly
        exact hReadonly
    · exact hReadonly

/-- A variable that is no roster can be assigned. -/
theorem OnlyRosters.assign_eq_ok (h : vars.OnlyRosters) (hName : isIdentifier name = true)
    (hOther : ∀ roster : Roster, name ≠ roster.varName) (value : String) :
    vars.assign name value = .ok (vars.bind name value) := by
  have hWritable : ¬vars.isReadonly name = true := by
    intro hReadonly
    obtain ⟨roster, hSame⟩ := h name hReadonly
    exact hOther roster hSame
  rw [assign, hName, if_neg (by decide), if_neg hWritable]

end Variables

end OptionShell
