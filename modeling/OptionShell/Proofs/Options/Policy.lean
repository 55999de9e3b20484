import OptionShell.Options.Setter
import OptionShell.Proofs.Registry.Consistency
import OptionShell.Proofs.Result

/-!
# What setting an option does

Setting changes nothing, or writes the cell of the option where the change is admitted, with a refresh of its rosters
if the value is a new one. The change policy admits changes by context.
-/
namespace OptionShell

variable {σ : Type}

namespace Options

variable [HostVariables σ]

/-- The ways in which setting an option can end. -/
inductive SetResult (d : Definition σ) (admitted : Bool) (value : Int32) (s : Options σ) :
    Outcome × Options σ → Prop where
  | kept (outcome : Outcome) (hOutcome : outcome ≠ .ok)
      (hCell : admitted = true → ∀ cell, d.cell? = some cell → s.storage.read cell = value) :
      SetResult d admitted value s (outcome, s)
  | same (cell : CellId) (hAdmitted : admitted = true) (hCell : d.cell? = some cell)
      (hValue : s.storage.read cell = value) : SetResult d admitted value s (.ok, s.writeCell cell value)
  | changed (cell : CellId) (hAdmitted : admitted = true) (hCell : d.cell? = some cell)
      (hValue : s.storage.read cell ≠ value) :
      SetResult d admitted value s (.ok, (s.writeCell cell value).refreshFor d)

namespace SetResult

variable {d : Definition σ} {admitted : Bool} {value : Int32} {s after : Options σ} {outcome : Outcome}

theorem exists_eq (h : SetResult d admitted value s (outcome, after)) :
    ∃ storage host, after = { s with storage, host } := by
  cases h with
  | kept outcome hOutcome hCell => exact ⟨s.storage, s.host, rfl⟩
  | same cell hAdmitted hCell hValue => exact ⟨_, s.host, rfl⟩
  | changed cell hAdmitted hCell hValue =>
    obtain ⟨f, hf⟩ := refreshFor_eq_mapHost d (s.writeCell cell value)
    exact ⟨_, _, hf⟩

theorem storage_refreshFor (d : Definition σ) (s : Options σ) : (s.refreshFor d).storage = s.storage := by
  obtain ⟨f, hf⟩ := refreshFor_eq_mapHost d s
  rw [hf]
  rfl

theorem read_own (h : SetResult d true value s (outcome, after)) {cell : CellId} (hCell : d.cell? = some cell) :
    after.storage.read cell = value := by
  cases h with
  | kept outcome hOutcome hKept => exact hKept rfl cell hCell
  | same own hAdmitted hOwn hValue =>
    obtain rfl : cell = own := Option.some.inj (hCell.symm.trans hOwn)
    exact Storage.read_write_self ..
  | changed own hAdmitted hOwn hValue =>
    obtain rfl : cell = own := Option.some.inj (hCell.symm.trans hOwn)
    rw [storage_refreshFor]
    exact Storage.read_write_self ..

theorem read_of_ne (h : SetResult d admitted value s (outcome, after)) {cell : CellId}
    (hCell : d.cell? ≠ some cell) : after.storage.read cell = s.storage.read cell := by
  cases h with
  | kept outcome hOutcome hKept => rfl
  | same own hAdmitted hOwn hValue => exact Storage.read_write_of_ne _ _ fun hSame => hCell (hSame ▸ hOwn)
  | changed own hAdmitted hOwn hValue =>
    rw [storage_refreshFor]
    exact Storage.read_write_of_ne _ _ fun hSame => hCell (hSame ▸ hOwn)

theorem eq_of_not_admitted (h : SetResult d false value s (outcome, after)) : after = s := by
  cases h with
  | kept outcome hOutcome hKept => rfl
  | same own hAdmitted hOwn hValue => cases hAdmitted
  | changed own hAdmitted hOwn hValue => cases hAdmitted

theorem eq_of_ne_ok (h : SetResult d admitted value s (outcome, after)) (hOutcome : outcome ≠ .ok) : after = s := by
  cases h with
  | kept outcome hKept hCell => rfl
  | same own hAdmitted hOwn hValue => exact absurd rfl hOutcome
  | changed own hAdmitted hOwn hValue => exact absurd rfl hOutcome

theorem admitted_of_ok (h : SetResult d admitted value s (.ok, after)) : admitted = true := by
  cases h with
  | kept outcome hOutcome hKept => exact absurd rfl hOutcome
  | same own hAdmitted hOwn hValue => exact hAdmitted
  | changed own hAdmitted hOwn hValue => exact hAdmitted

/-- A change that succeeds leaves the same options whatever it was made for. -/
theorem after_unique {admitted' : Bool} {after' : Options σ} (h : SetResult d admitted value s (.ok, after))
    (h' : SetResult d admitted' value s (.ok, after')) : after = after' := by
  cases h with
  | kept outcome hOutcome hKept => exact absurd rfl hOutcome
  | same cell hAdmitted hCell hValue =>
    cases h' with
    | kept outcome hOutcome hKept => exact absurd rfl hOutcome
    | same other hAdmitted' hOther hValue' => rw [Option.some.inj (hCell.symm.trans hOther)]
    | changed other hAdmitted' hOther hValue' =>
      rw [Option.some.inj (hCell.symm.trans hOther)] at hValue
      exact absurd hValue hValue'
  | changed cell hAdmitted hCell hValue =>
    cases h' with
    | kept outcome hOutcome hKept => exact absurd rfl hOutcome
    | same other hAdmitted' hOther hValue' =>
      rw [Option.some.inj (hCell.symm.trans hOther)] at hValue
      exact absurd hValue' hValue
    | changed other hAdmitted' hOther hValue' => rw [Option.some.inj (hCell.symm.trans hOther)]

end SetResult

end Options

/-! ## The change policy -/

/-- Whether the policy lets this context change the option. -/
def Definition.yieldsTo (d : Definition σ) (why : Access) : Bool :=
  !d.readonly && !d.dropsChanges && (!d.fixedAfterStart || why.isStartup || why.isPrivileged)

namespace Definition

variable {d : Definition σ} {why : Access}

theorem yieldsTo_eq_false (h : d.readonly = true ∨ d.dropsChanges = true) (why : Access) : d.yieldsTo why = false := by
  rw [yieldsTo]
  obtain hReadonly | hDrops := h
  · rw [hReadonly]
    rfl
  · rw [hDrops, Bool.not_true, Bool.and_false]
    rfl

theorem yieldsTo_eq_true (h : d.readonly = false ∧ d.fixedAfterStart = false ∧ d.dropsChanges = false) (why : Access) :
    d.yieldsTo why = true := by
  obtain ⟨hReadonly, hFixed, hDrops⟩ := h
  rw [yieldsTo, hReadonly, hFixed, hDrops]
  rfl

/-- The start of the shell and what puts values back may change an option that is fixed afterwards. -/
theorem context_of_yieldsTo (hFixed : d.fixedAfterStart = true) (h : d.yieldsTo why = true) :
    why ∈ [Access.arguments, .environment, .restart, .scopeEnd, .unload] := by
  rw [yieldsTo, hFixed, Bool.and_eq_true, Bool.not_true, Bool.false_or] at h
  have hContext := h.2
  cases why <;> simp [Access.isStartup, Access.isPrivileged] at hContext ⊢

end Definition

namespace Options

variable [HostVariables σ]

theorem setResult_applyPolicy (d : Definition σ) (why : Access) (value : Int32) (s : Options σ) :
    SetResult d (d.yieldsTo why) value s (s.applyPolicy d why value) := by
  have hKept : ∀ outcome : Outcome, outcome ≠ .ok → d.yieldsTo why = false →
      SetResult d (d.yieldsTo why) value s (outcome, s) := by
    intro outcome hOutcome hPolicy
    refine .kept outcome hOutcome fun hAdmitted => ?_
    rw [hPolicy] at hAdmitted
    cases hAdmitted
  rw [applyPolicy]
  split
  · rename_i hReadonly
    exact hKept _ (by decide) (by simp [Definition.yieldsTo, hReadonly])
  · rename_i hReadonly
    split
    · rename_i hFixed
      have hPolicy : d.yieldsTo why = false := by
        simp only [Bool.and_eq_true, Bool.not_eq_true'] at hFixed
        simp [Definition.yieldsTo, hFixed]
      split
      · exact hKept _ (by decide) hPolicy
      · split
        · exact hKept _ (by decide) hPolicy
        · exact hKept _ (by decide) hPolicy
    · rename_i hFixed
      split
      · rename_i hDrops
        exact hKept _ (by decide) (by simp [Definition.yieldsTo, hDrops])
      · rename_i hDrops
        have hPolicy : d.yieldsTo why = true := by
          simp only [Bool.and_eq_true, Bool.not_eq_true', not_and, Bool.not_eq_false] at hFixed
          simp only [Definition.yieldsTo, Bool.not_eq_true] at hReadonly hDrops ⊢
          rw [hReadonly, hDrops]
          cases hAfter : d.fixedAfterStart with
          | false => rfl
          | true =>
            cases hStart : why.isStartup with
            | true => rfl
            | false => simpa using hFixed ⟨hAfter, hStart⟩
        split
        · rename_i hCell
          refine .kept _ (by decide) fun _ cell hSome => ?_
          rw [hCell] at hSome
          cases hSome
        · rename_i cell hCell
          dsimp only
          split
          · rename_i hValue
            exact .same cell hPolicy hCell hValue
          · rename_i hValue
            exact .changed cell hPolicy hCell hValue

/-- An admitted change of an option with a cell succeeds. -/
theorem applyPolicy_of_yieldsTo {d : Definition σ} {why : Access} {cell : CellId} (hYields : d.yieldsTo why = true)
    (hCell : d.cell? = some cell) (value : Int32) (s : Options σ) : (s.applyPolicy d why value).1 = .ok := by
  simp only [Definition.yieldsTo, Bool.and_eq_true, Bool.or_eq_true, Bool.not_eq_true'] at hYields
  obtain ⟨⟨hReadonly, hDrops⟩, hFixed⟩ := hYields
  have hFree : (d.fixedAfterStart && !why.isStartup && !why.isPrivileged) = false := by
    obtain (hFixed | hStart) | hPrivileged := hFixed
    · rw [hFixed, Bool.false_and, Bool.false_and]
    · rw [hStart, Bool.not_true, Bool.and_false, Bool.false_and]
    · rw [hPrivileged, Bool.not_true, Bool.and_false]
  rw [applyPolicy, hReadonly, hFree, hDrops, hCell]
  rfl

theorem ensures_set {d : Definition σ} (hSetter : d.setter? = none) (why : Access) (value : Int32) (s : Options σ) :
    Ensures (Update.set d why value) s fun outcome after =>
      SetResult d (d.yieldsTo why) value s (outcome, after) :=
  ⟨_, _, Update.set_of_setter?_eq_none hSetter why value s, setResult_applyPolicy d why value s⟩

theorem ensures_set_of_yieldsTo {d : Definition σ} {why : Access} {cell : CellId} (hSetter : d.setter? = none)
    (hYields : d.yieldsTo why = true) (hCell : d.cell? = some cell) (value : Int32) (s : Options σ) :
    Ensures (Update.set d why value) s fun outcome after =>
      outcome = .ok ∧ SetResult d true value s (outcome, after) := by
  have hResult := setResult_applyPolicy d why value s
  rw [hYields] at hResult
  exact ⟨_, _, Update.set_of_setter?_eq_none hSetter why value s, applyPolicy_of_yieldsTo hYields hCell value s,
    hResult⟩

end Options

/-- Definitions with a cell of their own each and without custom functions. -/
structure Plain (defs : Set (Definition σ)) : Prop where
  identified : Identified defs
  stored : ∀ d ∈ defs, d.cell?.isSome
  noGetter : ∀ d ∈ defs, d.getter? = none
  noSetter : ∀ d ∈ defs, d.setter? = none
  ownCells : ∀ d ∈ defs, ∀ e ∈ defs, d.cell? = e.cell? → d = e

theorem Plain.subset {defs some : Set (Definition σ)} (h : Plain defs) (hSome : some ⊆ defs) : Plain some where
  identified d hd e he := h.identified d (hSome hd) e (hSome he)
  stored d hd := h.stored d (hSome hd)
  noGetter d hd := h.noGetter d (hSome hd)
  noSetter d hd := h.noSetter d (hSome hd)
  ownCells d hd e he := h.ownCells d (hSome hd) e (hSome he)

theorem plain_of_nodup {items : List (Definition σ)} (hIds : (items.map (·.id)).Nodup)
    (hCells : (items.map (·.cell?)).Nodup)
    (hPlain : ∀ d ∈ items, d.cell?.isSome ∧ d.getter? = none ∧ d.setter? = none) : Plain {d | d ∈ items} where
  identified := identified_of_nodup hIds
  stored d hd := (hPlain d hd).1
  noGetter d hd := (hPlain d hd).2.1
  noSetter d hd := (hPlain d hd).2.2
  ownCells _ hd _ he hCell := List.inj_on_of_nodup_map hCells hd he hCell

end OptionShell
