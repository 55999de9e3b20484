import Mathlib.Data.Set.Insert
import OptionShell.Proofs.Options.Policy
import OptionShell.Proofs.Options.Requests
import OptionShell.Variables

/-!
# Access control

An option that shares its cell with no other changes only where the change policy admits it. Operations may nest to any
depth: a custom setter that leaves the option alone can make any request about other options, whose setters leave it
alone as well.
-/
namespace OptionShell

variable {σ α : Type}

/-- The script neither writes the cell of the option nor makes a request that acts on the option, whatever it is
answered. -/
def Script.LeavesAlone (d : Definition σ) (script : Script σ α) : Prop :=
  script.Only (fun cell => d.cell? ≠ some cell) fun request => ¬request.ActsOn d

/-- A definition that owns its cell within the family: no other one has the cell, and no custom setter acts on it. -/
structure Isolated (defs : Set (Definition σ)) (d : Definition σ) (cell : CellId) : Prop where
  identified : Identified defs
  stored : d.cell? = some cell
  noSetter : d.setter? = none
  unshared : ∀ e ∈ defs, e.cell? = some cell → e = d
  untouched : ∀ e ∈ defs, ∀ setter, e.setter? = some setter → ∀ why value, (setter why value).LeavesAlone d

/-- The options stay well kept, and another value is in the cell only if that was admitted. -/
def Spares (defs : Set (Definition σ)) (cell : CellId) (admitted : Prop) (s after : Options σ) : Prop :=
  s.WellKept defs → after.WellKept defs ∧ (admitted ∨ after.storage.read cell = s.storage.read cell)

namespace Spares

variable {defs : Set (Definition σ)} {cell : CellId} {admitted : Prop} {s after : Options σ}

instance : Std.Refl (Spares defs cell admitted) := ⟨fun _ hs => ⟨hs, .inr rfl⟩⟩

instance : IsTrans (Options σ) (Spares defs cell admitted) where
  trans first mid last hFirst hSecond hs := by
    obtain ⟨hMid, hFirst⟩ := hFirst hs
    obtain ⟨hLast, hSecond⟩ := hSecond hMid
    refine ⟨hLast, ?_⟩
    obtain hAdmitted | hFirst := hFirst
    · exact .inl hAdmitted
    · exact hSecond.imp_right fun hSame => hSame.trans hFirst

theorem mono {admitted' : Prop} (hWeaker : admitted → admitted') (h : Spares defs cell admitted s after) :
    Spares defs cell admitted' s after :=
  fun hs => (h hs).imp_right (Or.imp_left hWeaker)

theorem writeCell {other : CellId} (hOther : cell ≠ other) (value : Int32) (s : Options σ) :
    Spares defs cell admitted s (s.writeCell other value) :=
  fun hs => ⟨⟨hs.registry, hs.held⟩, .inr (Storage.read_write_of_ne _ _ hOther)⟩

theorem readLetters (s : Options σ) : Spares defs cell admitted s s.readLetters.2 := by
  rw [Options.readLetters]
  split
  · exact fun hs => ⟨hs, .inr rfl⟩
  · exact fun hs => ⟨⟨hs.registry, hs.held⟩, .inr rfl⟩

theorem requestRules (hDefs : Identified defs) : RequestRules defs (Spares defs cell admitted) where
  guarded h hs := h hs hs
  mapHost _ _ hs := ⟨⟨hs.registry, hs.held⟩, .inr rfl⟩
  attached _ _ hs := ⟨⟨hs.registry, hs.held⟩, .inr rfl⟩
  readLetters := readLetters
  add _ hd _ hs := ⟨⟨hs.registry.add hDefs hd, hs.held⟩, .inr rfl⟩
  takeOut d _ hs := ⟨⟨hs.registry.remove d, hs.held⟩, .inr rfl⟩

end Spares

variable [HostVariables σ] {defs : Set (Definition σ)} {d : Definition σ} {cell : CellId} {admitted : Prop}

namespace Isolated

/-! ## Setting an option -/

/-- A script that leaves the option alone spares its cell if setting other options does. -/
theorem leads_script (h : Isolated defs d cell) {set : Assign σ}
    (hSet : ∀ e ∈ defs, e ≠ d → ∀ why value s, Leads (Spares defs cell admitted) (set e why value) s)
    (script : Script σ α) (hScript : script.LeavesAlone d) (s : Options σ) :
    Leads (Spares defs cell admitted) (script.run set) s := by
  have hRules : RequestRules defs (Spares defs cell admitted) := Spares.requestRules h.identified
  refine hRules.run (fun other hOther => Spares.writeCell fun hSame => hOther (hSame ▸ h.stored)) ?_ script hScript s
  intro request hRequest
  have hApart : ∀ e, request.ActsOn e → e ≠ d := fun e hActs hSame => hRequest (hSame ▸ hActs)
  refine hRules.perform (fun e he hActs => hSet e he (hApart e hActs)) fun e he hActs other hOther => ?_
  exact Spares.writeCell fun hSame => hApart e hActs (h.unshared e he (hSame ▸ hOther))

theorem spares_setResult (h : Isolated defs d cell) {e : Definition σ} (he : e ∈ defs) {why : Access}
    {value : Int32} {outcome : Outcome} {s after : Options σ}
    (hResult : Options.SetResult e (e.yieldsTo why) value s (outcome, after))
    (hAdmitted : e = d → d.yieldsTo why = true → admitted) : Spares defs cell admitted s after := by
  obtain ⟨storage, host, rfl⟩ := hResult.exists_eq
  refine fun hs => ⟨⟨hs.registry, hs.held⟩, ?_⟩
  by_cases hSame : e = d
  · subst hSame
    cases hYields : e.yieldsTo why with
    | true => exact .inl (hAdmitted rfl hYields)
    | false =>
      rw [hYields] at hResult
      rw [hResult.eq_of_not_admitted]
      exact .inr rfl
  · exact .inr (hResult.read_of_ne fun hCell => hSame (h.unshared e he hCell))

/-- Setting this option is up to the policy. Setting another one does not reach the cell, however deep its setter
goes. -/
theorem leads_setWithin (h : Isolated defs d cell) (depth : Nat) {e : Definition σ} (he : e ∈ defs)
    (why : Access) (value : Int32) (hAdmitted : e = d → d.yieldsTo why = true → admitted) (s : Options σ) :
    Leads (Spares defs cell admitted) (Update.setWithin depth e why value) s := by
  refine (Spares.requestRules h.identified).setWithin
    (fun e why => e ∈ defs ∧ (e = d → d.yieldsTo why = true → admitted)) ?_ ?_ depth e why ⟨he, hAdmitted⟩ value s
  · rintro e why ⟨he, hAdmitted⟩ value s
    exact h.spares_setResult he (Options.setResult_applyPolicy e why value s) hAdmitted
  · rintro e why ⟨he, -⟩ setter hOwn set hSet value s
    refine h.leads_script (fun other hOther hNe why => ?_) (setter why value) (h.untouched e he setter hOwn why value) s
    exact hSet other why ⟨hOther, fun hSame => absurd hSame hNe⟩

theorem leads_set (h : Isolated defs d cell) {e : Definition σ} (he : e ∈ defs) (why : Access)
    (value : Int32) (s : Options σ) : Leads (Spares defs cell (d.yieldsTo why = true)) (Update.set e why value) s :=
  .get_bind (h.leads_setWithin _ he why value (fun _ => id) s)

end Isolated

/-! ## Operations -/

/-- The policy of the option admits changes in some context of the operation. -/
def Operation.MayChange (d : Definition σ) (op : Operation σ) : Prop := ∃ why ∈ op.contexts, d.yieldsTo why = true

namespace Isolated

theorem leads_run (h : Isolated defs d cell) (op : Operation σ) (hOp : ∀ e, op.subject? = some e → e ∈ defs)
    (hResets : op.resets = false) (s : Options σ) : Leads (Spares defs cell (op.MayChange d)) op.run s := by
  refine (Spares.requestRules h.identified).operate op (fun e hAdded => ?_) (fun e he why hWhy value s => ?_)
    (fun hReset => absurd (hReset.symm.trans hResets) (by decide)) s
  · cases op with
    | add d => exact hOp e hAdded
    | _ => cases hAdded
  · refine (h.leads_set (he.elim (hOp e) id) why value s).mono fun _ => ?_
    exact Spares.mono fun hYields => ⟨why, hWhy, hYields⟩

theorem leads_runAll (h : Isolated defs d cell) (ops : List (Operation σ))
    (hOps : ∀ op ∈ ops, op.resets = false ∧ ∀ e, op.subject? = some e → e ∈ defs) (s : Options σ) :
    Leads (Spares defs cell (∃ op ∈ ops, op.MayChange d)) (Operation.runAll ops) s :=
  .forM (fun op hMem s => (h.leads_run op (hOps op hMem).2 (hOps op hMem).1 s).mono fun _ =>
    Spares.mono fun hMay => ⟨op, hMem, hMay⟩) s

end Isolated

/-! ## Calls that set the option -/

/-- The calls that set this option in a state: with the definition, or with a key that leads to it. -/
inductive SetCall (d : Definition σ) (s : Options σ) (why : Access) (value : Int32) : Update σ Outcome → Prop where
  | direct : SetCall d s why value (Update.set d why value)
  | named (name : String) (hFound : s.registry.findName? name = some d) :
      SetCall d s why value (Update.setNamed name why value)
  | lettered (letter : Char) (hFound : s.registry.findLetter? letter = some d) :
      SetCall d s why value (Update.setLettered letter why value)

theorem Isolated.ensures_setCall (h : Isolated defs d cell) {s : Options σ} {why : Access} {value : Int32}
    {call : Update σ Outcome} (hCall : SetCall d s why value call) :
    Ensures call s fun outcome after => if outcome = .ok then after.storage.read cell = value else after = s := by
  have hSet : Ensures (Update.set d why value) s fun outcome after =>
      if outcome = .ok then after.storage.read cell = value else after = s := by
    refine (Options.ensures_set h.noSetter why value s).mono fun outcome after hResult => ?_
    split
    · rename_i hOutcome
      subst hOutcome
      rw [hResult.admitted_of_ok] at hResult
      exact hResult.read_own h.stored
    · rename_i hOutcome
      exact hResult.eq_of_ne_ok hOutcome
  cases hCall with
  | direct => exact hSet
  | named name hFound =>
    apply Ensures.get_bind
    rw [hFound]
    exact hSet
  | lettered letter hFound =>
    apply Ensures.get_bind
    rw [hFound]
    exact hSet

/-! ## Whole runs -/

namespace Operation

/-- The cell of a read-only option, or of one that drops changes, never changes. That of an option that is fixed after
the start changes only in operations that act for the arguments, for the environment, at a restart, at the end of a
scope or at an unload. Whatever happens to it, a call that sets an option has a result: with `ok` the cell holds the
value, and with anything else nothing changed. -/
theorem cell_changed_only_by_policy (h : Isolated defs d cell) (ops : List (Operation σ))
    (hOps : ∀ op ∈ ops, op.resets = false ∧ ∀ e, op.subject? = some e → e ∈ defs) (s : Options σ)
    (hs : s.WellKept defs) :
    (d.readonly = true ∨ d.dropsChanges = true → ∀ done rest mid, ops = done ++ rest →
      runAll done s = some ((), mid) → mid.storage.read cell = s.storage.read cell) ∧
    (d.fixedAfterStart = true → ∀ done op rest mid next, ops = done ++ op :: rest →
      runAll done s = some ((), mid) → op.run mid = some ((), next) →
      next.storage.read cell ≠ mid.storage.read cell →
        (∃ why ∈ op.contexts, why ∈ [.arguments, .environment, .restart, .scopeEnd, .unload]) ∧
          (∀ letter sign, op ≠ turnFlag letter sign) ∧ ∀ inheriting, op ≠ openRosters inheriting) ∧
    ∀ t why value call, SetCall d t why value call → ∃ outcome after, call t = some (outcome, after) ∧
      if outcome = .ok then after.storage.read cell = value else after = t := by
  have hReached : ∀ done rest mid, ops = done ++ rest → runAll done s = some ((), mid) →
      mid.WellKept defs ∧ ((∃ op ∈ done, op.MayChange d) ∨ mid.storage.read cell = s.storage.read cell) := by
    rintro done rest mid rfl hRun
    have hDone := h.leads_runAll done (fun op hOp => hOps op (List.mem_append_left rest hOp)) s
    exact hDone () mid hRun hs
  refine ⟨fun hClosed done rest mid hSplit hRun => ?_, fun hFixed done op rest mid next hSplit hRun hStep hCell => ?_,
    fun t why value call hCall => h.ensures_setCall hCall⟩
  · obtain ⟨op, -, why, -, hYields⟩ | hSame := (hReached done rest mid hSplit hRun).2
    · rw [Definition.yieldsTo_eq_false hClosed] at hYields
      cases hYields
    · exact hSame
  · have hMem : op ∈ ops := hSplit ▸ List.mem_append_right done List.mem_cons_self
    have hMid := (hReached done (op :: rest) mid hSplit hRun).1
    obtain ⟨why, hWhy, hYields⟩ | hSame := (h.leads_run op (hOps op hMem).2 (hOps op hMem).1 mid () next hStep hMid).2
    · have hContext := Definition.context_of_yieldsTo hFixed hYields
      refine ⟨⟨why, hWhy, hContext⟩, ?_, ?_⟩
      · rintro letter sign rfl
        obtain rfl := List.mem_singleton.mp hWhy
        simp at hContext
      · rintro inheriting rfl
        cases inheriting with
        | false => cases hWhy
        | true =>
          obtain ⟨roster, -, rfl⟩ := List.mem_map.mp hWhy
          cases roster <;> simp [Roster.access] at hContext
    · exact absurd hSame hCell

/-- The setter of `busy` sets `plain` by its letter, and the flag of `fixed` cannot turn it on. The arguments can. -/
theorem cell_changed_only_by_policy_of_busy_setter :
    let fixed : Definition Variables :=
      { id := 0, name? := some "fixed", letter? := some 'f', cell? := some 0, fixedAfterStart := true,
        inShellopts := true }
    let plain : Definition Variables := { id := 1, name? := some "plain", letter? := some 'p', cell? := some 1 }
    let setter : Setter Variables := fun why value => do
      let outcome ← Script.setFlag 'p' why value
      Script.store 2 value
      return outcome
    let busy : Definition Variables := { id := 2, name? := some "busy", cell? := some 2, setter? := some setter }
    let defs : Set (Definition Variables) := {fixed, plain, busy}
    let done := [add fixed, add plain, add busy, setNamed "busy" .shopt 1, turnFlag 'f' '-']
    let last : Operation Variables := setNamed "fixed" .arguments 1
    let s : Options Variables := { host := .empty }
    Isolated defs fixed 0 ∧ (∀ op ∈ done ++ [last], op.resets = false ∧ ∀ e, op.subject? = some e → e ∈ defs) ∧
      s.WellKept defs ∧
      ∃ mid next, runAll done s = some ((), mid) ∧ last.run mid = some ((), next) ∧
        mid.storage.read 1 = 1 ∧ mid.storage.read 0 = 0 ∧ next.storage.read 0 = 1 ∧
        ∃ why ∈ last.contexts, why ∈ [.arguments, .environment, .restart, .scopeEnd, .unload] := by
  intro fixed plain setter busy defs done last s
  have hIsolated : Isolated defs fixed 0 := by
    refine ⟨?_, rfl, rfl, ?_, ?_⟩
    · rintro d (rfl | rfl | rfl) e (rfl | rfl | rfl) hId
      all_goals first | rfl | cases hId
    · rintro e (rfl | rfl | rfl) hCell
      all_goals first | rfl | cases hCell
    · rintro e (rfl | rfl | rfl) setter hSetter why value
      · cases hSetter
      · cases hSetter
      · cases hSetter
        exact ⟨(by decide : some 'f' ≠ some 'p'), fun outcome => ⟨by decide, trivial⟩⟩
  have hOps : ∀ op ∈ done ++ [last], op.resets = false ∧ ∀ e, op.subject? = some e → e ∈ defs := by
    simp [done, last, defs, subject?, resets]
  have hs : s.WellKept defs := ⟨Registry.wellKept_empty defs, by simp [s, Handles.none]⟩
  have hRun : ((runAll done s).any fun first => (last.run first.2).any fun second =>
      decide (first.2.storage.read 1 = 1 ∧ first.2.storage.read 0 = 0 ∧ second.2.storage.read 0 = 1)) = true := by
    decide +kernel
  obtain ⟨⟨_, mid⟩, hMid, hRest⟩ := (Option.any_eq_true _ _).mp hRun
  obtain ⟨⟨_, next⟩, hNext, hRead⟩ := (Option.any_eq_true _ _).mp hRest
  obtain ⟨hPlain, hBefore, hAfter⟩ := of_decide_eq_true hRead
  obtain ⟨-, hFixed, -⟩ := cell_changed_only_by_policy hIsolated (done ++ [last]) hOps s hs
  have hChanged : next.storage.read 0 ≠ mid.storage.read 0 := by
    rw [hBefore, hAfter]
    decide
  exact ⟨hIsolated, hOps, hs, mid, next, hMid, hNext, hPlain, hBefore, hAfter,
    (hFixed rfl done last [] mid next rfl hMid hNext hChanged).1⟩

end Operation

end OptionShell
