import Mathlib.Data.Set.Insert
import OptionShell.Proofs.Options.InitialValues
import OptionShell.Proofs.Options.Operation

/-!
# Coherence of the rosters

For options with cells of their own, the variables of the rosters hold the texts of the rosters after every run of
operations, if they did so before. The one operation that can break this is the addition of an option that is on
already, since it refreshes nothing.
-/
namespace OptionShell

variable {σ : Type}

namespace Options

/-- Definitions that their identities tell apart. For each that a roster can list there is a cell that decides how it
reads and that no other definition writes. -/
structure OwnCells (defs : Set (Definition σ)) : Prop where
  identified : Identified defs
  owned : ∀ d ∈ defs, ∀ roster : Roster, roster.mirrors d = true →
    ∃ cell, d.DeterminedBy cell ∧ ∀ e ∈ defs, e.cell? = some cell → e = d

variable {defs : Set (Definition σ)} {s : Options σ} {d : Definition σ} {roster : Roster}

theorem ownCells_of_plain (hPlain : Plain defs) : OwnCells defs := by
  refine ⟨hPlain.identified, fun d hd _ _ => ?_⟩
  obtain ⟨cell, hCell⟩ := Option.isSome_iff_exists.mp (hPlain.stored d hd)
  refine ⟨cell, .of_cell (hPlain.noGetter d hd) hCell, fun e he hShared => ?_⟩
  exact hPlain.ownCells e he d hd (hShared.trans hCell.symm)

theorem OwnCells.determined (hOwn : OwnCells defs) (h : s.registry.Within defs) (roster : Roster) :
    s.Determined roster := by
  intro e he hMirrored
  obtain ⟨cell, hCell, -⟩ := hOwn.owned e (h.live e he) roster hMirrored
  exact ⟨cell, hCell⟩

theorem OwnCells.lists_eq_false (hOwn : OwnCells defs) (hd : d ∈ defs) (why : Access)
    (hOff : ∀ value, s.get d why = some value → value ≤ 0) : s.lists roster d = false := by
  rw [lists]
  cases hMirrored : roster.mirrors d with
  | false => rfl
  | true =>
    obtain ⟨cell, hCell, -⟩ := hOwn.owned d hd roster hMirrored
    rw [hCell s s rfl roster.access why, Bool.true_and, Option.any_eq_false]
    intro value hValue
    simpa using hOff value hValue

theorem OwnCells.rosterText_writeCell (hOwn : OwnCells defs) (hWithin : s.registry.Within defs) (hd : d ∈ defs)
    {cell : CellId} (hCell : d.cell? = some cell) (value : Int32) (hOut : roster.mirrors d = false) :
    (s.writeCell cell value).rosterText roster = s.rosterText roster := by
  refine rosterText_eq_of_get_eq rfl fun e he hMirrored => ?_
  obtain ⟨own, hDetermined, hUnique⟩ := hOwn.owned e (hWithin.live e he) roster hMirrored
  refine hDetermined.get_writeCell_of_ne (fun hSame => ?_) value _
  rw [← hUnique d hd (hSame ▸ hCell), hOut] at hMirrored
  cases hMirrored

variable [HostVariables σ]

theorem Shows.writeCell_same (hDetermined : s.Determined roster) (h : s.Shows roster) {cell : CellId}
    {value : Int32} (hValue : s.storage.read cell = value) : (s.writeCell cell value).Shows roster := by
  refine h.congr rfl (rosterText_eq_of_get_eq rfl fun e he hMirrored => ?_)
  obtain ⟨own, hOwn⟩ := hDetermined e he hMirrored
  exact hOwn.get_writeCell_same hValue _

/-! ## One roster -/

omit [HostVariables σ] in
theorem rosterText_add (h : s.lists roster d = false) : (s.add d).2.rosterText roster = s.rosterText roster :=
  rosterText_congr (Registry.filter_entries_add (p := s.lists roster) h)

theorem Shows.add (h : s.Shows roster) (hUnlisted : s.lists roster d = false) : (s.add d).2.Shows roster :=
  h.congr rfl (rosterText_add hUnlisted)

section Roster

variable [LawfulHostVariables σ]

theorem Shows.writeCell_refreshFor (h : s.Shows roster) (hOwn : OwnCells defs) (hWithin : s.registry.Within defs)
    (hAttached : s.attached = true) (hd : d ∈ defs) {cell : CellId} (hCell : d.cell? = some cell) (value : Int32) :
    ((s.writeCell cell value).refreshFor d).Shows roster :=
  shows_refreshFor hAttached (hOwn.determined hWithin roster) fun hOut =>
    h.congr rfl (hOwn.rosterText_writeCell hWithin hd hCell value hOut)

theorem Shows.setResult (h : s.Shows roster) (hOwn : OwnCells defs) (hWithin : s.registry.Within defs)
    (hAttached : s.attached = true) (hd : d ∈ defs) {admitted : Bool} {value : Int32} {outcome : Outcome}
    {after : Options σ} (hResult : SetResult d admitted value s (outcome, after)) : after.Shows roster := by
  cases hResult with
  | kept outcome hOutcome hKept => exact h
  | same cell hAdmitted hCell hValue => exact h.writeCell_same (hOwn.determined hWithin roster) hValue
  | changed cell hAdmitted hCell hValue => exact h.writeCell_refreshFor hOwn hWithin hAttached hd hCell value

theorem Shows.remove (h : s.Shows roster) (hOwn : OwnCells defs) (hWithin : s.registry.Within defs)
    (hAttached : s.attached = true) (hd : d ∈ defs) : (s.remove d).2.Shows roster := by
  rw [Options.remove]
  split
  · have hKept : s.lists roster d = false → (s.takeOut d).Shows roster := by
      intro hUnlisted
      refine h.congr rfl (rosterText_congr ?_)
      refine Registry.filter_entries_remove fun e he hId => ?_
      rw [hOwn.identified e (hWithin.live e he) d hd hId]
      exact hUnlisted
    dsimp only
    split
    · exact shows_refreshFor hAttached (hOwn.determined (s := s.takeOut d) (hWithin.remove d) roster) fun hOut =>
        hKept (by rw [lists, hOut]; rfl)
    · rename_i hOff
      refine hKept (hOwn.lists_eq_false hd .unload fun value hValue => ?_)
      have hZero : (s.get d .unload).any (fun value => value ≠ 0) = false := Bool.eq_false_iff.mpr hOff
      rw [hValue] at hZero
      simp only [Option.any_some, decide_eq_false_iff_not, not_not] at hZero
      simp [hZero]
  · exact h

end Roster

/-! ## Both rosters -/

/-- Only definitions of the family are registered, and the variables of the rosters hold their texts. -/
structure Coherent (defs : Set (Definition σ)) (s : Options σ) : Prop where
  attached : s.attached = true
  within : s.registry.Within defs
  shows : ∀ roster, s.Shows roster

namespace Coherent

theorem determined (hOwn : OwnCells defs) (h : Coherent defs s) (roster : Roster) : s.Determined roster :=
  hOwn.determined h.within roster

theorem add (hOwn : OwnCells defs) (h : Coherent defs s) (hd : d ∈ defs)
    (hQuiet : (∀ value, s.get d .any = some value → value ≤ 0) ∨ ∀ roster : Roster, roster.mirrors d = false) :
    Coherent defs (s.add d).2 := by
  refine ⟨h.attached, h.within.add hd, fun roster => (h.shows roster).add ?_⟩
  obtain hOff | hOut := hQuiet
  · exact hOwn.lists_eq_false hd .any hOff
  · rw [lists, hOut roster]
    rfl

variable [LawfulHostVariables σ]

theorem setResult (hOwn : OwnCells defs) (h : Coherent defs s) (hd : d ∈ defs) {admitted : Bool} {value : Int32}
    {outcome : Outcome} {after : Options σ} (hResult : SetResult d admitted value s (outcome, after)) :
    Coherent defs after := by
  have hShows : ∀ roster, after.Shows roster := fun roster =>
    (h.shows roster).setResult hOwn h.within h.attached hd hResult
  obtain ⟨storage, host, rfl⟩ := hResult.exists_eq
  exact ⟨h.attached, h.within, hShows⟩

theorem setInvariant (hPlain : Plain defs) : SetInvariant defs (Coherent defs (σ := σ)) where
  within _ h := h.within
  set d hd why value s h :=
    (ensures_set (hPlain.noSetter d hd) why value s).mono fun _ _ hResult =>
      h.setResult (ownCells_of_plain hPlain) hd hResult

theorem refresh (hOwn : OwnCells defs) (h : Coherent defs s) (roster : Roster) : Coherent defs (s.refresh roster) := by
  have hShows : ∀ other, (s.refresh roster).Shows other := fun other =>
    (h.shows other).refresh h.attached (h.determined hOwn other) roster
  obtain ⟨f, hf⟩ := refresh_eq_mapHost roster s
  rw [hf] at hShows ⊢
  exact ⟨h.attached, h.within, hShows⟩

theorem remove (hOwn : OwnCells defs) (h : Coherent defs s) (hd : d ∈ defs) : Coherent defs (s.remove d).2 := by
  have hShows : ∀ roster, (s.remove d).2.Shows roster := fun roster =>
    (h.shows roster).remove hOwn h.within h.attached hd
  obtain ⟨host, hRemoved⟩ := exists_remove_eq d s
  rw [hRemoved] at hShows ⊢
  exact ⟨h.attached, h.within.remove d, hShows⟩

/-! ## Return to initial values -/

/-- `after` differs from `s` in its cells, and in none of them if nothing has changed. -/
def Rewritten (s : Options σ) (nothing : Prop) (after : Options σ) : Prop :=
  ∃ storage, after = { s with storage } ∧ (nothing → ∀ cell, storage.read cell = s.storage.read cell)

omit [LawfulHostVariables σ] in
theorem ensures_toInitials (hPlain : Plain defs) {items : List (Definition σ)} (hItems : ∀ d ∈ items, d ∈ defs)
    (s : Options σ) :
    Ensures (items.foldlM (fun count d => return if ← Update.toInitial d then count + 1 else count) 0) s
      fun (count : Nat) after => Rewritten s (count = 0) after := by
  refine (Options.ensures_toInitials (hPlain.subset hItems) s 0).mono ?_
  rintro _ _ ⟨storage, changed, rfl, rfl, hRestores⟩
  rw [Nat.zero_add]
  exact ⟨storage, rfl, fun hZero => hRestores.read_eq_of_eq_zero hZero⟩

theorem allToInitial (hPlain : Plain defs) (h : Coherent defs s) (skip : Definition σ → Bool) :
    Ensures (Update.allToInitial skip) s fun _ after => Coherent defs after := by
  refine .get_bind (.bind (ensures_toInitials hPlain (fun d hd => ?_) s) ?_)
  · exact h.within.live d (List.mem_of_mem_filter hd)
  rintro count _ ⟨storage, rfl, hSame⟩
  split
  · have hDetermined : ∀ roster, Determined roster { s with storage } :=
      (ownCells_of_plain hPlain).determined h.within
    refine .bind (.modify (Q := fun _ after => Coherent defs after) ?_) fun _ _ hAfter => .pure hAfter
    have hShows : ∀ roster, (refreshAll { s with storage }).Shows roster := fun roster =>
      shows_refreshAll h.attached (hDetermined roster)
    obtain ⟨f, hf⟩ := refreshAll_eq_mapHost { s with storage }
    rw [hf] at hShows ⊢
    exact ⟨h.attached, h.within, hShows⟩
  · rename_i hZero
    refine .pure ⟨h.attached, h.within, fun roster => (h.shows roster).congr rfl ?_⟩
    refine rosterText_eq_of_get_eq rfl fun e he hMirrored => ?_
    obtain ⟨cell, hCell⟩ := h.determined (ownCells_of_plain hPlain) roster e he hMirrored
    exact hCell _ _ (hSame (Nat.eq_zero_of_not_pos hZero) cell) _ _

end Coherent

end Options

/-! ## Runs of operations -/

namespace Operation

variable [HostVariables σ]

/-- An addition is quiet unless its option is on and on a roster. The other operations are quiet. -/
def Quiet (s : Options σ) : Operation σ → Prop
  | add d => (∀ value, s.get d .any = some value → value ≤ 0) ∨ ∀ roster : Roster, roster.mirrors d = false
  | _ => True

/-- Every addition of the run is quiet when its turn comes. -/
def QuietRun : List (Operation σ) → Options σ → Prop
  | [], _ => True
  | op :: rest, s => op.Quiet s ∧ Allows op.run s fun _ after => QuietRun rest after

variable [LawfulHostVariables σ] {defs : Set (Definition σ)} {s : Options σ}

open Options

theorem coherent_run (hPlain : Plain defs) (op : Operation σ) (hOp : ∀ d, op.subject? = some d → d ∈ defs)
    (hQuiet : op.Quiet s) (h : Coherent defs s) : Ensures op.run s fun _ after => Coherent defs after := by
  have hOwn := ownCells_of_plain hPlain
  have hSet := Coherent.setInvariant hPlain
  have hDone : ∀ {α : Type} {m : Update σ α}, (Ensures m s fun _ after => Coherent defs after) →
      Ensures (do let _ ← m) s fun _ after => Coherent defs after :=
    fun hEnsures => .bind hEnsures fun _ _ hAfter => .pure hAfter
  cases op with
  | add d => exact hDone (.modifyGet (h.add hOwn (hOp d rfl) hQuiet))
  | remove d => exact hDone (.modifyGet (h.remove hOwn (hOp d rfl)))
  | resetAll => exact hDone (h.allToInitial hPlain _)
  | restartAll => exact hDone (h.allToInitial hPlain _)
  | openRosters inheriting =>
    exact hSet.openRosters inheriting h fun s hs => (hs.refresh hOwn .shellopts).refresh hOwn .bashopts
  | refresh roster => exact .modify (h.refresh hOwn roster)
  | set | setNamed | setLettered | turnFlag | reinstateFlags | inherit => exact hSet.runSetting _ rfl hOp h

theorem coherent_runAll (hPlain : Plain defs) (ops : List (Operation σ))
    (hOps : ∀ op ∈ ops, ∀ d, op.subject? = some d → d ∈ defs) (hQuiet : QuietRun ops s) (h : Coherent defs s) :
    Ensures (runAll ops) s fun _ after => Coherent defs after := by
  induction ops generalizing s with
  | nil => exact .pure h
  | cons op rest ih =>
    obtain ⟨hFirst, hRest⟩ := List.forall_mem_cons.mp hOps
    obtain ⟨_, mid, hRun, hMid⟩ := coherent_run hPlain op hFirst hQuiet.1 h
    have hStep : Ensures op.run s fun _ after => Coherent defs after ∧ QuietRun rest after :=
      ⟨_, mid, hRun, hMid, hQuiet.2 _ mid hRun⟩
    exact hStep.bind fun _ _ hAfter => ih hRest hAfter.2 hAfter.1

/-- If the variables of the rosters hold the texts of the rosters, they do so after every run of operations in which
additions are quiet. -/
theorem rosters_shown_after_operations (hPlain : Plain defs) (ops : List (Operation σ))
    (hOps : ∀ op ∈ ops, ∀ d, op.subject? = some d → d ∈ defs) (s : Options σ) (hAttached : s.attached = true)
    (hWithin : s.registry.Within defs) (hShown : ∀ roster, s.rosterValue? roster = some (s.rosterText roster))
    (hQuiet : QuietRun ops s) :
    ∃ after, runAll ops s = some ((), after) ∧
      ∀ roster, after.rosterValue? roster = some (after.rosterText roster) := by
  obtain ⟨_, after, hRun, hAfter⟩ := coherent_runAll hPlain ops hOps hQuiet ⟨hAttached, hWithin, hShown⟩
  exact ⟨after, hRun, hAfter.shows⟩

/-- A flag comes, is turned on, and goes while it is on. -/
theorem rosters_shown_after_operations_of_removed_flag :
    let flag : Definition Variables :=
      { id := 0, name? := some "xtrace", letter? := some 'x', cell? := some 0, initial? := some 0,
        inShellopts := true }
    let other : Definition Variables := { id := 1, name? := some "other", cell? := some 1 }
    let defs : Set (Definition Variables) := {flag, other}
    let ops := [add flag, setNamed "xtrace" .setO 1, add other, remove flag, restartAll]
    let s : Options Variables :=
      { host := (Variables.bind "SHELLOPTS" "" .empty).bind "BASHOPTS" "", attached := true }
    Plain defs ∧ (∀ op ∈ ops, ∀ d, op.subject? = some d → d ∈ defs) ∧ s.attached = true ∧
      s.registry.Within defs ∧ (∀ roster, s.rosterValue? roster = some (s.rosterText roster)) ∧ QuietRun ops s ∧
      ∃ after, runAll ops s = some ((), after) ∧
        ∀ roster, after.rosterValue? roster = some (after.rosterText roster) := by
  intro flag other defs ops s
  have hPlain : Plain defs := by
    constructor
    · rintro d (rfl | rfl) e (rfl | rfl) hId
      all_goals first | rfl | cases hId
    · rintro d (rfl | rfl) <;> rfl
    · rintro d (rfl | rfl) <;> rfl
    · rintro d (rfl | rfl) <;> rfl
    · rintro d (rfl | rfl) e (rfl | rfl) hCell
      all_goals first | rfl | cases hCell
  have hOps : ∀ op ∈ ops, ∀ d, op.subject? = some d → d ∈ defs := by
    simp [ops, defs, subject?]
  have hWithin : s.registry.Within defs := by
    constructor
    · intro d hd
      cases hd
    · intro letter d hd
      cases hd
  have hShown : ∀ roster, s.rosterValue? roster = some (s.rosterText roster) := by
    intro roster
    cases roster <;> rfl
  have hQuiet : QuietRun ops s := by
    refine ⟨.inl ?_, fun _ _ _ => ⟨trivial, fun _ _ _ => ⟨.inr ?_, fun _ _ _ => ?_⟩⟩⟩
    · intro value hValue
      cases hValue
      decide
    · intro roster
      cases roster <;> rfl
    · exact ⟨trivial, fun _ _ _ => ⟨trivial, fun _ _ _ => trivial⟩⟩
  exact ⟨hPlain, hOps, rfl, hWithin, hShown, hQuiet,
    rosters_shown_after_operations hPlain ops hOps s rfl hWithin hShown hQuiet⟩

end Operation

end OptionShell
