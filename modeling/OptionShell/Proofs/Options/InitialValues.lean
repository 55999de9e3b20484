import Mathlib.Data.Set.Card
import OptionShell.Options.Setter
import OptionShell.Proofs.Options.Policy
import OptionShell.Proofs.Options.RosterText
import OptionShell.Proofs.Registry.Within
import OptionShell.Variables

/-!
# What a return to initial values does

If every option has a cell of its own, a return writes each initial value into its cell and leaves the other cells
alone, whatever the change policy says. Its answer is the number of cells that got another value. So a second return
finds nothing to do, and a restart before a reset makes no difference to where the reset ends.
-/
namespace OptionShell

variable {σ : Type}

/-- The cells hold the initial values of `defs` and are otherwise as before; `count` of them have changed. -/
structure Storage.Restores (defs : List (Definition σ)) (before after : Storage) (count : Nat) : Prop where
  initial : ∀ d ∈ defs, ∀ cell value, d.cell? = some cell → d.initial? = some value → after.read cell = value
  kept : ∀ cell, (∀ d ∈ defs, d.cell? = some cell → d.initial? = none) → after.read cell = before.read cell
  changes : {cell | after.read cell ≠ before.read cell}.encard = count

namespace Storage.Restores

variable {defs first rest : List (Definition σ)} {s t u : Storage} {count more : Nat}

theorem refl (h : ∀ d ∈ defs, ∀ cell value, d.cell? = some cell → d.initial? = some value → s.read cell = value) :
    Restores defs s s 0 := by
  refine ⟨h, fun cell _ => rfl, ?_⟩
  simp

theorem exists_of_ne (h : Restores defs s t count) {cell : CellId} (hChanged : t.read cell ≠ s.read cell) :
    ∃ d ∈ defs, d.cell? = some cell ∧ d.initial? = some (t.read cell) := by
  by_contra hNone
  refine hChanged (h.kept cell fun d hd hCell => ?_)
  cases hInitial : d.initial? with
  | none => rfl
  | some value => exact absurd ⟨d, hd, hCell, h.initial d hd cell value hCell hInitial ▸ hInitial⟩ hNone

theorem read_eq_of_eq_zero (h : Restores defs s t count) (hCount : count = 0) (cell : CellId) :
    t.read cell = s.read cell := by
  have hChanges := h.changes
  rw [hCount, Nat.cast_zero, Set.encard_eq_zero] at hChanges
  by_contra hChanged
  exact Set.eq_empty_iff_forall_notMem.mp hChanges cell hChanged

theorem unchanged_once (hOwn : ∀ d ∈ first, ∀ e ∈ rest, d.cell? = e.cell? → d = e)
    (hFirst : Restores first s t count) (hRest : Restores rest t u more) (cell : CellId) :
    t.read cell = s.read cell ∨ u.read cell = t.read cell := by
  refine or_iff_not_imp_right.mpr fun hChanged => ?_
  obtain ⟨e, he, hCell, hInitial⟩ := hRest.exists_of_ne hChanged
  refine hFirst.kept cell fun d hd hShared => ?_
  obtain rfl := hOwn d hd e he (hShared.trans hCell.symm)
  exact absurd (hFirst.initial d hd cell _ hCell hInitial).symm hChanged

theorem append (hOwn : ∀ d ∈ first, ∀ e ∈ rest, d.cell? = e.cell? → d = e) (hFirst : Restores first s t count)
    (hRest : Restores rest t u more) : Restores (first ++ rest) s u (count + more) where
  initial d hd cell value hCell hInitial := by
    obtain hd | hd := List.mem_append.mp hd
    · by_cases hSame : u.read cell = t.read cell
      · exact hSame.trans (hFirst.initial d hd cell value hCell hInitial)
      · obtain ⟨e, he, hShared, hValue⟩ := hRest.exists_of_ne hSame
        obtain rfl := hOwn d hd e he (hCell.trans hShared.symm)
        exact Option.some.inj (hValue.symm.trans hInitial)
    · exact hRest.initial d hd cell value hCell hInitial
  kept cell hNone :=
    (hRest.kept cell fun d hd => hNone d (List.mem_append_right _ hd)).trans
      (hFirst.kept cell fun d hd => hNone d (List.mem_append_left _ hd))
  changes := by
    -- No cell changes both times, so the numbers of changes add up.
    have hOnce := hFirst.unchanged_once hOwn hRest
    have hUnion : {cell | u.read cell ≠ s.read cell} =
        {cell | t.read cell ≠ s.read cell} ∪ {cell | u.read cell ≠ t.read cell} := by
      ext cell
      obtain hSame | hSame := hOnce cell <;> simp [hSame]
    have hDisjoint : Disjoint {cell | t.read cell ≠ s.read cell} {cell | u.read cell ≠ t.read cell} :=
      Set.disjoint_left.mpr fun cell hChanged hAgain => (hOnce cell).elim hChanged hAgain
    rw [hUnion, Set.encard_union_eq hDisjoint, hFirst.changes, hRest.changes, Nat.cast_add]

/-- What was put back before, of the options that are put back in the end, leaves no trace. -/
theorem read_eq {t' u' : Storage} {again : Nat} (hSub : ∀ d ∈ first, d ∈ defs) (h : Restores defs s u count)
    (hFirst : Restores first s t' more) (hAgain : Restores defs t' u' again) (cell : CellId) :
    u'.read cell = u.read cell := by
  by_cases hNone : ∀ d ∈ defs, d.cell? = some cell → d.initial? = none
  · rw [hAgain.kept cell hNone, hFirst.kept cell fun d hd => hNone d (hSub d hd), h.kept cell hNone]
  · push Not at hNone
    obtain ⟨d, hd, hCell, hInitial⟩ := hNone
    obtain ⟨value, hInitial⟩ := Option.ne_none_iff_exists'.mp hInitial
    rw [hAgain.initial d hd cell value hCell hInitial, h.initial d hd cell value hCell hInitial]

theorem again_eq_zero {again : Nat} (h : Restores defs s t count) (hAgain : Restores defs t u again) : again = 0 := by
  have hNone : {cell | u.read cell ≠ t.read cell} = ∅ :=
    Set.eq_empty_of_forall_notMem fun cell hChanged => hChanged (h.read_eq (fun _ hd => hd) h hAgain cell)
  have hChanges := hAgain.changes
  rw [hNone, Set.encard_empty] at hChanges
  exact (Nat.cast_eq_zero.mp hChanges.symm)

theorem write {d : Definition σ} {cell : CellId} {value : Int32} (hCell : d.cell? = some cell)
    (hInitial : d.initial? = some value) :
    Restores [d] s (s.write cell value) (decide (s.read cell ≠ value)).toNat where
  initial e he c initial hOwn hValue := by
    obtain rfl := List.mem_singleton.mp he
    obtain rfl := Option.some.inj (hCell.symm.trans hOwn)
    rw [read_write_self]
    exact Option.some.inj (hInitial.symm.trans hValue)
  kept c hNone := by
    refine read_write_of_ne s value ?_
    rintro rfl
    exact absurd (hNone d List.mem_cons_self hCell) (by rw [hInitial]; exact Option.some_ne_none value)
  changes := by
    have hOnly : {c | (s.write cell value).read c ≠ s.read c} = {c | c = cell ∧ s.read cell ≠ value} := by
      ext c
      by_cases hc : c = cell
      · rw [hc]
        simp [eq_comm]
      · simp [read_write_of_ne s value hc, hc]
    rw [hOnly]
    by_cases hSame : s.read cell = value
    · simp [hSame]
    · simp [hSame]

end Storage.Restores

open Storage (Restores)

variable [HostVariables σ]

namespace Options

variable {s : Options σ}

theorem ensures_toInitial {d : Definition σ} (hSetter : d.setter? = none) (s : Options σ) :
    Ensures (Update.toInitial d) s fun changed after =>
      ∃ storage, after = { s with storage } ∧ Restores [d] s.storage storage changed.toNat := by
  have hNothing : (∀ cell value, d.cell? = some cell → d.initial? ≠ some value) →
      ∃ storage, s = { s with storage } ∧ Restores [d] s.storage storage 0 := by
    refine fun hNone => ⟨s.storage, rfl, .refl fun e he cell value hCell hInitial => ?_⟩
    rw [List.mem_singleton.mp he] at hCell hInitial
    exact absurd hInitial (hNone cell value hCell)
  rw [Update.toInitial, Assign.toInitial]
  cases hInitial : d.initial? with
  | none => exact .pure (hNothing fun _ _ _ => by rw [hInitial]; exact (Option.some_ne_none _).symm)
  | some initial =>
    simp only [hSetter]
    cases hCell : d.cell? with
    | none => exact .pure (hNothing fun _ _ hOwn => by rw [hCell] at hOwn; cases hOwn)
    | some cell => exact .modifyGet ⟨_, rfl, .write hCell hInitial⟩

theorem ensures_toInitial_counted {d : Definition σ} (hSetter : d.setter? = none) (s : Options σ) (count : Nat) :
    Ensures (do return if ← Update.toInitial d then count + 1 else count) s fun total after =>
      ∃ storage changed, after = { s with storage } ∧ total = count + changed ∧
        Restores [d] s.storage storage changed := by
  refine (ensures_toInitial hSetter s).bind ?_
  rintro changed _ ⟨storage, rfl, hStep⟩
  refine .pure ⟨storage, changed.toNat, rfl, ?_, hStep⟩
  cases changed <;> rfl

theorem ensures_toInitials {items : List (Definition σ)} (hPlain : Plain {d | d ∈ items}) (s : Options σ)
    (count : Nat) :
    Ensures (items.foldlM (fun count d => return if ← Update.toInitial d then count + 1 else count) count) s
      fun total after => ∃ storage changed, after = { s with storage } ∧ total = count + changed ∧
        Restores items s.storage storage changed := by
  induction items generalizing s count with
  | nil => exact .pure ⟨s.storage, 0, rfl, rfl, .refl fun _ hd => nomatch hd⟩
  | cons d rest ih =>
    rw [List.foldlM_cons]
    refine (ensures_toInitial_counted (hPlain.noSetter d List.mem_cons_self) s count).bind ?_
    rintro _ _ ⟨storage, changed, rfl, rfl, hFirst⟩
    have hRest : Plain {e | e ∈ rest} := hPlain.subset fun e he => List.mem_cons_of_mem d he
    refine (ih hRest { s with storage } (count + changed)).mono ?_
    rintro _ _ ⟨final, more, rfl, rfl, hMore⟩
    refine ⟨final, changed + more, rfl, Nat.add_assoc .., hFirst.append (fun e he e' he' => ?_) hMore⟩
    obtain rfl := List.mem_singleton.mp he
    exact hPlain.ownCells e List.mem_cons_self e' (List.mem_cons_of_mem e he')

/-- What a return of `defs` to their initial values has done, if its answer is `count`. -/
structure Returned (defs : List (Definition σ)) (s : Options σ) (count : Nat) (after : Options σ) : Prop where
  restores : Restores defs s.storage after.storage count
  kept : after = { s with storage := after.storage, host := after.host }
  /-- Without a change the variables are not refreshed. -/
  idle : count = 0 → after.host = s.host
  shown : 0 < count → s.attached = true → ∀ roster, after.rosterValue? roster = some (after.rosterText roster)

variable [LawfulHostVariables σ]

theorem ensures_allToInitial (hPlain : Plain {d | d ∈ s.registry.entries}) (skip : Definition σ → Bool) :
    Ensures (Update.allToInitial skip) s (Returned (s.registry.entries.filter fun d => !skip d) s) := by
  have hItems : Plain {d | d ∈ s.registry.entries.filter fun d => !skip d} :=
    hPlain.subset fun d hd => List.mem_of_mem_filter hd
  refine .get_bind ((ensures_toInitials hItems s 0).bind ?_)
  rintro _ _ ⟨storage, changed, rfl, rfl, hRestores⟩
  rw [Nat.zero_add]
  split
  · rename_i hChanged
    have hDetermined : ∀ roster, Determined roster { s with storage } := by
      intro roster d hd _
      obtain ⟨cell, hCell⟩ := Option.isSome_iff_exists.mp (hPlain.stored d hd)
      exact ⟨cell, .of_cell (hPlain.noGetter d hd) hCell⟩
    have hShown : s.attached = true → ∀ roster, (refreshAll { s with storage }).Shows roster :=
      fun hAttached roster => shows_refreshAll hAttached (hDetermined roster)
    obtain ⟨f, hf⟩ := refreshAll_eq_mapHost { s with storage }
    have hAfter : Returned (s.registry.entries.filter fun d => !skip d) s changed (refreshAll { s with storage }) := by
      rw [hf] at hShown ⊢
      exact ⟨hRestores, rfl, fun hZero => absurd hZero hChanged.ne', fun _ => hShown⟩
    exact .bind (.modify (Q := fun _ after => Returned _ s changed after) hAfter) fun _ _ hAfter => .pure hAfter
  · rename_i hZero
    exact .pure ⟨hRestores, rfl, fun _ => rfl, fun hPositive => absurd hPositive hZero⟩

theorem ensures_resetAll (hPlain : Plain {d | d ∈ s.registry.entries}) :
    Ensures Update.resetAll s (Returned s.registry.entries s) := by
  have hAll : Ensures Update.resetAll s (Returned (s.registry.entries.filter fun _ => true) s) :=
    ensures_allToInitial hPlain fun _ => false
  rw [List.filter_true] at hAll
  exact hAll

omit [LawfulHostVariables σ] in
theorem Returned.ensures_again {m : Update σ Nat} {defs : List (Definition σ)} {count : Nat} {after : Options σ}
    (hAgain : Ensures m after (Returned defs after)) (h : Returned defs s count after) :
    Ensures m after fun again later => again = 0 ∧ ∀ cell, later.storage.read cell = after.storage.read cell :=
  hAgain.mono fun _ _ hLater => ⟨h.restores.again_eq_zero hLater.restores,
    h.restores.read_eq (fun _ hd => hd) h.restores hLater.restores⟩

/-- A reset gives every option its initial value and touches nothing else, counts the cells that it changes, shows the
new rosters if there are any, and has nothing to do a second time. The same holds for a restart, which leaves some
options out, and a reset after a restart ends with the values of a reset. -/
theorem resets_exact_and_idempotent (s : Options σ) (hPlain : Plain {d | d ∈ s.registry.entries}) :
    ∃ changed reset, Update.resetAll s = some (changed, reset) ∧ Returned s.registry.entries s changed reset ∧
      (Ensures Update.resetAll reset fun again later =>
        again = 0 ∧ ∀ cell, later.storage.read cell = reset.storage.read cell) ∧
      ∃ count restarted, Update.restartAll s = some (count, restarted) ∧
        Returned (s.registry.entries.filter fun d => !d.keptOnRestart) s count restarted ∧
        (Ensures Update.restartAll restarted fun again later =>
          again = 0 ∧ ∀ cell, later.storage.read cell = restarted.storage.read cell) ∧
        Ensures Update.resetAll restarted fun _ later =>
          ∀ cell, later.storage.read cell = reset.storage.read cell := by
  have hEntries : ∀ {defs : List (Definition σ)} {count after}, Returned defs s count after →
      after.registry.entries = s.registry.entries := fun h => by rw [h.kept]
  have hLive : ∀ {defs : List (Definition σ)} {count after}, Returned defs s count after →
      Plain {d | d ∈ after.registry.entries} := fun h => by rw [hEntries h]; exact hPlain
  obtain ⟨changed, reset, hReset, hChanged⟩ := ensures_resetAll hPlain
  obtain ⟨count, restarted, hRestart, hRestarted⟩ := ensures_allToInitial hPlain fun d => d.keptOnRestart
  have hResetAgain := ensures_resetAll (hLive hChanged)
  rw [hEntries hChanged] at hResetAgain
  have hRestartAgain := ensures_allToInitial (hLive hRestarted) fun d => d.keptOnRestart
  rw [hEntries hRestarted] at hRestartAgain
  have hResetAfter := ensures_resetAll (hLive hRestarted)
  rw [hEntries hRestarted] at hResetAfter
  refine ⟨changed, reset, hReset, hChanged, hChanged.ensures_again hResetAgain, count, restarted, hRestart, hRestarted,
    hRestarted.ensures_again hRestartAgain, hResetAfter.mono fun _ later hLater => ?_⟩
  exact hChanged.restores.read_eq (fun d hd => List.mem_of_mem_filter hd) hRestarted.restores hLater.restores

/-- Options of each kind: read-only, fixed after the start, deaf to changes, left out at a restart, without initial
value, and one that has its initial value already. -/
theorem resets_exact_and_idempotent_of_each_kind :
    let noglob : Definition Variables :=
      { id := 0, name? := some "noglob", letter? := some 'f', cell? := some 0, initial? := some 1, inShellopts := true }
    let locked : Definition Variables :=
      { id := 1, name? := some "locked", cell? := some 1, initial? := some 2, inShellopts := true, readonly := true }
    let fixed : Definition Variables :=
      { id := 2, name? := some "fixed", cell? := some 2, initial? := some 5, fixedAfterStart := true }
    let extglob : Definition Variables :=
      { id := 3, name? := some "extglob", cell? := some 3, initial? := some 0, inBashopts := true,
        keptOnRestart := true }
    let free : Definition Variables := { id := 4, name? := some "free", cell? := some 4, inShellopts := true }
    let stubborn : Definition Variables :=
      { id := 5, letter? := some 'q', cell? := some 5, initial? := some (-1), dropsChanges := true }
    let s : Options Variables := {
      registry := Registry.empty.addEach [noglob, locked, fixed, extglob, free, stubborn]
      storage := .ofList [-3, 0, 5, 7, 9, 0, 8], host := .empty, attached := true }
    Plain {d | d ∈ s.registry.entries} ∧
      ∃ reset restarted later, Update.resetAll s = some (4, reset) ∧ Update.restartAll s = some (3, restarted) ∧
        restarted.storage.read 3 = 7 ∧ restarted.rosterValue? .shellopts = some "free:locked:noglob" ∧
        Update.resetAll reset = some (0, later) ∧ later.storage.read 3 = 0 ∧ later.storage.read 6 = 8 := by
  intro noglob locked fixed extglob free stubborn s
  have hDefs : Plain {d | d ∈ [noglob, locked, fixed, extglob, free, stubborn]} :=
    plain_of_nodup (by decide) (by decide) (by simp [noglob, locked, fixed, extglob, free, stubborn])
  have hKept : s.registry.WellKept {d | d ∈ [noglob, locked, fixed, extglob, free, stubborn]} := by
    dsimp only [s]
    exact Registry.wellKept_addEach hDefs.identified
  have hPlain : Plain {d | d ∈ s.registry.entries} := hDefs.subset hKept.within.live
  obtain ⟨changed, reset, hReset, hChanged, ⟨_, later, hLater, rfl, hSame⟩, count, restarted, hRestart, hRestarted, -⟩ :=
    resets_exact_and_idempotent s hPlain
  have hResetCount : (Update.resetAll s).map (·.1) = some 4 := by decide +kernel
  have hRestartCount : (Update.restartAll s).map (fun result => (result.1, result.2.rosterText .shellopts)) =
    some (3, "free:locked:noglob") := by decide +kernel
  rw [hReset] at hResetCount
  rw [hRestart] at hRestartCount
  obtain rfl : changed = 4 := Option.some.inj hResetCount
  obtain ⟨rfl, hText⟩ : count = 3 ∧ restarted.rosterText .shellopts = "free:locked:noglob" :=
    Prod.mk.inj (Option.some.inj hRestartCount)
  have hOthers : ∀ d ∈ s.registry.entries, d.cell? = some 3 → d.keptOnRestart = true := by decide +kernel
  obtain ⟨d, hd, hCell, hInitial⟩ : ∃ d ∈ s.registry.entries, d.cell? = some 3 ∧ d.initial? = some 0 := by
    decide +kernel
  have hUnused : ∀ d ∈ s.registry.entries, d.cell? ≠ some 6 := by decide +kernel
  refine ⟨hPlain, reset, restarted, later, hReset, hRestart, ?_, ?_, hLater, ?_, ?_⟩
  · refine (hRestarted.restores.kept 3 fun d hd hCell => ?_).trans (by decide +kernel)
    obtain ⟨hd, hLeft⟩ := List.mem_filter.mp hd
    rw [hOthers d hd hCell] at hLeft
    cases hLeft
  · rw [hRestarted.shown (by decide) rfl .shellopts, hText]
  · rw [hSame]
    exact hChanged.restores.initial d hd 3 0 hCell hInitial
  · rw [hSame, hChanged.restores.kept 6 fun d hd hCell => absurd hCell (hUnused d hd)]
    decide +kernel

end Options

end OptionShell
