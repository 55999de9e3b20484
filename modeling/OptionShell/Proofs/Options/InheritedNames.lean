import OptionShell.Proofs.Options.RosterTransfer
import OptionShell.Proofs.Options.SavedFlags
import OptionShell.Variables

/-!
# What an inherited text says

Inheriting a text turns on the options that it names, that the roster lists, that the context shows and that the policy
lets it change. It writes no other cell. The policy refuses the rest of these names one by one, in the order of the
text. What the variables do while the text is followed makes no difference.
-/
namespace OptionShell

variable {σ : Type}

/-- What the policy answers if it refuses to change an option that reads `held?` to the value. -/
def Definition.objection? (d : Definition σ) (why : Access) (held? : Option Int32) (value : Int32) : Option Outcome :=
  if d.readonly then some .readOnly
  else if d.fixedAfterStart && !d.dropsChanges && !why.isStartup && !why.isPrivileged && held? ≠ some value then
    some .forbidden
  else none

theorem Definition.objection?_of_yieldsTo {d : Definition σ} {why : Access} (h : d.yieldsTo why = true)
    (held? : Option Int32) (value : Int32) : d.objection? why held? value = none := by
  simp only [yieldsTo, Bool.and_eq_true, Bool.not_eq_true', Bool.or_eq_true] at h
  obtain ⟨⟨hReadonly, hDrops⟩, hFixed⟩ := h
  rw [objection?, if_neg (by simp [hReadonly]), if_neg]
  obtain (hFixed | hStart) | hPrivileged := hFixed
  · simp [hFixed]
  · simp [hStart]
  · simp [hPrivileged]

namespace Options

variable {roster : Roster} {why : Access} {names : List String} {name : String} {s mid after : Options σ}
  {d : Definition σ} {cell : CellId}

/-- The refusal of an inherited name: the roster lists its option, the context shows it, and the policy objects to
turning it on. -/
def refusal? (roster : Roster) (why : Access) (s : Options σ) (name : String) : Option Refusal :=
  (s.registry.findName? name).bind fun d =>
    if roster.mirrors d && !why.hides d then
      (d.objection? why (s.get d why) 1).map fun outcome => ⟨name, outcome⟩
    else none

/-- One of the names is that of an option with this cell which the roster lists, the context shows, and the policy lets
it change. -/
def Selects (roster : Roster) (why : Access) (names : List String) (s : Options σ) (cell : CellId) : Prop :=
  ∃ d ∈ s.registry.entries, d.cell? = some cell ∧ roster.mirrors d = true ∧ why.hides d = false ∧
    d.yieldsTo why = true ∧ ∃ name ∈ names, d.name? = some name

instance : Decidable (s.Selects roster why names cell) := inferInstanceAs (Decidable (∃ d ∈ s.registry.entries, _))

theorem selects_append_iff : s.Selects roster why (names ++ [name]) cell ↔
    s.Selects roster why names cell ∨ s.Selects roster why [name] cell := by
  simp only [Selects, List.mem_append, or_and_right, exists_or, and_or_left]

theorem selects_singleton_iff (hd : d ∈ s.registry.entries) (hName : d.name? = some name) :
    s.Selects roster why [name] cell ↔
      d.cell? = some cell ∧ roster.mirrors d = true ∧ why.hides d = false ∧ d.yieldsTo why = true := by
  constructor
  · rintro ⟨e, he, hCell, hMirrored, hVisible, hYields, own, hOwn, heName⟩
    obtain rfl := List.mem_singleton.mp hOwn
    obtain rfl := Registry.eq_of_name?_eq he hd heName hName
    exact ⟨hCell, hMirrored, hVisible, hYields⟩
  · rintro ⟨hCell, hMirrored, hVisible, hYields⟩
    exact ⟨d, hd, hCell, hMirrored, hVisible, hYields, name, List.mem_singleton_self name, hName⟩

/-- The options after some names were followed: the selected cells are on, and all others are as they were. -/
structure Follows (roster : Roster) (why : Access) (names : List String) (s after : Options σ) : Prop where
  registry : after.registry = s.registry
  on : ∀ cell, s.Selects roster why names cell → after.storage.read cell = 1
  kept : ∀ cell, ¬s.Selects roster why names cell → after.storage.read cell = s.storage.read cell

namespace Follows

theorem nil (s : Options σ) : Follows roster why [] s s where
  registry := rfl
  on := by
    rintro cell ⟨d, -, -, -, -, -, name, hName, -⟩
    cases hName
  kept _ _ := rfl

theorem append (h : Follows roster why names s mid) (hName : ∀ cell, ¬s.Selects roster why [name] cell) :
    Follows roster why (names ++ [name]) s mid where
  registry := h.registry
  on cell hCell := h.on cell ((selects_append_iff.mp hCell).resolve_right (hName cell))
  kept cell hCell := h.kept cell fun hEarlier => hCell (selects_append_iff.mpr (.inl hEarlier))

/-- The values that the names lead to depend on their set only. -/
theorem read_congr {t later : Options σ} {others : List String} (h : Follows roster why names s after)
    (ht : Follows roster why others t later) (hRegistry : t.registry = s.registry) (hStorage : t.storage = s.storage)
    (hSame : ∀ name, name ∈ others ↔ name ∈ names) (cell : CellId) :
    later.storage.read cell = after.storage.read cell := by
  have hSelects : t.Selects roster why others cell ↔ s.Selects roster why names cell := by
    simp only [Selects, hRegistry, hSame]
  by_cases hCell : s.Selects roster why names cell
  · rw [h.on cell hCell, ht.on cell (hSelects.mpr hCell)]
  · rw [h.kept cell hCell, ht.kept cell fun hOther => hCell (hSelects.mp hOther), hStorage]

theorem objection?_eq (h : Follows roster why names s mid) (hPlain : Plain {d | d ∈ s.registry.entries})
    (hd : d ∈ s.registry.entries) :
    d.objection? why (mid.get d why) 1 = d.objection? why (s.get d why) 1 := by
  cases hYields : d.yieldsTo why with
  | true => rw [Definition.objection?_of_yieldsTo hYields, Definition.objection?_of_yieldsTo hYields]
  | false =>
    -- What the policy refuses keeps its value, so every occurrence of its name is refused alike.
    obtain ⟨cell, hCell⟩ := Option.isSome_iff_exists.mp (hPlain.stored d hd)
    have hUnselected : ¬s.Selects roster why names cell := by
      rintro ⟨e, he, heCell, -, -, heYields, -⟩
      obtain rfl := hPlain.ownCells e he d hd (heCell.trans hCell.symm)
      rw [hYields] at heYields
      cases heYields
    rw [get_eq_read (hPlain.noGetter d hd) hCell, get_eq_read (hPlain.noGetter d hd) hCell, h.kept cell hUnselected]

end Follows

variable [HostVariables σ]

theorem refused_applyPolicy (hCell : d.cell? = some cell) (why : Access) (value : Int32) (s : Options σ) :
    (if (s.applyPolicy d why value).1.isRefused then some (s.applyPolicy d why value).1 else none) =
      d.objection? why (s.get d why) value := by
  rw [applyPolicy, Definition.objection?, hCell]
  split
  · rfl
  · cases hFixed : d.fixedAfterStart && !why.isStartup && !why.isPrivileged with
    | false =>
      have hFree : (d.fixedAfterStart && !d.dropsChanges && !why.isStartup && !why.isPrivileged) = false := by
        rw [Bool.and_right_comm _ (!d.dropsChanges), Bool.and_right_comm _ (!d.dropsChanges), hFixed, Bool.false_and]
      rw [hFree]
      cases d.dropsChanges <;> rfl
    | true =>
      rw [Bool.and_right_comm _ (!d.dropsChanges), Bool.and_right_comm _ (!d.dropsChanges), hFixed]
      by_cases hHeld : s.get d why = some value
      · simp [hHeld, Outcome.isRefused, Outcome.isAccepted]
      · cases d.dropsChanges <;> simp [hHeld, Outcome.isRefused, Outcome.isAccepted]

theorem ensures_set_objection (hSetter : d.setter? = none) (hCell : d.cell? = some cell) (why : Access) (value : Int32)
    (s : Options σ) : Ensures (Update.set d why value) s fun outcome after =>
      SetResult d (d.yieldsTo why) value s (outcome, after) ∧
        (if outcome.isRefused then some outcome else none) = d.objection? why (s.get d why) value :=
  ⟨(s.applyPolicy d why value).1, (s.applyPolicy d why value).2, Update.set_of_setter?_eq_none hSetter why value s,
    setResult_applyPolicy d why value s, refused_applyPolicy hCell why value s⟩

namespace Follows

theorem setResult (h : Follows roster why names s mid) (hd : d ∈ s.registry.entries) (hName : d.name? = some name)
    (hMirrored : roster.mirrors d = true) (hVisible : why.hides d = false) {outcome : Outcome}
    (hResult : SetResult d (d.yieldsTo why) 1 mid (outcome, after)) : Follows roster why (names ++ [name]) s after := by
  have hSelects : ∀ cell, s.Selects roster why [name] cell ↔ d.cell? = some cell ∧ d.yieldsTo why = true := by
    intro cell
    rw [selects_singleton_iff hd hName, hMirrored, hVisible]
    simp only [true_and]
  cases hYields : d.yieldsTo why with
  | false =>
    rw [hYields] at hResult
    rw [hResult.eq_of_not_admitted]
    refine h.append fun cell hCell => ?_
    rw [hSelects, hYields] at hCell
    cases hCell.2
  | true =>
    rw [hYields] at hResult
    simp only [hYields, and_true] at hSelects
    refine ⟨?_, fun cell hCell => ?_, fun cell hCell => ?_⟩
    · obtain ⟨storage, host, rfl⟩ := hResult.exists_eq
      exact h.registry
    · by_cases hOwn : d.cell? = some cell
      · exact hResult.read_own hOwn
      · rw [hResult.read_of_ne hOwn]
        exact h.on cell ((selects_append_iff.mp hCell).resolve_right fun hNew => hOwn ((hSelects cell).mp hNew))
    · rw [selects_append_iff, not_or, hSelects] at hCell
      rw [hResult.read_of_ne hCell.2, h.kept cell hCell.1]

theorem inheritName (hPlain : Plain {d | d ∈ s.registry.entries}) (h : Follows roster why names s mid) (name : String) :
    Ensures (Update.inheritName roster why name) mid fun answer after =>
      answer = s.refusal? roster why name ∧ Follows roster why (names ++ [name]) s after := by
  refine ensures_inheritName (fun hPassed => ⟨?_, h.append ?_⟩) ?_
  · rw [refusal?]
    cases hFound : s.registry.findName? name with
    | none => rfl
    | some d =>
      obtain ⟨hd, hName⟩ := (Registry.findName?_eq_some_iff _ name).mp hFound
      rw [Option.bind_some, hPassed d (h.registry ▸ hd) hName]
      rfl
  · rintro cell ⟨e, he, -, hMirrored, hVisible, -, own, hOwn, hName⟩
    obtain rfl := List.mem_singleton.mp hOwn
    have hOut := hPassed e (h.registry ▸ he) hName
    rw [hMirrored, hVisible] at hOut
    cases hOut
  · intro d hLive hName hMirrored hVisible
    have hd : d ∈ s.registry.entries := h.registry ▸ hLive
    have hFound := (Registry.findName?_eq_some_iff _ name).mpr ⟨hd, hName⟩
    obtain ⟨cell, hCell⟩ := Option.isSome_iff_exists.mp (hPlain.stored d hd)
    refine (ensures_set_objection (hPlain.noSetter d hd) hCell why 1 mid).mono ?_
    rintro outcome after ⟨hResult, hObjection⟩
    refine ⟨?_, h.setResult hd hName hMirrored hVisible hResult⟩
    rw [refusal?, hFound, Option.bind_some, hMirrored, hVisible, ← h.objection?_eq hPlain hd, ← hObjection]
    cases outcome.isRefused <;> rfl

end Follows

/-- Inheriting an imported text turns on exactly the options that it names, where the roster lists them, the context
shows them and the policy lets it. The refusals are those of its names, in order and as often as they occur. Another
text with the same names leads to the same values. -/
theorem inherit_of_imported (roster : Roster) (why : Access) (quiet : Bool) (s : Options σ) (text : String)
    (hPlain : Plain {d | d ∈ s.registry.entries}) (hAttached : s.attached = true)
    (hImported : HostVariables.lookup s.host roster.varName = some ⟨text, true, .scalar⟩) :
    ∃ after, Update.inherit roster why quiet s =
        some (if quiet then [] else (listedNames text).filterMap (s.refusal? roster why), after) ∧
      Follows roster why (listedNames text) s after ∧
      ∀ (t : Options σ) (other : String) (silent : Bool), t.registry = s.registry → t.storage = s.storage →
        t.attached = true → HostVariables.lookup t.host roster.varName = some ⟨other, true, .scalar⟩ →
        (∀ name, name ∈ listedNames other ↔ name ∈ listedNames text) →
        ∃ refusals later, Update.inherit roster why silent t = some (refusals, later) ∧
          ∀ cell, later.storage.read cell = after.storage.read cell := by
  have hRun : ∀ (t : Options σ) (text : String) (quiet : Bool), t.registry = s.registry → t.attached = true →
      HostVariables.lookup t.host roster.varName = some ⟨text, true, .scalar⟩ →
      Ensures (Update.inherit roster why quiet) t fun refusals after =>
        refusals = (if quiet then [] else (listedNames text).filterMap (t.refusal? roster why)) ∧
          Follows roster why (listedNames text) t after := by
    intro t text quiet hRegistry hAttached hImported
    have hNames : Ensures ((t.inheritedNames roster).filterMapM (Update.inheritName roster why)) t fun refusals after =>
        refusals = (t.inheritedNames roster).filterMap (t.refusal? roster why) ∧
          Follows roster why ([] ++ t.inheritedNames roster) t after :=
      .filterMapM_eq (I := fun names after => Follows roster why names t after) [] (fun names name mid hMid =>
        hMid.inheritName (hRegistry ▸ hPlain) name) (.nil t)
    rw [inheritedNames_of_imported hAttached hImported] at hNames
    refine .get_bind ?_
    rw [inheritedNames_of_imported hAttached hImported]
    refine hNames.bind ?_
    rintro _ after ⟨rfl, hAfter⟩
    exact .pure ⟨rfl, hAfter⟩
  obtain ⟨_, after, hAfter, rfl, hFollows⟩ := hRun s text quiet rfl hAttached hImported
  refine ⟨after, hAfter, hFollows, fun t other silent hRegistry hStorage hAttached hImported hSame => ?_⟩
  obtain ⟨refusals, later, hLater, -, hOther⟩ := hRun t other silent hRegistry hAttached hImported
  exact ⟨refusals, later, hLater, hFollows.read_congr hOther hRegistry hStorage hSame⟩

/-- The text has empty pieces, names twice, and names of each kind that is passed over or refused. -/
theorem inherit_of_imported_with_repetitions :
    let noglob : Definition Variables := { id := 0, name? := some "noglob", cell? := some 0, inShellopts := true }
    let locked : Definition Variables :=
      { id := 1, name? := some "locked", cell? := some 1, inShellopts := true, readonly := true }
    let fixed : Definition Variables :=
      { id := 2, name? := some "fixed", cell? := some 2, inShellopts := true, fixedAfterStart := true }
    let stubborn : Definition Variables :=
      { id := 3, name? := some "stubborn", cell? := some 3, inShellopts := true, dropsChanges := true }
    let hidden : Definition Variables :=
      { id := 4, name? := some "hidden", cell? := some 4, inShellopts := true, hiddenFromSet := true }
    let extglob : Definition Variables := { id := 5, name? := some "extglob", cell? := some 5, inBashopts := true }
    let text := "locked::noglob:fixed:bogus:extglob:hidden:stubborn:locked:noglob:"
    let s : Options Variables := {
      registry := Registry.empty.addEach [noglob, locked, fixed, stubborn, hidden, extglob]
      storage := .ofList [-3, 0, 7, 0, 0, 0, 5], host := .ofEnviron [("SHELLOPTS", text)], attached := true }
    s.registry.Consistent ∧ Plain {d | d ∈ s.registry.entries} ∧ s.attached = true ∧
      HostVariables.lookup s.host Roster.shellopts.varName = some ⟨text, true, .scalar⟩ ∧
      ∃ after, Update.inherit .shellopts .setO false s =
          some ([⟨"locked", .readOnly⟩, ⟨"fixed", .forbidden⟩, ⟨"locked", .readOnly⟩], after) ∧
        after.storage.read 0 = 1 ∧ ∀ cell, cell ≠ 0 → after.storage.read cell = s.storage.read cell := by
  intro noglob locked fixed stubborn hidden extglob text s
  have hPlain : Plain {d | d ∈ [noglob, locked, fixed, stubborn, hidden, extglob]} :=
    plain_of_nodup (by decide) (by decide) (by simp [noglob, locked, fixed, stubborn, hidden, extglob])
  have hKept : s.registry.WellKept {d | d ∈ [noglob, locked, fixed, stubborn, hidden, extglob]} := by
    dsimp only [s]
    exact Registry.wellKept_addEach hPlain.identified
  have hLive : Plain {d | d ∈ s.registry.entries} := hPlain.subset hKept.within.live
  have hImported : HostVariables.lookup s.host Roster.shellopts.varName = some ⟨text, true, .scalar⟩ := by
    decide +kernel
  obtain ⟨after, hRun, hAfter, -⟩ :=
    inherit_of_imported .shellopts .setO false s text hLive rfl hImported
  have hRefusals : (listedNames text).filterMap (s.refusal? .shellopts .setO) =
      [⟨"locked", .readOnly⟩, ⟨"fixed", .forbidden⟩, ⟨"locked", .readOnly⟩] := by decide +kernel
  rw [if_neg Bool.false_ne_true, hRefusals] at hRun
  have hOthers : ∀ d ∈ s.registry.entries, d.cell? = some 0 ∨ Roster.shellopts.mirrors d = false ∨
      Access.setO.hides d = true ∨ d.yieldsTo .setO = false := by decide +kernel
  refine ⟨hKept.consistent, hLive, rfl, hImported, after, hRun, hAfter.on 0 (by decide +kernel), ?_⟩
  refine fun cell hCell => hAfter.kept cell ?_
  rintro ⟨d, hd, hOwn, hMirrored, hVisible, hYields, -⟩
  obtain hZero | hOut | hHidden | hRefused := hOthers d hd
  · exact hCell (Option.some.inj (hOwn.symm.trans hZero))
  · exact Bool.false_ne_true (hOut.symm.trans hMirrored)
  · exact Bool.false_ne_true (hVisible.symm.trans hHidden)
  · exact Bool.false_ne_true (hRefused.symm.trans hYields)

end Options

end OptionShell
