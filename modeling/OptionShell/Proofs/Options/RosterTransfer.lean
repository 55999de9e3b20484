import OptionShell.Proofs.Options.Inheritance

/-!
# Transfer through a roster

The text of a roster carries the options that are on from one program to another. It reads as the names that it was
joined from, and inheriting it turns on the options of these names. Setting an option rewrites the variable that is
being inherited, but its text was read before.
-/
namespace OptionShell

variable {ρ σ : Type} {roster : Roster} {why : Access}

namespace Registry

/-- The names that a roster can hold. -/
def namesOn (roster : Roster) (r : Registry σ) : List String := (r.visible roster.listing).filterMap (·.name?)

variable {r : Registry σ} {d : Definition σ} {name : String}

theorem mem_visible_listing : d ∈ r.visible roster.listing ↔ d ∈ r.entries ∧ roster.mirrors d = true := List.mem_filter

theorem mem_namesOn_iff : name ∈ r.namesOn roster ↔ ∃ d ∈ r.visible roster.listing, d.name? = some name :=
  List.mem_filterMap

end Registry

namespace Options

variable {s : Options ρ} {t mid after : Options σ} {names : List String}

/-! ## The text and its names -/

theorem mem_rosterNames_iff_visible {name : String} : name ∈ s.rosterNames roster ↔
    ∃ d ∈ s.registry.visible roster.listing, d.name? = some name ∧ s.lists roster d = true := by
  rw [mem_rosterNames_iff]
  refine exists_congr fun d => ?_
  rw [Registry.mem_visible_listing, and_assoc, and_congr_right_iff]
  intro _
  refine ⟨fun ⟨hListed, hName⟩ => ⟨?_, hName, hListed⟩, fun ⟨_, hName, hListed⟩ => ⟨hListed, hName⟩⟩
  exact (Bool.and_eq_true_iff.mp hListed).1

theorem listedNames_rosterText (hNames : ∀ name ∈ s.registry.namesOn roster, name ≠ "" ∧ ':' ∉ name.toList) :
    listedNames (s.rosterText roster) = s.rosterNames roster := by
  have hMem : ∀ name ∈ s.rosterNames roster, name ≠ "" ∧ ':' ∉ name.toList := by
    intro name hName
    obtain ⟨d, hd, hOwn, -⟩ := mem_rosterNames_iff_visible.mp hName
    exact hNames name (Registry.mem_namesOn_iff.mpr ⟨d, hd, hOwn⟩)
  rw [rosterText, listedNames_intercalate fun name hName => (hMem name hName).2]
  exact List.filter_eq_self.mpr fun name hName => decide_eq_true (hMem name hName).1

theorem inheritedNames_of_imported [HostVariables σ] {text : String} (hAttached : t.attached = true)
    (hImported : HostVariables.lookup t.host roster.varName = some ⟨text, true, .scalar⟩) :
    t.inheritedNames roster = listedNames text := by
  rw [inheritedNames, if_pos hAttached, hImported]
  rfl

/-! ## Turning the names on -/

/-- The options of the roster are off, and the context can see them all and turn them on. -/
structure Receptive (roster : Roster) (why : Access) (t : Options σ) : Prop where
  plain : Plain {e | e ∈ t.registry.visible roster.listing}
  seen : ∀ e ∈ t.registry.visible roster.listing, why.hides e = false
  yields : ∀ e ∈ t.registry.visible roster.listing, e.yieldsTo why = true
  off : ∀ e ∈ t.registry.visible roster.listing, ∀ cell, e.cell? = some cell → t.storage.read cell = 0

/-- The options after some names were turned on: of the options of the roster, those of these names are on. -/
structure TurnedOn (roster : Roster) (t : Options σ) (names : List String) (after : Options σ) : Prop where
  registry : after.registry = t.registry
  values : ∀ e ∈ t.registry.visible roster.listing, ∀ cell, e.cell? = some cell →
    after.storage.read cell = switchValue (e.name?.any (· ∈ names))
  others : ∀ cell, (∀ e ∈ t.registry.visible roster.listing, e.cell? ≠ some cell) →
    after.storage.read cell = t.storage.read cell

namespace TurnedOn

theorem start (hReceptive : Receptive roster why t) : TurnedOn roster t [] t := by
  refine ⟨rfl, fun e he cell hCell => ?_, fun _ _ => rfl⟩
  rw [hReceptive.off e he cell hCell]
  cases e.name? <;> rfl

variable (hReceptive : Receptive roster why t) {name : String} (h : TurnedOn roster t names mid)

include h in
theorem append (hName : ∀ e ∈ t.registry.visible roster.listing, e.name? ≠ some name) :
    TurnedOn roster t (names ++ [name]) mid := by
  refine ⟨h.registry, fun e he cell hCell => ?_, h.others⟩
  rw [Inherited.any_append, decide_eq_false (hName e he), Bool.or_false, h.values e he cell hCell]

variable [HostVariables σ]

include hReceptive h in
theorem setResult {e : Definition σ} (he : e ∈ t.registry.visible roster.listing) (hName : e.name? = some name)
    {outcome : Outcome} (hResult : SetResult e true 1 mid (outcome, after)) :
    TurnedOn roster t (names ++ [name]) after := by
  -- Names and cells tell the options of the roster apart, so no other one is affected.
  refine ⟨?_, fun f hf cell hCell => ?_, fun cell hOther => ?_⟩
  · obtain ⟨storage, host, rfl⟩ := hResult.exists_eq
    exact h.registry
  · rw [Inherited.any_append]
    by_cases hSame : f = e
    · rw [hSame] at hCell ⊢
      rw [hResult.read_own hCell, decide_eq_true hName, Bool.or_true]
      rfl
    · have hApart : f.name? ≠ some name := fun hfName => hSame <|
        Registry.eq_of_name?_eq (Registry.mem_visible_listing.mp hf).1 (Registry.mem_visible_listing.mp he).1 hfName
          hName
      rw [hResult.read_of_ne fun hShared => hSame (hReceptive.plain.ownCells f hf e he (hCell.trans hShared.symm)),
        h.values f hf cell hCell, decide_eq_false hApart, Bool.or_false]
  · rw [hResult.read_of_ne (hOther e he), h.others cell hOther]

include hReceptive h in
theorem inheritName (name : String) : Ensures (Update.inheritName roster why name) mid fun answer after =>
    answer = none ∧ TurnedOn roster t (names ++ [name]) after := by
  refine ensures_inheritName (fun hPassed => ⟨rfl, h.append fun e he hName => ?_⟩) ?_
  · obtain ⟨hLive, hMirrored⟩ := Registry.mem_visible_listing.mp he
    have hOut := hPassed e (h.registry ▸ hLive) hName
    rw [hMirrored, hReceptive.seen e he] at hOut
    cases hOut
  · intro d hd hName hMirrored _
    have hMem : d ∈ t.registry.visible roster.listing := Registry.mem_visible_listing.mpr ⟨h.registry ▸ hd, hMirrored⟩
    obtain ⟨cell, hCell⟩ := Option.isSome_iff_exists.mp (hReceptive.plain.stored d hMem)
    refine (ensures_set_of_yieldsTo (hReceptive.plain.noSetter d hMem) (hReceptive.yields d hMem) hCell 1 mid).mono ?_
    rintro _ after ⟨rfl, hResult⟩
    exact ⟨rfl, h.setResult hReceptive hMem hName hResult⟩

end TurnedOn

/-- Options that are turned on by the names of another program's roster have the same roster. -/
theorem TurnedOn.rosterText_eq (hReceptive : Receptive roster why t)
    (hSame : ∀ name, name ∈ s.registry.namesOn roster ↔ name ∈ t.registry.namesOn roster)
    (h : TurnedOn roster t (s.rosterNames roster) after) : after.rosterText roster = s.rosterText roster := by
  have hLists : ∀ e ∈ t.registry.visible roster.listing, ∀ name, e.name? = some name →
      (after.lists roster e = true ↔ name ∈ s.rosterNames roster) := by
    intro e he name hName
    obtain ⟨cell, hCell⟩ := Option.isSome_iff_exists.mp (hReceptive.plain.stored e he)
    rw [lists, (Registry.mem_visible_listing.mp he).2, Bool.true_and, Options.get, hReceptive.plain.noGetter e he, hCell]
    change decide (0 < after.storage.read cell) = true ↔ _
    rw [h.values e he cell hCell, hName, Option.any_some]
    by_cases hMem : name ∈ s.rosterNames roster <;> simp [hMem, switchValue]
  refine rosterText_eq_of_mem_iff fun name => ?_
  rw [mem_rosterNames_iff_visible, h.registry]
  constructor
  · rintro ⟨e, he, hName, hListed⟩
    exact (hLists e he name hName).mp hListed
  · intro hListed
    obtain ⟨d, hd, hOwn, -⟩ := mem_rosterNames_iff_visible.mp hListed
    obtain ⟨e, he, hName⟩ := Registry.mem_namesOn_iff.mp ((hSame name).mp (Registry.mem_namesOn_iff.mpr ⟨d, hd, hOwn⟩))
    exact ⟨e, he, hName, (hLists e he name hName).mpr hListed⟩

variable [HostVariables σ]

theorem ensures_inherit_of_receptive (hReceptive : Receptive roster why t) (quiet : Bool) :
    Ensures (Update.inherit roster why quiet) t fun refusals after =>
      refusals = [] ∧ TurnedOn roster t (t.inheritedNames roster) after := by
  have hNames : Ensures ((t.inheritedNames roster).filterMapM (Update.inheritName roster why)) t fun refusals after =>
      (∀ refusal ∈ refusals, False) ∧ TurnedOn roster t ([] ++ t.inheritedNames roster) after := by
    refine .filterMapM_answers [] (fun names name mid hMid => ?_) (TurnedOn.start hReceptive)
    refine (hMid.inheritName hReceptive name).mono fun answer after hAfter => ⟨?_, hAfter.2⟩
    rintro _ rfl
    cases hAfter.1
  refine .get_bind (hNames.bind fun refusals after hAfter => .pure ⟨?_, hAfter.2⟩)
  rw [List.eq_nil_iff_forall_not_mem.mpr hAfter.1, ite_self]

/-- Inheriting the text of another program's roster turns on exactly the options that are on there, without
complaint. The rosters of both programs are then the same. -/
theorem inherit_rosterText (s : Options ρ) (t : Options σ) (roster : Roster) (quiet : Bool)
    (hNames : ∀ name ∈ s.registry.namesOn roster, name ≠ "" ∧ ':' ∉ name.toList)
    (hSame : ∀ name, name ∈ s.registry.namesOn roster ↔ name ∈ t.registry.namesOn roster)
    (hReceptive : Receptive roster roster.access t) (hAttached : t.attached = true)
    (hImported : HostVariables.lookup t.host roster.varName = some ⟨s.rosterText roster, true, .scalar⟩) :
    ∃ after, Update.inherit roster roster.access quiet t = some ([], after) ∧
      (∀ d ∈ s.registry.visible roster.listing, ∀ e ∈ t.registry.visible roster.listing, ∀ name,
        d.name? = some name → e.name? = some name → ∀ cell, e.cell? = some cell →
          after.storage.read cell = switchValue (s.lists roster d)) ∧
      (∀ cell, (∀ e ∈ t.registry.visible roster.listing, e.cell? ≠ some cell) →
        after.storage.read cell = t.storage.read cell) ∧
      after.rosterText roster = s.rosterText roster := by
  obtain ⟨_, after, hRun, rfl, hAfter⟩ := ensures_inherit_of_receptive hReceptive quiet
  rw [inheritedNames_of_imported hAttached hImported, listedNames_rosterText hNames] at hAfter
  refine ⟨after, hRun, fun d hd e he name hd' he' cell hCell => ?_, hAfter.others,
    hAfter.rosterText_eq hReceptive hSame⟩
  rw [hAfter.values e he cell hCell, he', Option.any_some]
  refine congrArg switchValue (Bool.eq_iff_iff.mpr ?_)
  rw [decide_eq_true_eq, mem_rosterNames_iff_visible]
  constructor
  · rintro ⟨f, hf, hfName, hListed⟩
    have hOne :=
      Registry.eq_of_name?_eq (Registry.mem_visible_listing.mp hd).1 (Registry.mem_visible_listing.mp hf).1 hd' hfName
    rw [hOne]
    exact hListed
  · exact fun hListed => ⟨d, hd, hd', hListed⟩

/-- The target has other cells and one more option, and one of the names begins like another. -/
theorem inherit_rosterText_of_similar_names :
    let sent : List (Definition Unit) := [
      { id := 0, name? := some "noglob", cell? := some 0, inShellopts := true },
      { id := 1, name? := some "no", cell? := some 1, inShellopts := true },
      { id := 2, name? := some "errexit", cell? := some 2, inShellopts := true }]
    let no : Definition Variables := { id := 4, name? := some "no", cell? := some 7, inShellopts := true }
    let noglob : Definition Variables :=
      { id := 3, name? := some "noglob", cell? := some 9, inShellopts := true, inBashopts := true }
    let errexit : Definition Variables :=
      { id := 5, name? := some "errexit", letter? := some 'e', cell? := some 8, inShellopts := true }
    let hidden : Definition Variables := { id := 6, name? := some "hidden", cell? := some 1, readonly := true }
    let source : Options Unit :=
      { registry := Registry.empty.addEach sent, storage := .ofList [1, 0, 1], host := () }
    let target : Options Variables := {
      registry := Registry.empty.addEach [no, noglob, errexit, hidden], storage := .ofList [5, 1],
      host := .ofEnviron [("SHELLOPTS", source.rosterText .shellopts)], attached := true }
    source.registry.Consistent ∧ target.registry.Consistent ∧
      (∀ name ∈ source.registry.namesOn .shellopts, name ≠ "" ∧ ':' ∉ name.toList) ∧
      source.registry.namesOn .shellopts = target.registry.namesOn .shellopts ∧
      Receptive .shellopts Roster.shellopts.access target ∧
      ∃ after, Update.inherit .shellopts Roster.shellopts.access false target = some ([], after) ∧
        after.rosterText .shellopts = "errexit:noglob" := by
  intro sent no noglob errexit hidden source target
  have hSource : source.registry.Consistent := by
    have hSent : Identified {d | d ∈ sent} := by
      have hNodup : (sent.map (·.id)).Nodup := by decide
      exact fun d hd e he hId => List.inj_on_of_nodup_map hNodup hd he hId
    exact (Registry.within_empty {d | d ∈ sent}).consistent_addEach hSent Registry.consistent_empty fun d hd => hd
  have hPlain : Plain {no, noglob, errexit, hidden} := by
    constructor
    · rintro d (rfl | rfl | rfl | rfl) e (rfl | rfl | rfl | rfl) hId
      all_goals first | rfl | cases hId
    · rintro d (rfl | rfl | rfl | rfl) <;> rfl
    · rintro d (rfl | rfl | rfl | rfl) <;> rfl
    · rintro d (rfl | rfl | rfl | rfl) <;> rfl
    · rintro d (rfl | rfl | rfl | rfl) e (rfl | rfl | rfl | rfl) hCell
      all_goals first | rfl | cases hCell
  have hItems : ∀ d ∈ [no, noglob, errexit, hidden], d ∈ ({no, noglob, errexit, hidden} : Set _) := by simp
  have hEmpty := Registry.within_empty ({no, noglob, errexit, hidden} : Set _)
  have hAdded : target.registry.Consistent ∧ target.registry.Within {no, noglob, errexit, hidden} := by
    -- Without this step the comparison of the registries would run the additions.
    dsimp only [target]
    exact ⟨hEmpty.consistent_addEach hPlain.identified Registry.consistent_empty hItems, hEmpty.addEach hItems⟩
  obtain ⟨hTarget, hWithin⟩ := hAdded
  have hNames : ∀ name ∈ source.registry.namesOn .shellopts, name ≠ "" ∧ ':' ∉ name.toList := by decide +kernel
  have hSame : source.registry.namesOn .shellopts = target.registry.namesOn .shellopts := by decide +kernel
  have hLive : ∀ e ∈ target.registry.visible Roster.shellopts.listing, e ∈ ({no, noglob, errexit, hidden} : Set _) :=
    fun e he => hWithin.live e (Registry.mem_visible_listing.mp he).1
  have hOff : ∀ e ∈ target.registry.visible Roster.shellopts.listing,
      e.cell?.all (fun cell => target.storage.read cell = 0) = true := by decide +kernel
  have hReceptive : Receptive .shellopts Roster.shellopts.access target := by
    refine ⟨hPlain.subset hLive, by decide +kernel, by decide +kernel, fun e he cell hCell => ?_⟩
    have hRead := hOff e he
    rw [hCell, Option.all_some, decide_eq_true_eq] at hRead
    exact hRead
  have hText : source.rosterText .shellopts = "errexit:noglob" := by decide +kernel
  have hImported : HostVariables.lookup target.host Roster.shellopts.varName =
      some ⟨source.rosterText .shellopts, true, .scalar⟩ := by decide +kernel
  obtain ⟨after, hRun, -, -, hAfter⟩ :=
    inherit_rosterText source target .shellopts false hNames (fun name => by rw [hSame]) hReceptive rfl
      hImported
  exact ⟨hSource, hTarget, hNames, hSame, hReceptive, after, hRun, hAfter.trans hText⟩

end Options

end OptionShell
