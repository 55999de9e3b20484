import OptionShell.Proofs.Options.Inheritance
import OptionShell.Proofs.Options.RosterCoherence
import OptionShell.Proofs.Options.RosterTransfer

/-!
# Inheriting both rosters

The rosters are inherited one after the other. If the first one turns on an option that the second one lists as well,
the variable of the second one is written before it is read, and the names in it are forgotten.
-/
namespace OptionShell

variable {σ : Type} {defs : Set (Definition σ)} {roster other : Roster} {why : Access} {s mid after : Options σ}
  {names : List String} {d : Definition σ}

/-- Whether inheriting the roster in this context turns the option on. -/
abbrev Turnable (roster : Roster) (why : Access) (d : Definition σ) : Bool :=
  Inheritable (fun d why _ => d.yieldsTo why) roster why d

/-- Inheriting these names changes an option that the other roster lists as well. -/
def Crosses (roster other : Roster) (why : Access) (s : Options σ) (names : List String) : Prop :=
  ∃ d ∈ s.registry.entries, Turnable roster why d = true ∧ other.mirrors d = true ∧
    d.name?.any (· ∈ names) = true ∧ ∃ cell, d.cell? = some cell ∧ s.storage.read cell ≠ 1

/-- The variables of the rosters are kept up to date, and the registry is well kept. -/
structure Kept (defs : Set (Definition σ)) (s : Options σ) : Prop where
  attached : s.attached = true
  registry : s.registry.WellKept defs

variable [HostVariables σ]

theorem setRules_kept (hPlain : Plain defs) : SetRules defs (fun d why _ => d.yieldsTo why) (Kept defs) where
  within _ h := h.registry.within
  consistent _ h := h.registry.consistent
  cells d hd e he cell hCell hShared := hPlain.ownCells d hd e he (hCell.trans hShared.symm)
  set d hd why value s h :=
    (Options.ensures_set (hPlain.noSetter d hd) why value s).mono fun outcome after hResult => by
      refine ⟨hResult, ?_⟩
      obtain ⟨storage, host, rfl⟩ := hResult.exists_eq
      exact ⟨h.attached, h.registry⟩

/-- The options after some names of one roster were inherited, and what this did to the variable of the other. -/
structure Reflected (roster other : Roster) (why : Access) (s : Options σ) (names : List String)
    (after : Options σ) : Prop where
  inherited : Inherited (fun d why _ => d.yieldsTo why) roster why s names after
  kept : ¬Crosses roster other why s names →
    HostVariables.lookup after.host other.varName = HostVariables.lookup s.host other.varName
  rewritten : Crosses roster other why s names → after.Shows other

namespace Reflected

/-- A name whose option was on already, or that has none, adds nothing. -/
theorem crosses_append_iff (h : Reflected roster other why s names mid) {name : String}
    (hOn : ∀ d ∈ s.registry.entries, d.name? = some name → Turnable roster why d = true → other.mirrors d = true →
      ∀ cell, d.cell? = some cell → mid.storage.read cell = 1) :
    Crosses roster other why s (names ++ [name]) ↔ Crosses roster other why s names := by
  constructor
  · rintro ⟨d, hd, hTurnable, hMirrored, hNamed, cell, hCell, hOff⟩
    rw [Inherited.any_append, Bool.or_eq_true, decide_eq_true_eq] at hNamed
    obtain hNamed | hName := hNamed
    · exact ⟨d, hd, hTurnable, hMirrored, hNamed, cell, hCell, hOff⟩
    · have hValue := h.inherited.values d hd cell hCell
      rw [hOn d hd hName hTurnable hMirrored cell hCell] at hValue
      cases hEarlier : d.name?.any (· ∈ names) with
      | true => exact ⟨d, hd, hTurnable, hMirrored, hEarlier, cell, hCell, hOff⟩
      | false =>
        rw [hEarlier, Bool.and_false] at hValue
        exact absurd hValue.symm hOff
  · rintro ⟨d, hd, hTurnable, hMirrored, hNamed, hOff⟩
    refine ⟨d, hd, hTurnable, hMirrored, ?_, hOff⟩
    rw [Inherited.any_append, hNamed, Bool.true_or]

theorem append (h : Reflected roster other why s names mid) {name : String}
    (hInherited : Inherited (fun d why _ => d.yieldsTo why) roster why s (names ++ [name]) after)
    (hOn : ∀ d ∈ s.registry.entries, d.name? = some name → Turnable roster why d = true → other.mirrors d = true →
      ∀ cell, d.cell? = some cell → mid.storage.read cell = 1)
    (hKept : HostVariables.lookup after.host other.varName = HostVariables.lookup mid.host other.varName)
    (hShows : mid.Shows other → after.Shows other) : Reflected roster other why s (names ++ [name]) after where
  inherited := hInherited
  kept hNone := hKept.trans (h.kept fun hCrosses => hNone ((h.crosses_append_iff hOn).mpr hCrosses))
  rewritten hCrosses := hShows (h.rewritten ((h.crosses_append_iff hOn).mp hCrosses))

variable [LawfulHostVariables σ]

theorem setResult (hPlain : Plain defs) (hs : Kept defs s) (h : Reflected roster other why s names mid)
    (hMid : Kept defs mid) (hd : d ∈ s.registry.entries) {name : String} (hName : d.name? = some name)
    (hMirrored : roster.mirrors d = true) (hVisible : why.hides d = false) {outcome : Outcome}
    (hResult : Options.SetResult d (d.yieldsTo why) 1 mid (outcome, after)) :
    Reflected roster other why s (names ++ [name]) after := by
  have hInherited := h.inherited.setResult (setRules_kept hPlain) hs hd hName hMirrored hVisible hResult
  have hOwner : ∀ e ∈ s.registry.entries, e.name? = some name → e = d := fun e he heName =>
    Registry.eq_of_name?_eq he hd heName hName
  have hTurnable : Turnable roster why d = d.yieldsTo why := by
    rw [Turnable, Inheritable, hMirrored, hVisible]
    rfl
  have hFamily : d ∈ defs := hs.registry.within.live d hd
  have hOwn := Options.ownCells_of_plain hPlain
  have hShows : mid.Shows other → after.Shows other := fun hShown =>
    hShown.setResult hOwn hMid.registry.within hMid.attached hFamily hResult
  cases hResult with
  | kept outcome hOutcome hOn =>
    refine h.append hInherited (fun e he heName heTurnable _ cell hCell => ?_) rfl id
    rw [hOwner e he heName] at heTurnable hCell
    exact hOn (hTurnable ▸ heTurnable) cell hCell
  | same own hAdmitted hOwnCell hValue =>
    refine h.append hInherited (fun e he heName _ _ cell hCell => ?_) rfl hShows
    rw [hOwner e he heName, hOwnCell] at hCell
    exact Option.some.inj hCell ▸ hValue
  | changed own hAdmitted hOwnCell hValue =>
    cases hOther : other.mirrors d with
    | false =>
      refine h.append hInherited (fun e he heName _ heOther => ?_) (Options.lookup_refreshFor hOther _) hShows
      rw [hOwner e he heName, hOther] at heOther
      cases heOther
    | true =>
      -- The option was not among the names so far, so this is its first change.
      have hCrosses : Crosses roster other why s (names ++ [name]) := by
        refine ⟨d, hd, hTurnable.trans hAdmitted, hOther, ?_, own, hOwnCell, ?_⟩
        · rw [Inherited.any_append, decide_eq_true hName, Bool.or_true]
        · have hRead := h.inherited.values d hd own hOwnCell
          intro hOn
          rw [hOn, ite_self] at hRead
          exact hValue hRead
      refine ⟨hInherited, fun hNone => absurd hCrosses hNone, fun _ => ?_⟩
      refine Options.shows_refreshFor hMid.attached (hOwn.determined hMid.registry.within other) fun hOut => ?_
      rw [hOther] at hOut
      cases hOut

theorem inheritName (hPlain : Plain defs) (hs : Kept defs s) (name : String)
    (h : Reflected roster other why s names mid) (hMid : Kept defs mid) :
    Ensures (Update.inheritName roster why name) mid fun _ after =>
      Reflected roster other why s (names ++ [name]) after ∧ Kept defs after := by
  have hRules := setRules_kept hPlain
  refine ensures_inheritName (fun hPassed => ⟨?_, hMid⟩) ?_
  · have hOut : ∀ d ∈ s.registry.entries, d.name? = some name → Turnable roster why d = false := by
      intro d hd hName
      rw [Turnable, Inheritable, hPassed d (h.inherited.registry ▸ hd) hName, Bool.false_and]
    refine h.append (h.inherited.append hOut) (fun d hd hName hTurnable => ?_) rfl id
    rw [hOut d hd hName] at hTurnable
    cases hTurnable
  · intro d hd hName hMirrored hVisible
    refine (hRules.set d (hMid.registry.within.live d hd) why 1 mid hMid).mono fun outcome after hAfter => ?_
    exact ⟨h.setResult hPlain hs hMid (h.inherited.registry ▸ hd) hName hMirrored hVisible hAfter.1, hAfter.2⟩

end Reflected

variable [LawfulHostVariables σ]

theorem ensures_inherit_reflected (hPlain : Plain defs) (other : Roster) (quiet : Bool) (hs : Kept defs s) :
    Ensures (Update.inherit roster why quiet) s fun _ after =>
      Reflected roster other why s (s.inheritedNames roster) after ∧ Kept defs after := by
  have hStart : Reflected roster other why s [] s := by
    refine ⟨⟨rfl, fun d _ cell _ => ?_, fun _ _ => rfl⟩, fun _ => rfl, ?_⟩
    · cases d.name? <;> simp
    · rintro ⟨d, -, -, -, hNamed, -⟩
      cases hName : d.name? <;> simp [hName] at hNamed
  have hNames : Ensures ((s.inheritedNames roster).filterMapM (Update.inheritName roster why)) s fun _ after =>
      Reflected roster other why s ([] ++ s.inheritedNames roster) after ∧ Kept defs after :=
    .filterMapM (I := fun names after => Reflected roster other why s names after ∧ Kept defs after) []
      (fun names name mid hMid => hMid.1.inheritName hPlain hs name hMid.2) ⟨hStart, hs⟩
  exact .get_bind (hNames.bind fun _ _ hAfter => .pure hAfter)

/-! ## Which options are on -/

namespace Options

omit [HostVariables σ] [LawfulHostVariables σ] in
theorem isOn_eq_read (hGetter : d.getter? = none) {cell : CellId} (hCell : d.cell? = some cell) (s : Options σ)
    (why : Access) : s.isOn d why = decide (s.storage.read cell ≠ 0) := by
  rw [isOn, get, hGetter, hCell]
  rfl

omit [HostVariables σ] [LawfulHostVariables σ] in
theorem isOn_of_lists (h : s.lists roster d = true) : s.isOn d roster.access = true := by
  rw [lists, Bool.and_eq_true] at h
  obtain ⟨value, hValue, hPositive⟩ := (Option.any_eq_true _ _).mp h.2
  refine (Option.any_eq_true _ _).mpr ⟨value, hValue, ?_⟩
  rw [decide_eq_true_eq] at hPositive ⊢
  rintro rfl
  exact absurd hPositive (by decide)

end Options

omit [LawfulHostVariables σ] in
theorem Inherited.isOn_eq {admits : Definition σ → Access → Int32 → Bool}
    (h : Inherited admits roster why s names after) (hd : d ∈ s.registry.entries) (hGetter : d.getter? = none)
    (hCell : d.cell?.isSome) (ctx : Access) :
    after.isOn d ctx = (Inheritable admits roster why d && d.name?.any (· ∈ names) || s.isOn d ctx) := by
  obtain ⟨cell, hCell⟩ := Option.isSome_iff_exists.mp hCell
  rw [Options.isOn_eq_read hGetter hCell, Options.isOn_eq_read hGetter hCell, h.values d hd cell hCell]
  cases Inheritable admits roster why d && d.name?.any (· ∈ names) <;> rfl

/-- Opening the rosters inherits the names that the second variable holds after the first one was inherited. -/
theorem ensures_openRosters (hPlain : Plain defs) (hs : Kept defs s) :
    Ensures (Update.openRosters true) s fun _ after => ∃ mid,
      Reflected .shellopts .bashopts .setO s (s.inheritedNames .shellopts) mid ∧ Kept defs mid ∧
        ∀ d ∈ s.registry.entries, ∀ why, after.isOn d why =
          (Turnable .bashopts .shopt d && d.name?.any (· ∈ mid.inheritedNames .bashopts) || mid.isOn d why) := by
  rw [Update.openRosters_true]
  refine .bind (ensures_inherit_reflected hPlain .bashopts true hs) fun _ mid hMid => ?_
  refine .bind (ensures_inherit (setRules_kept hPlain) .bashopts _ true hMid.2) fun _ opened hOpened => ?_
  refine .modify ⟨mid, hMid.1, hMid.2, fun d hd why => ?_⟩
  have hFamily : d ∈ defs := hs.registry.within.live d hd
  have hOn := hOpened.1.isOn_eq (hMid.1.inherited.registry ▸ hd) (hPlain.noGetter d hFamily)
    (hPlain.stored d hFamily) why
  refine Eq.trans ?_ hOn
  obtain ⟨f, hf⟩ := Options.refreshAll_eq_mapHost opened
  obtain ⟨cell, hCell⟩ := Option.isSome_iff_exists.mp (hPlain.stored d hFamily)
  rw [hf, Options.isOn_eq_read (hPlain.noGetter d hFamily) hCell, Options.isOn_eq_read (hPlain.noGetter d hFamily) hCell]
  rfl

/-- Names of the first roster are always honoured. Names of the second one are honoured unless the first one changes
an option of both. If it does, an option is on afterwards exactly if it was on before or the first roster names it. -/
theorem inherited_names_on (hPlain : Plain defs) (s : Options σ) (first second : String) (hs : Kept defs s)
    (hFree : ∀ d ∈ s.registry.entries, d.readonly = false ∧ d.fixedAfterStart = false ∧ d.dropsChanges = false)
    (hFirst : HostVariables.lookup s.host "SHELLOPTS" = some ⟨first, true, .scalar⟩)
    (hSecond : HostVariables.lookup s.host "BASHOPTS" = some ⟨second, true, .scalar⟩) :
    ∃ after, Update.openRosters true s = some ((), after) ∧
      (∀ d ∈ s.registry.entries, ∀ name ∈ listedNames first, d.name? = some name → d.inShellopts = true →
        d.hiddenFromSet = false → ∀ why, after.isOn d why = true) ∧
      (¬Crosses .shellopts .bashopts .setO s (listedNames first) →
        ∀ d ∈ s.registry.entries, ∀ name ∈ listedNames second, d.name? = some name → d.inBashopts = true →
          d.hiddenFromShopt = false → ∀ why, after.isOn d why = true) ∧
      (Crosses .shellopts .bashopts .setO s (listedNames first) →
        (∀ d ∈ s.registry.entries, ∀ name, d.name? = some name → ':' ∉ name.toList) →
        ∀ d ∈ s.registry.entries, ∀ why, after.isOn d why =
          (d.inShellopts && !d.hiddenFromSet && d.name?.any (· ∈ listedNames first) || s.isOn d why)) := by
  have hFamily : ∀ d ∈ s.registry.entries, d ∈ defs := hs.registry.within.live
  have hYields : ∀ d ∈ s.registry.entries, ∀ why, d.yieldsTo why = true := by
    intro d hd why
    obtain ⟨hReadonly, hFixed, hDrops⟩ := hFree d hd
    rw [Definition.yieldsTo, hReadonly, hFixed, hDrops]
    rfl
  obtain ⟨_, after, hRun, mid, hReflected, hMid, hAfter⟩ := ensures_openRosters hPlain hs
  have hNames : s.inheritedNames .shellopts = listedNames first := Options.inheritedNames_of_imported hs.attached hFirst
  rw [hNames] at hReflected
  have hBefore : ∀ d ∈ s.registry.entries, ∀ why, mid.isOn d why =
      (d.inShellopts && !d.hiddenFromSet && d.name?.any (· ∈ listedNames first) || s.isOn d why) := by
    intro d hd why
    rw [hReflected.inherited.isOn_eq hd (hPlain.noGetter d (hFamily d hd)) (hPlain.stored d (hFamily d hd)),
      Inheritable, Roster.mirrors_shellopts, hYields d hd, Bool.and_true]
    rfl
  refine ⟨after, hRun, fun d hd name hListed hName hMirrored hVisible why => ?_,
    fun hNone d hd name hListed hName hMirrored hVisible why => ?_, fun hCrosses hColons d hd why => ?_⟩
  · have hNamed : d.name?.any (· ∈ listedNames first) = true := by
      rw [hName, Option.any_some, decide_eq_true hListed]
    rw [hAfter d hd, hBefore d hd, hMirrored, hVisible, hNamed]
    exact Bool.or_true _
  · have hNamed : d.name?.any (· ∈ listedNames second) = true := by
      rw [hName, Option.any_some, decide_eq_true hListed]
    have hTurnable : Turnable .bashopts .shopt d = true := by
      rw [Turnable, Inheritable, Roster.mirrors_bashopts, hYields d hd, hMirrored]
      change (!d.hiddenFromShopt && true) = true
      rw [hVisible]
      rfl
    rw [hAfter d hd, Options.inheritedNames_of_imported hMid.attached ((hReflected.kept hNone).trans hSecond), hNamed,
      hTurnable]
    rfl
  · rw [hAfter d hd, ← hBefore d hd]
    have hRegistry := hReflected.inherited.registry
    cases hTurned : Turnable .bashopts .shopt d && d.name?.any (· ∈ mid.inheritedNames .bashopts) with
    | false => rfl
    | true =>
      -- The second variable holds names of options that are on.
      rw [Bool.and_eq_true] at hTurned
      obtain ⟨name, hName, hListed⟩ := (Option.any_eq_true _ _).mp hTurned.2
      have hShown := Options.mem_rosterNames_of_inherited (hReflected.rewritten hCrosses) (hRegistry ▸ hColons)
        (of_decide_eq_true hListed)
      obtain ⟨e, he, hLists, heName⟩ := Options.mem_rosterNames_iff.mp hShown
      obtain rfl := Registry.eq_of_name?_eq (hRegistry ▸ he) hd heName hName
      obtain ⟨cell, hCell⟩ := Option.isSome_iff_exists.mp (hPlain.stored e (hFamily e hd))
      have hOn := Options.isOn_of_lists hLists
      rw [Options.isOn_eq_read (hPlain.noGetter e (hFamily e hd)) hCell] at hOn ⊢
      rw [hOn]
      rfl

/-! ## Two programs at the start -/

omit [HostVariables σ] [LawfulHostVariables σ] in
theorem kept_addEach {items : List (Definition σ)} (hPlain : Plain {d | d ∈ items}) (hAttached : s.attached = true)
    (hRegistry : s.registry = Registry.empty.addEach items) : Kept {d | d ∈ items} s := by
  refine ⟨hAttached, ?_⟩
  rw [hRegistry]
  exact (Registry.wellKept_empty _).addEach hPlain.identified fun d hd => hd

omit [HostVariables σ] [LawfulHostVariables σ] in
theorem Kept.live_of_id (h : Kept defs s) (hPlain : Plain defs) (hd : d ∈ defs)
    (hId : s.registry.entries.any (·.id = d.id) = true) : d ∈ s.registry.entries := by
  obtain ⟨e, he, hSame⟩ := List.any_eq_true.mp hId
  obtain rfl := hPlain.identified e (h.registry.within.live e he) d hd (of_decide_eq_true hSame)
  exact he

/-- The first roster turns on `second`, which the other one does not list, and `both` is on already. -/
theorem inherited_names_on_of_shared_option :
    let both : Definition Variables :=
      { id := 0, name? := some "both", cell? := some 0, inShellopts := true, inBashopts := true }
    let first : Definition Variables := { id := 1, name? := some "first", cell? := some 1, inShellopts := true }
    let second : Definition Variables := { id := 2, name? := some "second", cell? := some 2, inBashopts := true }
    let s : Options Variables := {
      registry := Registry.empty.addEach [both, first, second], storage := .ofList [1],
      host := .ofEnviron [("SHELLOPTS", "first:both"), ("BASHOPTS", "second")], attached := true }
    Plain {d | d ∈ [both, first, second]} ∧ Kept {d | d ∈ [both, first, second]} s ∧
      ¬Crosses .shellopts .bashopts .setO s (listedNames "first:both") ∧
      ∃ after, Update.openRosters true s = some ((), after) ∧
        after.isOn first .setO = true ∧ after.isOn second .shopt = true := by
  intro both first second s
  have hPlain : Plain {d | d ∈ [both, first, second]} := plain_of_nodup (by decide) (by decide) (by decide)
  have hKept : Kept {d | d ∈ [both, first, second]} s := kept_addEach hPlain rfl (by dsimp only [s])
  have hFree : ∀ d ∈ s.registry.entries, d.readonly = false ∧ d.fixedAfterStart = false ∧ d.dropsChanges = false := by
    decide +kernel
  have hOn : ∀ d ∈ s.registry.entries, Turnable .shellopts .setO d = true → Roster.bashopts.mirrors d = true →
      d.cell?.all (s.storage.read · = 1) = true := by decide +kernel
  have hNone : ¬Crosses .shellopts .bashopts .setO s (listedNames "first:both") := by
    rintro ⟨d, hd, hTurnable, hMirrored, -, cell, hCell, hOff⟩
    have hRead := hOn d hd hTurnable hMirrored
    rw [hCell, Option.all_some, decide_eq_true_eq] at hRead
    exact hOff hRead
  have hLive : first ∈ s.registry.entries ∧ second ∈ s.registry.entries :=
    ⟨hKept.live_of_id hPlain (by simp) (by decide +kernel), hKept.live_of_id hPlain (by simp) (by decide +kernel)⟩
  obtain ⟨after, hRun, hFirst, hSecond, -⟩ := inherited_names_on hPlain s "first:both" "second" hKept hFree
    (by decide +kernel) (by decide +kernel)
  exact ⟨hPlain, hKept, hNone, after, hRun, hFirst first hLive.1 "first" (by decide +kernel) rfl rfl rfl .setO,
    hSecond hNone second hLive.2 "second" (by decide +kernel) rfl rfl rfl .shopt⟩

/-- Turning on `both` writes the variable of the other roster, and the name `second` in it is forgotten. -/
theorem inherited_name_forgotten :
    let both : Definition Variables :=
      { id := 0, name? := some "both", cell? := some 0, inShellopts := true, inBashopts := true }
    let second : Definition Variables := { id := 1, name? := some "second", cell? := some 1, inBashopts := true }
    let s : Options Variables := {
      registry := Registry.empty.addEach [both, second],
      host := .ofEnviron [("SHELLOPTS", "both"), ("BASHOPTS", "second")], attached := true }
    Plain {d | d ∈ [both, second]} ∧ Kept {d | d ∈ [both, second]} s ∧
      (∀ d ∈ s.registry.entries, d.readonly = false ∧ d.fixedAfterStart = false ∧ d.dropsChanges = false) ∧
      HostVariables.lookup s.host "SHELLOPTS" = some ⟨"both", true, .scalar⟩ ∧
      HostVariables.lookup s.host "BASHOPTS" = some ⟨"second", true, .scalar⟩ ∧
      second ∈ s.registry.entries ∧ "second" ∈ listedNames "second" ∧
      ∃ after, Update.openRosters true s = some ((), after) ∧ after.isOn second .shopt = false := by
  intro both second s
  have hPlain : Plain {d | d ∈ [both, second]} := plain_of_nodup (by decide) (by decide) (by decide)
  have hKept : Kept {d | d ∈ [both, second]} s := kept_addEach hPlain rfl (by dsimp only [s])
  have hOff : ((Update.openRosters true s).any fun result => !result.2.isOn second .shopt) = true := by decide +kernel
  obtain ⟨⟨_, after⟩, hRun, hAfter⟩ := (Option.any_eq_true _ _).mp hOff
  exact ⟨hPlain, hKept, by decide +kernel, by decide +kernel, by decide +kernel,
    hKept.live_of_id hPlain (by simp) (by decide +kernel), by decide +kernel, after, hRun, by simpa using hAfter⟩

end OptionShell
