import Mathlib.Data.List.Flatten
import Mathlib.Data.List.Perm.Subperm
import OptionShell.Prime.Extension
import OptionShell.Proofs.Interpreter.Loading
import OptionShell.Proofs.Options.RosterText

/-!
# Rosters after loading

Loading an extension refreshes no roster. If its options are all off or on no roster, the variables of the rosters hold
the texts of the rosters as before; if one of them is on and listed, the variable of its roster does not name it.
-/
namespace OptionShell

variable {σ : Type}

/-- The text of more names, none of them empty, is another text. -/
theorem intercalate_colon_ne {names more : List String} {name : String} (hNodup : names.Nodup)
    (hMore : names ⊆ more) (hMem : name ∈ more) (hNew : name ∉ names) (hName : name ≠ "") :
    ":".intercalate more ≠ ":".intercalate names := by
  intro hText
  have hNonempty : 0 < name.length := Nat.pos_of_ne_zero fun hZero => hName (by simpa using hZero)
  have hSubperm : (name :: names).Subperm more := by
    refine List.Nodup.subperm (List.nodup_cons.mpr ⟨hNew, hNodup⟩) fun other hOther => ?_
    obtain rfl | hOther := List.mem_cons.mp hOther
    · exact hMem
    · exact hMore hOther
  -- The longer list has the longer text: each name adds at least two characters.
  have hLength : ((name :: names).flatMap fun name => ":".toList ++ name.toList).length ≤
      (more.flatMap fun name => ":".toList ++ name.toList).length := by
    obtain ⟨part, hPerm, hSublist⟩ := hSubperm
    rw [← (hPerm.flatMap_right _).length_eq]
    exact (hSublist.flatMap _).length_le
  have hColon : ":".length = 1 := by decide
  have hMoreLength := Text.length_intercalate ":" (List.ne_nil_of_mem hMem)
  rw [List.flatMap_cons, List.length_append, List.length_append, String.length_toList, String.length_toList] at hLength
  by_cases hEmpty : names = []
  · rw [hText, hEmpty, String.intercalate_nil, String.length_empty] at hMoreLength
    omega
  · have hNames := Text.length_intercalate ":" hEmpty
    rw [hText] at hMoreLength
    omega

namespace Options

variable {family : Set (Definition σ)} {defs : List (Definition σ)} {s : Options σ} {roster : Roster}

/-- Adding options gives a roster another text exactly if one of those that are new is on it. -/
theorem rosterText_addEach_eq_iff (hFamily : Identified family) (hConsistent : s.registry.Consistent)
    (hLive : ∀ e ∈ s.registry.entries, e ∈ family) (hDefs : ∀ d ∈ defs, d ∈ family)
    (hNames : ∀ d ∈ defs, d.name? ≠ some "") (hAccepted : s.registry.accepted defs = defs) :
    (s.addEach defs).rosterText roster = s.rosterText roster ↔
      ∀ d ∈ defs, d ∉ s.registry.entries → s.lists roster d = true → d.name? = none := by
  obtain ⟨hAdded, hEntries⟩ := Registry.consistent_addEach hFamily hConsistent hLive hDefs hAccepted
  obtain ⟨letters?, hState⟩ := exists_addEach_eq defs s
  rw [hState]
  have hNamed : ∀ name, name ∈ rosterNames roster { s with registry := s.registry.addEach defs, letters? } ↔
      name ∈ s.rosterNames roster ∨ ∃ d ∈ defs, s.lists roster d = true ∧ d.name? = some name := by
    intro name
    rw [mem_rosterNames_iff, mem_rosterNames_iff, ← exists_or]
    refine exists_congr fun d => ?_
    rw [← or_and_right]
    exact and_congr_left' (hEntries d)
  constructor
  · intro hText d hd hNew hListed
    by_contra hName
    obtain ⟨name, hName⟩ := Option.ne_none_iff_exists'.mp hName
    have hNodup : (s.rosterNames roster).Nodup :=
      (rosterNames_ascending s roster).imp fun hLess => String.ne_of_lt hLess
    refine absurd hText (intercalate_colon_ne hNodup
      (fun other hOther => (hNamed other).mpr (.inl hOther)) ((hNamed name).mpr (.inr ⟨d, hd, hListed, hName⟩))
      (fun hOld => ?_) fun hEmpty => hNames d hd (hEmpty ▸ hName))
    obtain ⟨e, he, -, heName⟩ := mem_rosterNames_iff.mp hOld
    exact Registry.name?_ne_of_accepted hFamily hConsistent hLive hDefs hAccepted hd hNew hName he heName
  · intro hUnlisted
    refine rosterText_eq_of_mem_iff fun name => ?_
    rw [hNamed]
    refine or_iff_left_of_imp ?_
    rintro ⟨d, hd, hListed, hName⟩
    by_cases hOld : d ∈ s.registry.entries
    · exact mem_rosterNames_iff.mpr ⟨d, hOld, hListed, hName⟩
    · rw [hUnlisted d hd hOld hListed] at hName
      cases hName

/-- What a hook may do that does not touch options: only the host has changed, and in it neither the variables of the
rosters nor what the options on a roster read. -/
structure Spared [HostVariables σ] (family : Set (Definition σ)) (s after : Options σ) : Prop where
  host : ∃ host, after = { s with host }
  shown : ∀ roster : Roster, after.rosterValue? roster = s.rosterValue? roster
  read : ∀ d ∈ family, ∀ roster : Roster, roster.mirrors d = true → after.get d roster.access = s.get d roster.access

namespace Spared

variable [HostVariables σ] {after : Options σ} {d : Definition σ}

theorem lists_eq (h : Spared family s after) (hd : d ∈ family) (roster : Roster) :
    after.lists roster d = s.lists roster d :=
  lists_congr (h.read d hd roster)

theorem rosterText_eq (h : Spared family s after) (hLive : ∀ d ∈ s.registry.entries, d ∈ family) (roster : Roster) :
    after.rosterText roster = s.rosterText roster := by
  have hEntries : after.registry.entries = s.registry.entries := by
    obtain ⟨host, rfl⟩ := h.host
    rfl
  exact rosterText_eq_of_get_eq hEntries fun d hd => h.read d (hLive d (hEntries ▸ hd)) roster

end Spared

end Options

variable {α : Type}

namespace Catalog

/-- After a load the variable of a roster holds its text exactly if no option that the load added is on the roster. -/
theorem roster_shown_after_load_iff (catalog : Catalog α) (name : String) (ext : Extension α)
    (hFound : catalog.find? name = some ext) (family : Set (Definition (Host α))) (hFamily : Identified family)
    (hOptions : ∀ d ∈ ext.options, d ∈ family) (hNames : ∀ d ∈ ext.options, d.name? ≠ some "")
    (hHook : ∀ s, Allows ext.onLoad s fun _ after => s.Spared family after) (work after : Workspace α)
    (hConsistent : work.options.registry.Consistent) (hLive : ∀ e ∈ work.options.registry.entries, e ∈ family)
    (hShown : ∀ roster, work.options.rosterValue? roster = some (work.options.rosterText roster))
    (hRun : (catalog.load name).run work = some (.ok (), after)) (roster : Roster) :
    after.options.rosterValue? roster = some (after.options.rosterText roster) ↔
      name ∈ work.loaded ∨ ∀ d ∈ ext.options, d ∉ work.options.registry.entries →
        after.options.lists roster d = true → d.name? = none := by
  cases loadResult_of_run hRun with
  | again found hFound hLoaded => exact iff_of_true (hShown roster) (.inl hLoaded)
  | loaded found hFoundToo hNew entered hEntered =>
    cases hFound.symm.trans hFoundToo
    rw [or_iff_right hNew]
    cases hEntered with
    | entered hAccepted entered hEntered =>
      have hSpared := hHook _ _ entered hEntered
      obtain ⟨-, hEntries⟩ := Registry.consistent_addEach hFamily hConsistent hLive hOptions hAccepted
      obtain ⟨letters?, hState⟩ := Options.exists_addEach_eq ext.options work.options
      have hAdded : ∀ d ∈ (work.options.addEach ext.options).registry.entries, d ∈ family := by
        rw [Options.registry_addEach]
        exact fun d hd => ((hEntries d).mp hd).elim (hLive d) (hOptions d)
      have hText := hSpared.rosterText_eq hAdded roster
      have hValue : entered.rosterValue? roster = some (work.options.rosterText roster) := by
        rw [hSpared.shown roster, hState]
        exact hShown roster
      change entered.rosterValue? roster = some (entered.rosterText roster) ↔ _
      rw [hValue, hText, Option.some.injEq, eq_comm,
        Options.rosterText_addEach_eq_iff hFamily hConsistent hLive hOptions hNames hAccepted]
      refine forall₂_congr fun d hd => ?_
      change _ ↔ (_ → entered.lists roster d = true → _)
      rw [hSpared.lists_eq (hOptions d hd), hState]
      rfl

end Catalog

/-! ## The extension `prime` -/

theorem Variables.lookup_of_assign {vars after : Variables} {name value other : String}
    (h : vars.assign name value = .ok after) (hOther : other ≠ name) : after.lookup other = vars.lookup other := by
  rw [assign] at h
  split at h
  · cases h
  · split at h
    · cases h
    · cases h
      rw [lookup_bind, if_neg hOther]

namespace Prime

/-- The hook of `prime` touches no options that cells decide. -/
theorem spared_enter {family : Set (Definition (Host α))}
    (hCells : ∀ d ∈ family, ∀ roster : Roster, roster.mirrors d = true → ∃ cell, d.DeterminedBy cell)
    (s : Options (Host α)) : Allows enter s fun _ after => s.Spared family after := by
  have hRead : ∀ host, ∀ d ∈ family, ∀ roster : Roster, roster.mirrors d = true →
      Options.get { s with host } d roster.access = s.get d roster.access := by
    intro host d hd roster hMirrored
    obtain ⟨cell, hCell⟩ := hCells d hd roster hMirrored
    exact hCell { s with host } s rfl _ _
  intro result after hRun
  rw [enter] at hRun
  split at hRun
  · rename_i vars hAssign
    cases hRun
    refine ⟨⟨_, rfl⟩, fun roster => ?_, hRead _⟩
    have hName : roster.varName ≠ candidateName := by cases roster <;> decide
    change (vars.lookup roster.varName).map (·.value) = (s.host.vars.lookup roster.varName).map (·.value)
    rw [Variables.lookup_of_assign hAssign hName]
    rfl
  · cases hRun
    exact ⟨⟨_, rfl⟩, fun _ => rfl, hRead _⟩

end Prime

namespace Catalog

/-- While `auto_factorize` is off, `prime` can be loaded without a refresh. -/
theorem roster_shown_after_load_of_prime :
    let cells : Prime.Cells := .startingAt 0
    let options : List (Definition (Host Unit)) := Prime.options 0 cells
    let catalog : Catalog Unit := Catalog.add (Prime.extension 0 cells) .empty
    let vars := (Variables.bind "SHELLOPTS" "" .empty).bind "BASHOPTS" ""
    let work : Workspace Unit := { options := { host := { vars, user := () }, attached := true } }
    Identified {d | d ∈ options} ∧ (∀ d ∈ options, d.name? ≠ some "") ∧
      (∀ s, Allows Prime.enter s fun _ after => s.Spared {d | d ∈ options} after) ∧
      work.options.registry.Consistent ∧ (∀ d ∈ work.options.registry.entries, d ∈ options) ∧
      (∀ roster, work.options.rosterValue? roster = some (work.options.rosterText roster)) ∧
      ∃ after, (catalog.load "prime").run work = some (.ok (), after) ∧
        after.options.rosterValue? .bashopts = some (after.options.rosterText .bashopts) := by
  intro cells options catalog vars work
  have hFamily : Identified {d | d ∈ options} := by
    have hNodup : (options.map (·.id)).Nodup := by decide
    exact fun d hd e he hId => List.inj_on_of_nodup_map hNodup hd he hId
  have hNames : ∀ d ∈ options, d.name? ≠ some "" := by decide
  have hCells : ∀ d ∈ options, ∀ roster : Roster, roster.mirrors d = true → ∃ cell, d.DeterminedBy cell := by
    intro d hd roster hMirrored
    simp only [options, Prime.options, List.mem_cons, List.not_mem_nil, or_false] at hd
    obtain rfl | rfl | rfl := hd
    · exact ⟨_, .of_cell rfl rfl⟩
    · cases roster <;> cases hMirrored
    · exact ⟨_, .of_cell rfl rfl⟩
  have hHook : ∀ s, Allows Prime.enter s fun _ after => s.Spared {d | d ∈ options} after := Prime.spared_enter hCells
  have hLive : ∀ d ∈ work.options.registry.entries, d ∈ options := fun d hd => nomatch hd
  have hShown : ∀ roster, work.options.rosterValue? roster = some (work.options.rosterText roster) := by
    intro roster
    cases roster <;> rfl
  have hLoads : ((catalog.load "prime").run work).any (fun loaded => loaded.1.toOption.isSome &&
      options.all fun d => !loaded.2.options.lists .bashopts d) = true := by decide +kernel
  obtain ⟨_, after, hRun, hUnlisted⟩ := Action.exists_ok_of_any hLoads
  refine ⟨hFamily, hNames, hHook, Registry.consistent_empty, hLive, hShown, after, hRun, ?_⟩
  refine (roster_shown_after_load_iff catalog "prime" (Prime.extension 0 cells) rfl {d | d ∈ options} hFamily
    (fun d hd => hd) hNames hHook work after Registry.consistent_empty hLive hShown hRun .bashopts).mpr (.inr ?_)
  intro d hd _ hListed
  have hOff := List.all_eq_true.mp hUnlisted d hd
  rw [hListed] at hOff
  cases hOff

/-- Loading `prime` while `auto_factorize` is on leaves it out of `BASHOPTS`. -/
theorem prime_option_unlisted_after_load :
    let cells : Prime.Cells := .startingAt 0
    let catalog : Catalog Unit := Catalog.add (Prime.extension 0 cells) .empty
    let vars := (Variables.bind "SHELLOPTS" "" .empty).bind "BASHOPTS" ""
    let work : Workspace Unit :=
      { options := { storage := cells.prepare (.ofList []), host := { vars, user := () }, attached := true } }
    (∀ roster, work.options.rosterValue? roster = some (work.options.rosterText roster)) ∧
      ∃ after, (catalog.load "prime").run work = some (.ok (), after) ∧
        after.options.rosterValue? .bashopts = some "" ∧ after.options.rosterText .bashopts = "auto_factorize" := by
  intro cells catalog vars work
  have hShown : ∀ roster, work.options.rosterValue? roster = some (work.options.rosterText roster) := by
    intro roster
    cases roster <;> rfl
  have hLoads : ((catalog.load "prime").run work).any (fun loaded => loaded.1.toOption.isSome &&
      (loaded.2.options.rosterValue? .bashopts = some "" &&
        loaded.2.options.rosterText .bashopts = "auto_factorize")) = true := by decide +kernel
  obtain ⟨_, after, hRun, hStale⟩ := Action.exists_ok_of_any hLoads
  rw [Bool.and_eq_true, decide_eq_true_eq, decide_eq_true_eq] at hStale
  exact ⟨hShown, after, hRun, hStale⟩

end Catalog

end OptionShell
