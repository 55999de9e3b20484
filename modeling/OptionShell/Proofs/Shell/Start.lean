import OptionShell.Proofs.Options.Inheritance
import OptionShell.Proofs.Shell.Guarded
import OptionShell.Proofs.Shell.Settings

/-!
# The options of a new shell

What the start of a shell up to its extensions makes of the options: an option is on if the last setting about it
turns it on, or if the environment names it on a roster that no setting has touched. A roster that was touched names
nothing new, since its variable was rewritten before it is inherited.
-/
namespace OptionShell

namespace Variables

theorem imported_foldl (environ : List (String × String)) (vars : Variables)
    (hVars : ∀ name var, vars.find? name = some var → var.imported = true ∧ var.shape = .scalar) (name : String)
    (var : Variable)
    (h : (environ.foldl (fun vars e => vars.insert e.1 { value := e.2, imported := true, exported := true })
      vars).find? name = some var) : var.imported = true ∧ var.shape = .scalar := by
  induction environ generalizing vars with
  | nil => exact hVars name var h
  | cons e rest ih =>
    refine ih _ (fun name var hFound => ?_) h
    rw [Table.find?_insert] at hFound
    split at hFound
    · cases hFound
      exact ⟨rfl, rfl⟩
    · exact hVars name var hFound

theorem lookup_ofEnviron (environ : List (String × String)) (name : String) :
    (ofEnviron environ).lookup name =
      ((ofEnviron environ).value? name).map fun value => ⟨value, true, .scalar⟩ := by
  rw [lookup, value?]
  cases hFound : (ofEnviron environ).find? name with
  | none => rfl
  | some var =>
    obtain ⟨hImported, hShape⟩ := imported_foldl environ .empty (fun _ _ h => by cases h) name var hFound
    simp only [Option.map_some, hImported, hShape]

end Variables

namespace Shell

variable {config : Config} {arguments : Arguments} {environ : List (String × String)}
  {s after : Options (Host Unit)} {d : Definition (Host Unit)} {roster : Roster} {settings : List Setting}

/-! ## After the settings -/

theorem settled_attach (registry : Registry (Host Unit)) (letters? : Option (List Char))
    (hSound : Sound { blankOptions environ with registry, letters? })
    (hOnly : ∀ d ∈ registry.entries, d ∈ standardOptions) :
    Settled environ [] (Options.attach { blankOptions environ with registry, letters? }) := by
  have hCells : ∀ d ∈ standardOptions, d.cell? ≠ some 17 := by decide
  refine ⟨⟨hSound.congr rfl rfl, hOnly, rfl⟩, fun d hd cell hCell => ?_, fun roster hTouched => ?_, fun _ _ => rfl⟩
  · have hOther : cell ≠ 17 := fun hSame => hCells d hd (hSame ▸ hCell)
    exact Storage.read_write_of_ne (.ofList []) 1 hOther
  · exact absurd hTouched (touched_nil roster)

/-- The options when the rosters are opened: settled but for the cell of `login_shell`. -/
structure Marked (environ : List (String × String)) (settings : List Setting) (s : Options (Host Unit)) : Prop
    extends Ready s where
  values : ∀ d ∈ standardOptions, ∀ cell, d.cell? = some cell →
    s.storage.read cell = switchValue (Setting.lastOn d settings)
  /-- The names on a touched roster are those of options that are on. -/
  touched : ∀ roster, Touched roster settings → ∀ d ∈ standardOptions, ∀ cell, d.cell? = some cell →
    ∀ name ∈ s.inheritedNames roster, d.name? = some name → Setting.lastOn d settings = true
  untouched : ∀ roster, ¬Touched roster settings → HostVariables.lookup s.host roster.varName =
    (Variables.ofEnviron environ).lookup roster.varName

theorem cell?_ne_loginCell (hd : d ∈ standardOptions) : d.cell? ≠ some 16 := by
  have hCells : ∀ d ∈ standardOptions, d.cell? ≠ some 16 := by decide
  exact hCells d hd

theorem Settled.markLogin (h : Settled environ settings s) (login : Bool) :
    Marked environ settings (standard.markLogin login s) := by
  have hColons : ∀ d ∈ standardOptions, d.name?.all fun name => !name.toList.contains ':' := by decide
  refine ⟨⟨h.sound.congr rfl rfl, h.only, h.attached⟩, ?_, ?_, h.inherited⟩
  · intro d hd cell hCell
    have hOther : cell ≠ 16 := fun hSame => cell?_ne_loginCell hd (hSame ▸ hCell)
    exact (Storage.read_write_of_ne _ _ hOther).trans (h.values d hd cell hCell)
  · intro roster hTouched d hd cell hCell name hName hOwn
    have hListed : name ∈ s.rosterNames roster :=
      Options.mem_rosterNames_of_inherited (h.shown roster hTouched) (fun d hd name hOwn => by
        have hClear := hColons d (h.only d hd)
        rw [hOwn, Option.all_some] at hClear
        simpa using hClear) hName
    obtain ⟨e, he, hLists, heName⟩ := Options.mem_rosterNames_iff.mp hListed
    obtain rfl := eq_of_name?_eq (mem_family_of_standard (h.only e he)) (mem_family_of_standard hd) heName hOwn
    refine h.lastOn_of_read hd hCell fun hZero => ?_
    rw [Options.lists, get_eq_read hd hCell, hZero] at hLists
    simp at hLists

/-! ## Opening the rosters -/

theorem setRules_family : SetRules Family admits Ready where
  within _ h := h.sound.within
  consistent _ h := h.sound.consistent
  cells _ hd _ he _ hdCell heCell := eq_of_cell?_eq hd he hdCell heCell
  set _ hd why value _ h := (ensures_set hd why value h.sound.nesting).mono fun _ _ hResult =>
    ⟨hResult, h.setResult hResult⟩

/-- The names on a roster of the environment. -/
def inheritedFrom (environ : List (String × String)) (roster : Roster) : List String :=
  ((Variables.ofEnviron environ).value? roster.varName).elim [] listedNames

theorem Marked.inheritedNames_eq (h : Marked environ settings s) (hUntouched : ¬Touched roster settings) :
    s.inheritedNames roster = inheritedFrom environ roster := by
  rw [Options.inheritedNames, if_pos h.attached, h.untouched roster hUntouched, Variables.lookup_ofEnviron,
    inheritedFrom]
  cases (Variables.ofEnviron environ).value? roster.varName <;> rfl

theorem mirrors_iff (hd : d ∈ standardOptions) : d.inBashopts = !d.inShellopts := by
  have hRosters : ∀ d ∈ standardOptions, d.inBashopts = !d.inShellopts := by decide
  exact hRosters d hd

theorem eq_of_mirrors {other : Roster} (hd : d ∈ standardOptions) (h : roster.mirrors d = true)
    (hOther : other.mirrors d = true) : other = roster := by
  have hOne := mirrors_iff hd
  cases roster <;> cases other <;> simp_all

theorem mirrors_eq_false {other : Roster} (hd : d ∈ standardOptions) (h : roster.mirrors d = true)
    (hOther : other ≠ roster) : other.mirrors d = false :=
  Bool.eq_false_iff.mpr fun hMirrored => hOther (eq_of_mirrors hd h hMirrored)

/-- All options of a roster but `privileged` can be inherited. -/
theorem inheritable_iff (hd : d ∈ standardOptions) (hCell : d.cell?.isSome) (hMirrored : roster.mirrors d = true) :
    Inheritable admits roster roster.access d = true ↔ d ≠ privileged := by
  have hTable : ∀ d ∈ standardOptions, d.cell?.isSome → ∀ roster ∈ Roster.all, roster.mirrors d = true →
      roster.access.hides d = false ∧ (d.setter?.isSome ∨ d.yieldsTo roster.access = true) := by decide
  have hAll : roster ∈ Roster.all := by cases roster <;> decide
  obtain ⟨hVisible, hPolicy⟩ := hTable d hd hCell roster hAll hMirrored
  rw [Inheritable, hMirrored, hVisible, Bool.not_false, Bool.true_and, Bool.true_and]
  constructor
  · rintro hAdmits rfl
    cases roster <;> cases hAdmits
  · intro hne
    rw [admits, setter?_eq_none (mem_family_of_standard hd) hne]
    rw [setter?_eq_none (mem_family_of_standard hd) hne] at hPolicy
    exact hPolicy.resolve_left (by decide)

theorem Marked.openRosters (h : Marked environ settings s) :
    Ensures (Update.openRosters true) s fun _ after => Ready after ∧
      ∀ roster, ∀ d ∈ standardOptions, roster.mirrors d = true → ∀ cell, d.cell? = some cell →
        after.storage.read cell =
          if Inheritable admits roster roster.access d && d.name?.any (· ∈ s.inheritedNames roster) then 1
          else s.storage.read cell := by
  rw [Update.openRosters_true]
  refine (ensures_inherit setRules_family .shellopts Roster.shellopts.access true h.toReady).bind fun _ first hFirst => ?_
  obtain ⟨hFirst, hReady⟩ := hFirst
  refine (ensures_inherit setRules_family .bashopts Roster.bashopts.access true hReady).bind fun _ second hSecond => ?_
  obtain ⟨hSecond, hReady'⟩ := hSecond
  obtain ⟨f, hf⟩ := Options.refreshAll_eq_mapHost second
  apply Ensures.modify
  rw [hf]
  refine ⟨⟨hReady'.sound.congr rfl rfl, hReady'.only, hReady'.attached⟩, fun roster d hd hMirrored cell hCell => ?_⟩
  have hLive : d ∈ s.registry.entries := h.sound.complete d hd
  have hLive' : d ∈ first.registry.entries := hReady.sound.complete d hd
  have hOut : ∀ other, other ≠ roster → Inheritable admits other other.access d = false := fun other hOther => by
    rw [Inheritable, mirrors_eq_false hd hMirrored hOther]
    rfl
  have hAfter := hSecond.values d hLive' cell hCell
  have hMid := hFirst.values d hLive cell hCell
  change second.storage.read cell = _
  cases roster with
  | shellopts =>
    rw [hAfter, hOut .bashopts (by decide)]
    exact hMid
  | bashopts =>
    have hNames : first.inheritedNames .bashopts = s.inheritedNames .bashopts := by
      have hLookup := hFirst.others .bashopts fun e he heMirrored =>
        mirrors_eq_false (h.only e he) heMirrored (by decide)
      rw [Options.inheritedNames, Options.inheritedNames, hLookup, hReady.attached, h.attached]
    rw [hOut .shellopts (by decide), Bool.false_and, if_neg (by decide)] at hMid
    rw [hAfter, hNames, hMid]

/-- However the rosters are opened, they are guarded from then on. -/
theorem guarded_openRosters (h : Ready s) (inheriting : Bool) :
    Ensures (Update.openRosters inheriting) s fun _ after => Guarded after := by
  have hSet : SetInvariant Family Ready :=
    ⟨setRules_family.within, fun d hd why value s hs => (setRules_family.set d hd why value s hs).mono
      fun _ _ hResult => hResult.2⟩
  exact hSet.openRosters inheriting h fun s hs => guarded_refreshAll hs.sound hs.attached

/-! ## The whole start -/

/-- Whether the start turns the option on because the environment names it. -/
def Inherits (config : Config) (arguments : Arguments) (environ : List (String × String))
    (d : Definition (Host Unit)) : Prop :=
  config.inheriting = true ∧ arguments.ignoreEnvironment = false ∧ d ≠ privileged ∧
    ∃ roster : Roster, roster.mirrors d = true ∧ ¬Touched roster (settingsOf config arguments) ∧
      ∃ name ∈ inheritedFrom environ roster, d.name? = some name

/-- The options of a shell when its extensions are still to be loaded. -/
structure Started (config : Config) (arguments : Arguments) (environ : List (String × String))
    (s : Options (Host Unit)) : Prop extends Ready s where
  guarded : Guarded s
  values : ∀ d ∈ standardOptions, ∀ cell, d.cell? = some cell →
    (s.storage.read cell ≠ 0 ↔
      Setting.lastOn d (settingsOf config arguments) = true ∨ Inherits config arguments environ d)

theorem read_ne_zero_iff (h : Marked environ settings s) (hd : d ∈ standardOptions) {cell : CellId}
    (hCell : d.cell? = some cell) : s.storage.read cell ≠ 0 ↔ Setting.lastOn d settings = true := by
  rw [h.values d hd cell hCell]
  cases Setting.lastOn d settings <;> decide

theorem Marked.inherited_ne_zero_iff (h : Marked environ (settingsOf config arguments) s)
    (hInheriting : config.inheriting = true) (hEnvironment : arguments.ignoreEnvironment = false)
    (hd : d ∈ standardOptions) (hMirrored : roster.mirrors d = true) {cell : CellId} (hCell : d.cell? = some cell) :
    (if Inheritable admits roster roster.access d && d.name?.any (· ∈ s.inheritedNames roster) then 1
      else s.storage.read cell) ≠ 0 ↔
    Setting.lastOn d (settingsOf config arguments) = true ∨ Inherits config arguments environ d := by
  have hSome : d.cell?.isSome := by rw [hCell]; rfl
  have hInherits : Inherits config arguments environ d ↔ d ≠ privileged ∧
      ¬Touched roster (settingsOf config arguments) ∧ d.name?.any (· ∈ inheritedFrom environ roster) = true := by
    constructor
    · rintro ⟨-, -, hne, other, hOther, hUntouched, name, hName, hOwn⟩
      obtain rfl := eq_of_mirrors hd hMirrored hOther
      exact ⟨hne, hUntouched, by rw [hOwn, Option.any_some, decide_eq_true hName]⟩
    · rintro ⟨hne, hUntouched, hAny⟩
      obtain ⟨name, hOwn, hName⟩ := (Option.any_eq_true _ _).mp hAny
      exact ⟨hInheriting, hEnvironment, hne, roster, hMirrored, hUntouched, name, of_decide_eq_true hName, hOwn⟩
  rw [hInherits]
  by_cases hTouched : Touched roster (settingsOf config arguments)
  · split
    · rename_i hNamed
      obtain ⟨-, hAny⟩ := Bool.and_eq_true_iff.mp hNamed
      obtain ⟨name, hOwn, hName⟩ := (Option.any_eq_true _ _).mp hAny
      have hOn := h.touched roster hTouched d hd cell hCell name (of_decide_eq_true hName) hOwn
      exact iff_of_true (by decide) (.inl hOn)
    · rw [read_ne_zero_iff h hd hCell]
      exact (or_iff_left fun hNew => hNew.2.1 hTouched).symm
  · have hOff : Setting.lastOn d (settingsOf config arguments) ≠ true := fun hOn =>
      hTouched (touched_of_lastOn hd hMirrored hSome hOn)
    rw [h.inheritedNames_eq hTouched]
    split
    · rename_i hNamed
      obtain ⟨hInheritable, hAny⟩ := Bool.and_eq_true_iff.mp hNamed
      exact iff_of_true (by decide) (.inr ⟨(inheritable_iff hd hSome hMirrored).mp hInheritable, hTouched, hAny⟩)
    · rename_i hUnnamed
      rw [read_ne_zero_iff h hd hCell]
      refine iff_of_false hOff fun hEither => hUnnamed ?_
      obtain ⟨hne, -, hAny⟩ := hEither.resolve_left hOff
      rw [(inheritable_iff hd hSome hMirrored).mpr hne, hAny]
      rfl

theorem exists_mirrors (hd : d ∈ standardOptions) : ∃ roster : Roster, roster.mirrors d = true := by
  have hOne := mirrors_iff hd
  cases hShellopts : d.inShellopts with
  | true => exact ⟨.shellopts, by rw [Roster.mirrors_shellopts, hShellopts]⟩
  | false => exact ⟨.bashopts, by rw [Roster.mirrors_bashopts, hOne, hShellopts]; rfl⟩

theorem Marked.started (h : Marked environ (settingsOf config arguments) s) :
    Ensures (Update.openRosters (config.inheriting && !arguments.ignoreEnvironment)) s fun _ after =>
      Started config arguments environ after := by
  cases hInheriting : config.inheriting && !arguments.ignoreEnvironment with
  | true =>
    obtain ⟨hConfig, hArguments⟩ := Bool.and_eq_true_iff.mp hInheriting
    rw [Bool.not_eq_true'] at hArguments
    refine (h.openRosters.and (guarded_openRosters h.toReady true)).mono ?_
    rintro _ after ⟨⟨hReady, hValues⟩, hGuarded⟩
    refine ⟨hReady, hGuarded, fun d hd cell hCell => ?_⟩
    obtain ⟨roster, hMirrored⟩ := exists_mirrors hd
    rw [hValues roster d hd hMirrored cell hCell]
    exact h.inherited_ne_zero_iff hConfig hArguments hd hMirrored hCell
  | false =>
    have hGuarded := guarded_refreshAll h.sound h.attached
    obtain ⟨f, hf⟩ := Options.refreshAll_eq_mapHost s
    apply Ensures.modify
    rw [hf] at hGuarded ⊢
    refine ⟨⟨h.sound.congr rfl rfl, h.only, h.attached⟩, hGuarded, fun d hd cell hCell => ?_⟩
    refine (read_ne_zero_iff h hd hCell).trans (or_iff_left ?_).symm
    rintro ⟨hConfig, hArguments, -⟩
    rw [hConfig, hArguments] at hInheriting
    cases hInheriting

/-- The start up to the extensions has a result. If it is no error, every setting was applied. -/
theorem ensures_startOptions (config : Config) (arguments : Arguments) (environ : List (String × String)) :
    Ensures (startOptions config arguments) (blankOptions environ) fun result after =>
      result = .ok () → Started config arguments environ after := by
  obtain ⟨registry, letters?, hAdded, hSound, hOnly⟩ := addTo_blankOptions environ
  have hAdd : Ensures (modifyGet standard.addTo : Update (Host Unit) _) (blankOptions environ) fun result after =>
      result = .ok () ∧ after = { blankOptions environ with registry, letters? } :=
    ⟨_, _, congrArg some hAdded, rfl, rfl⟩
  refine hAdd.bind ?_
  rintro _ _ ⟨rfl, rfl⟩
  have hAttach : Ensures (modify Options.attach : Update (Host Unit) PUnit)
      { blankOptions environ with registry, letters? } fun _ after => Settled environ [] after :=
    .modify (settled_attach registry letters? hSound hOnly)
  refine hAttach.bind fun _ attached hAttached => ?_
  refine (hAttached.applyConfig config).bind fun _ configured hConfigured => ?_
  refine (hConfigured.applyAll arguments.settings).bind fun result applied hApplied => ?_
  cases result with
  | error error => exact .pure nofun
  | ok answer =>
    have hMark : Ensures (modify (standard.markLogin arguments.login) : Update (Host Unit) PUnit) applied
        fun _ after => Marked environ (settingsOf config arguments) after :=
      .modify ((hApplied rfl).markLogin arguments.login)
    refine hMark.bind fun _ marked hMarked => ?_
    exact hMarked.started.bind fun _ _ hStarted => .pure fun _ => hStarted

end Shell

end OptionShell
