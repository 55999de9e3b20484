import OptionShell.Proofs.Shell.Sound

/-!
# Settings at the start of a shell

The configuration and the arguments are one list of settings. Of those about one option the last counts. Until a
setting turns on an option of a roster, the variable of the roster stays as the environment has it; from then on it
holds the text of the roster.
-/
namespace OptionShell

variable {σ : Type}

namespace Setting

/-- Whether the setting turns its option on. -/
def on : Setting → Bool
  | letter _ on | setO _ on | shopt _ on => on

/-- Whether the setting is about the option. -/
def addresses (d : Definition σ) : Setting → Bool
  | letter c _ => d.letter? = some c
  | setO name _ | shopt name _ => d.name? = some name

/-- The option that the setting finds. -/
def target? (r : Registry σ) : Setting → Option (Definition σ)
  | letter c _ => r.findLetter? c
  | setO name _ | shopt name _ => r.findName? name

/-- Whether the last of the settings about the option turns it on. -/
def lastOn (d : Definition σ) (settings : List Setting) : Bool :=
  (settings.filter (addresses d)).getLast?.any on

theorem lastOn_append (d : Definition σ) (done : List Setting) (setting : Setting) :
    lastOn d (done ++ [setting]) = if setting.addresses d then setting.on else lastOn d done := by
  rw [lastOn, lastOn, List.filter_append, List.filter_singleton]
  cases hAddressed : setting.addresses d <;> simp

theorem exists_of_lastOn {d : Definition σ} {settings : List Setting} (h : lastOn d settings = true) :
    ∃ setting ∈ settings, setting.on = true ∧ setting.addresses d = true := by
  obtain ⟨setting, hLast, hOn⟩ := (Option.any_eq_true _ _).mp h
  obtain ⟨hMem, hAddressed⟩ := List.mem_filter.mp (List.mem_of_getLast? hLast)
  exact ⟨setting, hMem, hOn, hAddressed⟩

theorem target?_eq_some_iff {r : Registry σ} (h : r.Consistent) (setting : Setting) {d : Definition σ} :
    setting.target? r = some d ↔ d ∈ r.entries ∧ setting.addresses d = true := by
  cases setting with
  | letter c on =>
    rw [target?, addresses, h.lettered, decide_eq_true_eq]
  | setO name on =>
    rw [target?, addresses, r.findName?_eq_some_iff, decide_eq_true_eq]
  | shopt name on =>
    rw [target?, addresses, r.findName?_eq_some_iff, decide_eq_true_eq]

theorem apply_eq [HostVariables σ] (setting : Setting) (s : Options σ) :
    setting.apply s = match setting.target? s.registry with
      | some d => Update.set d .arguments (switchValue setting.on) s
      | none => some (.notFound, s) := by
  cases setting with
  | letter c on => exact Assign.lettered_eq Update.set c .arguments (switchValue on) s
  | setO name on => exact Assign.named_eq Update.set name .arguments (switchValue on) s
  | shopt name on => exact Assign.named_eq Update.set name .arguments (switchValue on) s

end Setting

theorem Arguments.applyAll_cons [HostVariables σ] {s mid : Options σ} {setting : Setting} {outcome : Outcome}
    (hRun : setting.apply s = some (outcome, mid)) (settings : List Setting) :
    applyAll (setting :: settings) s =
      if outcome.isAccepted then applyAll settings mid else some (.error (setting.error outcome), mid) := by
  change (setting.apply s).bind _ = _
  rw [hRun]
  change (if outcome.isAccepted then _ else _ : Update σ (Except ShellError Unit)) mid = _
  split
  · rfl
  · rfl

namespace Shell

/-- The settings of a configuration. -/
def configSettings (config : Config) : List Setting :=
  config.turnedOn.map (.setO · true) ++ config.turnedOff.map (.setO · false)

/-- All settings of a start, in the order in which they are applied. -/
def settingsOf (config : Config) (arguments : Arguments) : List Setting :=
  configSettings config ++ arguments.settings

/-- Whether a setting turns on a standard option that the roster lists. `login_shell`, which has no cell, cannot be
turned on. -/
def Touched (roster : Roster) (settings : List Setting) : Prop :=
  ∃ setting ∈ settings, setting.on = true ∧ ∃ d ∈ standardOptions,
    roster.mirrors d = true ∧ d.cell?.isSome ∧ setting.addresses d = true

variable {roster : Roster} {done : List Setting} {setting : Setting} {d e : Definition (Host Unit)}

theorem touched_of_lastOn (hd : d ∈ standardOptions) (hMirrored : roster.mirrors d = true)
    (hCell : d.cell?.isSome) (hOn : Setting.lastOn d done = true) : Touched roster done := by
  obtain ⟨setting, hMem, hOn, hAddressed⟩ := Setting.exists_of_lastOn hOn
  exact ⟨setting, hMem, hOn, d, hd, hMirrored, hCell, hAddressed⟩

theorem Touched.append (h : Touched roster done) (setting : Setting) : Touched roster (done ++ [setting]) := by
  obtain ⟨first, hMem, hOn⟩ := h
  exact ⟨first, List.mem_append_left _ hMem, hOn⟩

theorem eq_of_addresses (hd : d ∈ Family) (he : e ∈ Family) (hdAddressed : setting.addresses d = true)
    (heAddressed : setting.addresses e = true) : d = e := by
  cases setting with
  | letter c on => exact eq_of_letter?_eq hd he (of_decide_eq_true hdAddressed) (of_decide_eq_true heAddressed)
  | setO name on => exact eq_of_name?_eq hd he (of_decide_eq_true hdAddressed) (of_decide_eq_true heAddressed)
  | shopt name on => exact eq_of_name?_eq hd he (of_decide_eq_true hdAddressed) (of_decide_eq_true heAddressed)

theorem touched_append_iff (hd : d ∈ standardOptions) (hAddressed : setting.addresses d = true) :
    Touched roster (done ++ [setting]) ↔
      Touched roster done ∨ setting.on = true ∧ roster.mirrors d = true ∧ d.cell?.isSome := by
  constructor
  · rintro ⟨other, hMem, hOn, e, he, hMirrored, hCell, heAddressed⟩
    obtain hOld | hNew := List.mem_append.mp hMem
    · exact .inl ⟨other, hOld, hOn, e, he, hMirrored, hCell, heAddressed⟩
    · obtain rfl := List.mem_singleton.mp hNew
      obtain rfl :=
        eq_of_addresses (mem_family_of_standard he) (mem_family_of_standard hd) heAddressed hAddressed
      exact .inr ⟨hOn, hMirrored, hCell⟩
  · rintro (hTouched | ⟨hOn, hMirrored, hCell⟩)
    · exact hTouched.append setting
    · exact ⟨setting, List.mem_append_right _ List.mem_cons_self, hOn, d, hd, hMirrored, hCell, hAddressed⟩

theorem touched_append_of_unaddressed (hNone : ∀ d ∈ standardOptions, setting.addresses d = false)
    (h : Touched roster (done ++ [setting])) : Touched roster done := by
  obtain ⟨other, hMem, hOn, e, he, hMirrored, hCell, heAddressed⟩ := h
  obtain hOld | hNew := List.mem_append.mp hMem
  · exact ⟨other, hOld, hOn, e, he, hMirrored, hCell, heAddressed⟩
  · obtain rfl := List.mem_singleton.mp hNew
    rw [hNone e he] at heAddressed
    cases heAddressed

/-! ## Values -/

theorem admits_arguments (hd : d ∈ standardOptions) (hCell : d.cell?.isSome) (value : Int32) :
    admits d .arguments value = true := by
  have hPolicy : ∀ d ∈ standardOptions, d.cell?.isSome →
      d.setter?.isSome ∨ d.yieldsTo .arguments = true := by decide
  rw [admits]
  split
  · simp [Access.isStartup]
  · rename_i hSetter
    exact (hPolicy d hd hCell).resolve_left hSetter

/-- After a setting that addresses an option, the last settings count again. -/
theorem read_after {s after : Options (Host Unit)} {outcome : Outcome}
    (hValues : ∀ d ∈ standardOptions, ∀ cell, d.cell? = some cell →
      s.storage.read cell = switchValue (Setting.lastOn d done))
    (hd : d ∈ standardOptions) (hAddressed : setting.addresses d = true)
    (hResult : Options.SetResult d (admits d .arguments (switchValue setting.on)) (switchValue setting.on) s
      (outcome, after)) :
    ∀ e ∈ standardOptions, ∀ cell, e.cell? = some cell →
      after.storage.read cell = switchValue (Setting.lastOn e (done ++ [setting])) := by
  intro e he cell hCell
  rw [Setting.lastOn_append]
  by_cases hSame : e = d
  · subst hSame
    rw [admits_arguments he (by rw [hCell]; rfl)] at hResult
    rw [if_pos hAddressed]
    exact hResult.read_own hCell
  · have hOther : setting.addresses e = false := Bool.eq_false_iff.mpr fun heAddressed =>
      hSame (eq_of_addresses (mem_family_of_standard he) (mem_family_of_standard hd) heAddressed hAddressed)
    rw [hOther, hResult.read_of_ne fun hShared =>
      hSame (eq_of_cell?_eq (mem_family_of_standard he) (mem_family_of_standard hd) hCell hShared)]
    exact hValues e he cell hCell

/-- A setting sets the standard option that it addresses, if there is one. -/
theorem ensures_apply {s : Options (Host Unit)} (hSound : Sound s)
    (hOnly : ∀ d ∈ s.registry.entries, d ∈ standardOptions) (setting : Setting) :
    Ensures setting.apply s fun outcome after =>
      (∀ d ∈ standardOptions, setting.addresses d = false) ∧ after = s ∨
      ∃ d ∈ standardOptions, setting.addresses d = true ∧
        Options.SetResult d (admits d .arguments (switchValue setting.on)) (switchValue setting.on) s
          (outcome, after) := by
  cases hTarget : setting.target? s.registry with
  | none =>
    refine ⟨.notFound, s, by rw [Setting.apply_eq, hTarget], .inl ⟨fun d hd => ?_, rfl⟩⟩
    refine Bool.eq_false_iff.mpr fun hAddressed => ?_
    have hFound := (Setting.target?_eq_some_iff hSound.consistent setting).mpr ⟨hSound.complete d hd, hAddressed⟩
    rw [hTarget] at hFound
    cases hFound
  | some d =>
    obtain ⟨hLive, hAddressed⟩ := (Setting.target?_eq_some_iff hSound.consistent setting).mp hTarget
    have hd : d ∈ standardOptions := hOnly d hLive
    obtain ⟨outcome, after, hRun, hResult⟩ := ensures_set (mem_family_of_standard hd) .arguments
      (switchValue setting.on) hSound.nesting
    refine ⟨outcome, after, ?_, .inr ⟨d, hd, hAddressed, hResult⟩⟩
    rw [Setting.apply_eq, hTarget]
    exact hRun

/-! ## Starting -/

/-- The options while a shell starts: with the standard options and no others. -/
structure Ready (s : Options (Host Unit)) : Prop where
  sound : Sound s
  only : ∀ d ∈ s.registry.entries, d ∈ standardOptions
  attached : s.attached = true

theorem Ready.setResult {s after : Options (Host Unit)} (h : Ready s) {admitted : Bool} {value : Int32}
    {outcome : Outcome} (hResult : Options.SetResult d admitted value s (outcome, after)) : Ready after := by
  obtain ⟨storage, host, rfl⟩ := hResult.exists_eq
  exact ⟨h.sound.congr rfl rfl, h.only, h.attached⟩

/-- The options after settings: the last ones count, and each roster's variable is that of the environment or holds
the text of the roster. -/
structure Settled (environ : List (String × String)) (done : List Setting) (s : Options (Host Unit)) : Prop
    extends Ready s where
  values : ∀ d ∈ standardOptions, ∀ cell, d.cell? = some cell →
    s.storage.read cell = switchValue (Setting.lastOn d done)
  shown : ∀ roster, Touched roster done → s.Shows roster
  inherited : ∀ roster, ¬Touched roster done →
    HostVariables.lookup s.host roster.varName = (Variables.ofEnviron environ).lookup roster.varName

namespace Settled

variable {environ : List (String × String)} {s after : Options (Host Unit)} {outcome : Outcome}

theorem lastOn_of_read (h : Settled environ done s) (hd : d ∈ standardOptions) {cell : CellId}
    (hCell : d.cell? = some cell) (hRead : s.storage.read cell ≠ 0) : Setting.lastOn d done = true := by
  rw [h.values d hd cell hCell] at hRead
  cases hOn : Setting.lastOn d done with
  | true => rfl
  | false =>
    rw [hOn] at hRead
    exact absurd rfl hRead

/-- An option that a roster lists is turned on by settings only, so that the roster is touched by then. -/
theorem touched_of_read (h : Settled environ done s) (hd : d ∈ standardOptions)
    (hMirrored : roster.mirrors d = true) {cell : CellId} (hCell : d.cell? = some cell)
    (hRead : s.storage.read cell ≠ 0) : Touched roster done :=
  touched_of_lastOn hd hMirrored (by rw [hCell]; rfl) (h.lastOn_of_read hd hCell hRead)

theorem determined (h : Settled environ done s) (roster : Roster) : s.Determined roster :=
  ownCells_family.determined h.sound.within roster

section Step

variable {admitted : Bool}

theorem shows_after (h : Settled environ done s) (hd : d ∈ standardOptions)
    (hResult : Options.SetResult d admitted (switchValue setting.on) s (outcome, after))
    (hAdmitted : d.cell?.isSome → admitted = true)
    (hTouched : Touched roster done ∨ setting.on = true ∧ roster.mirrors d = true ∧ d.cell?.isSome) :
    after.Shows roster := by
  have hOne : switchValue true ≠ 0 := by decide
  cases hResult with
  | kept outcome hOutcome hKept =>
    -- An option that was on already had touched the roster.
    obtain hTouched | ⟨hOn, hMirrored, hSome⟩ := hTouched
    · exact h.shown roster hTouched
    · obtain ⟨cell, hCell⟩ := Option.isSome_iff_exists.mp hSome
      have hRead := hKept (hAdmitted hSome) cell hCell
      rw [hOn] at hRead
      exact h.shown roster (h.touched_of_read hd hMirrored hCell (hRead ▸ hOne))
  | same cell _ hCell hValue =>
    refine Options.Shows.writeCell_same (h.determined roster) (h.shown roster ?_) hValue
    obtain hTouched | ⟨hOn, hMirrored, -⟩ := hTouched
    · exact hTouched
    · rw [hOn] at hValue
      exact h.touched_of_read hd hMirrored hCell (hValue ▸ hOne)
  | changed cell _ hCell hValue =>
    refine Options.shows_refreshFor h.attached (h.determined roster) fun hOut => ?_
    have hText := ownCells_family.rosterText_writeCell h.sound.within (mem_family_of_standard hd) hCell
      (switchValue setting.on) hOut
    refine Options.Shows.congr (h.shown roster ?_) rfl hText
    refine hTouched.resolve_right fun hNew => ?_
    rw [hOut] at hNew
    cases hNew.2.1

theorem lookup_after (h : Settled environ done s) (hd : d ∈ standardOptions)
    (hResult : Options.SetResult d admitted (switchValue setting.on) s (outcome, after))
    (hUntouched : ¬(Touched roster done ∨ setting.on = true ∧ roster.mirrors d = true ∧ d.cell?.isSome)) :
    HostVariables.lookup after.host roster.varName = (Variables.ofEnviron environ).lookup roster.varName := by
  obtain ⟨hBefore, hNow⟩ := not_or.mp hUntouched
  have hInherited := h.inherited roster hBefore
  cases hResult with
  | kept outcome hOutcome hKept => exact hInherited
  | same cell _ hCell hValue => exact hInherited
  | changed cell _ hCell hValue =>
    cases hMirrored : roster.mirrors d with
    | false => exact (Options.lookup_refreshFor hMirrored _).trans hInherited
    | true =>
      -- The cell is zero, and the setting would have to turn the option on to change it.
      have hZero : s.storage.read cell = 0 := by
        by_contra hRead
        exact hBefore (h.touched_of_read hd hMirrored hCell hRead)
      cases hOn : setting.on with
      | true => exact absurd ⟨hOn, hMirrored, by rw [hCell]; rfl⟩ hNow
      | false =>
        rw [hOn] at hValue
        exact absurd hZero hValue

theorem setResult (h : Settled environ done s) (hd : d ∈ standardOptions) (hAddressed : setting.addresses d = true)
    (hResult : Options.SetResult d (admits d .arguments (switchValue setting.on)) (switchValue setting.on) s
      (outcome, after)) : Settled environ (done ++ [setting]) after := by
  have hAdmitted : d.cell?.isSome → admits d .arguments (switchValue setting.on) = true := fun hCell =>
    admits_arguments hd hCell _
  refine ⟨h.toReady.setResult hResult, read_after h.values hd hAddressed hResult, ?_, ?_⟩
  · intro roster hTouched
    exact h.shows_after hd hResult hAdmitted ((touched_append_iff hd hAddressed).mp hTouched)
  · intro roster hUntouched
    exact h.lookup_after hd hResult fun hTouched => hUntouched ((touched_append_iff hd hAddressed).mpr hTouched)

theorem append_of_unaddressed (h : Settled environ done s) (hNone : ∀ d ∈ standardOptions, setting.addresses d = false) :
    Settled environ (done ++ [setting]) s := by
  refine ⟨h.toReady, ?_, ?_, ?_⟩
  · intro d hd cell hCell
    rw [Setting.lastOn_append, hNone d hd]
    exact h.values d hd cell hCell
  · intro roster hTouched
    exact h.shown roster (touched_append_of_unaddressed hNone hTouched)
  · intro roster hUntouched
    exact h.inherited roster fun hTouched => hUntouched (hTouched.append setting)

theorem apply (setting : Setting) (h : Settled environ done s) :
    Ensures setting.apply s fun _ after => Settled environ (done ++ [setting]) after := by
  refine (ensures_apply h.sound h.only setting).mono fun outcome after hEnd => ?_
  obtain ⟨hNone, rfl⟩ | ⟨d, hd, hAddressed, hResult⟩ := hEnd
  · exact h.append_of_unaddressed hNone
  · exact h.setResult hd hAddressed hResult

end Step

/-! ## All settings -/

theorem applyNames (on : Bool) (names : List String) (h : Settled environ done s) :
    Ensures (names.forM fun name => do let _ ← Update.setNamed name .arguments (switchValue on)) s
      fun _ after => Settled environ (done ++ names.map (.setO · on)) after := by
  refine .forM (I := fun names after => Settled environ (done ++ names.map (.setO · on)) after) []
    (fun names name s hs => ?_) (by simpa using h)
  rw [List.map_append, ← List.append_assoc]
  exact (hs.apply (.setO name on)).bind fun _ _ hAfter => .pure hAfter

theorem applyConfig (config : Config) (h : Settled environ done s) :
    Ensures (Shell.applyConfig config) s fun _ after => Settled environ (done ++ configSettings config) after := by
  rw [configSettings, ← List.append_assoc]
  exact (h.applyNames true config.turnedOn).bind fun _ _ hMid => hMid.applyNames false config.turnedOff

theorem applyAll (settings : List Setting) (h : Settled environ done s) :
    Ensures (Arguments.applyAll settings) s fun result after =>
      result = .ok () → Settled environ (done ++ settings) after := by
  induction settings generalizing done s with
  | nil =>
    rw [List.append_nil]
    exact .pure fun _ => h
  | cons setting rest ih =>
    refine (h.apply setting).bind fun outcome mid hMid => ?_
    split
    · rw [List.append_cons]
      exact ih hMid
    · exact .pure nofun

end Settled

theorem touched_nil (roster : Roster) : ¬Touched roster [] := by
  rintro ⟨setting, hMem, -⟩
  cases hMem

end Shell

end OptionShell
