import OptionShell.Proofs.Shell.Inheritance
import OptionShell.Proofs.Shell.Lines

/-!
# No privilege is gained

A shell in which `privileged` is off has no way to turn it on: commands set it from contexts that its setter refuses,
extensions do not touch its cell, and the end of a scope, which its setter would admit, puts back only what a frame had
saved while it was off.
-/
namespace OptionShell

/-- Putting the flags back does not turn this one on. -/
def SavedFlags.LeavesOff (saved : SavedFlags) (letter : Char) : Prop :=
  ∀ value, (letter, value) ∈ saved.values → value = 0

namespace Shell

variable {s after : Options (Host Unit)} {w final : Workspace Unit} {d : Definition (Host Unit)}

/-! ## One setting -/

theorem off_of_setResult {why : Access} {value : Int32} {outcome : Outcome} (hd : d ∈ Family)
    (hResult : Options.SetResult d (admits d why value) value s (outcome, after))
    (hValue : d = privileged → admits d why value = true → value = 0) (hOff : s.storage.read 11 = 0) :
    after.storage.read 11 = 0 := by
  by_cases hSame : d = privileged
  · have hOwn : d.cell? = some 11 := hSame ▸ rfl
    cases hAdmits : admits d why value with
    | true =>
      rw [hAdmits] at hResult
      rw [hResult.read_own hOwn]
      exact hValue hSame hAdmits
    | false =>
      rw [hAdmits] at hResult
      rw [hResult.eq_of_not_admitted]
      exact hOff
  · have hCell : d.cell? ≠ some 11 := fun hOwn =>
      hSame (eq_of_cell?_eq hd (mem_family_of_standard privileged_mem) hOwn rfl)
    rw [hResult.read_of_ne hCell]
    exact hOff

theorem eq_zero_of_admits {why : Access} (hWhy : why = .flag ∨ why = .setO ∨ why = .shopt) {value : Int32}
    (h : admits privileged why value = true) : value = 0 := by
  obtain rfl | rfl | rfl := hWhy
  all_goals simpa [admits, privileged, StandardOptions.privileged, Access.isStartup, Access.isPrivileged] using h

/-! ## The end of a scope -/

theorem ensures_reinstateFlags_of_leavesOff {saved : SavedFlags} (hSaved : saved.LeavesOff 'p') (hSound : Sound s)
    (hOff : s.storage.read 11 = 0) :
    Ensures (Update.reinstateFlags saved) s fun _ after => Sound after ∧ after.storage.read 11 = 0 := by
  refine ensures_reinstateFlags (I := fun s => Sound s ∧ s.storage.read 11 = 0) ?_ ⟨hSound, hOff⟩
  rintro ⟨letter, value⟩ hFlag s ⟨hSound, hOff⟩ d hFound
  obtain ⟨hLive, hLetter⟩ := (hSound.consistent.lettered letter d).mp hFound
  have hd : d ∈ Family := hSound.within.live d hLive
  refine (ensures_set hd .scopeEnd value hSound.nesting).mono fun outcome after hResult => ?_
  refine ⟨hSound.setResult hResult, off_of_setResult hd hResult (fun hSame _ => ?_) hOff⟩
  rw [hSame] at hLetter
  cases hLetter
  exact hSaved value hFlag

theorem leavesOff_savedFlags (hSound : Sound s) (hOff : s.storage.read 11 = 0) : s.savedFlags.LeavesOff 'p' := by
  intro value hMem
  obtain ⟨letter, -, hSaved⟩ := List.mem_filterMap.mp hMem
  obtain ⟨d, hFound, hValue⟩ := Option.bind_eq_some_iff.mp hSaved
  obtain ⟨own, hGet, hPair⟩ := Option.map_eq_some_iff.mp hValue
  cases hPair
  rw [hSound.findLetter?_eq privileged_mem rfl] at hFound
  obtain rfl := Option.some.inj hFound
  rw [get_eq_read privileged_mem rfl, hOff] at hGet
  exact (Option.some.inj hGet).symm

/-! ## Moves -/

/-- `privileged` is off, and no open scope has saved it as on. -/
structure Unprivileged (w : Workspace Unit) : Prop where
  off : w.options.storage.read 11 = 0
  frames : ∀ saved, some saved ∈ w.scopes → saved.LeavesOff 'p'

theorem Unprivileged.loads (hw : Unprivileged w) (hSound : Sound w.options) (h : Loads w final) :
    Unprivileged final := by
  obtain ⟨hSteps, hSame⟩ := h
  have hLow : 11 < StandardOptions.size := cell_lt_size privileged_mem rfl
  constructor
  · rw [read_of_loadSteps hSteps hSound hLow]
    exact hw.off
  · rw [hSame]
    exact hw.frames

theorem Move.unprivileged (h : Move w final) (hSound : Sound w.options) (hw : Unprivileged w) :
    Unprivileged final := by
  cases h with
  | set d why value outcome options hFound hWhy hRun =>
    have hd := mem_family_of_finds hSound.within hFound
    have hResult := (ensures_set hd why value hSound.nesting).allows outcome options hRun
    refine ⟨off_of_setResult hd hResult (fun hSame hAdmits => ?_) hw.off, hw.frames⟩
    exact eq_zero_of_admits hWhy (hSame ▸ hAdmits)
  | note d why hLive =>
    obtain ⟨host, hHost⟩ := Options.exists_noted d why w.options
    refine ⟨?_, hw.frames⟩
    change (w.options.noted d why).storage.read 11 = 0
    rw [hHost]
    exact hw.off
  | prime f => exact ⟨hw.off, hw.frames⟩
  | vars vars hEdit => exact ⟨hw.off, hw.frames⟩
  | load name result after hRun => exact hw.loads hSound (loads_load name w result _ hRun)
  | unload name result after hRun => exact hw.loads hSound (loads_unload name w result _ hRun)
  | openScope => exact ⟨hw.off, fun saved hMem => hw.frames saved (by simpa using hMem)⟩
  | saveFlags frame outer hScopes =>
    refine ⟨hw.off, fun saved hMem => ?_⟩
    obtain hNew | hOld := List.mem_cons.mp hMem
    · cases frame with
      | none => exact Option.some.inj hNew ▸ leavesOff_savedFlags hSound hw.off
      | some kept => exact hw.frames saved (by rw [hScopes, hNew]; exact List.mem_cons_self)
    · exact hw.frames saved (by rw [hScopes]; exact List.mem_cons_of_mem _ hOld)
  | closeScope outer hScopes =>
    exact ⟨hw.off, fun saved hMem => hw.frames saved (by rw [hScopes]; exact List.mem_cons_of_mem _ hMem)⟩
  | restoreFlags saved outer count options hScopes hRun =>
    have hSaved := hw.frames saved (by rw [hScopes]; exact List.mem_cons_self)
    have hAfter := (ensures_reinstateFlags_of_leavesOff hSaved hSound hw.off).allows count options hRun
    exact ⟨hAfter.2, fun other hMem => hw.frames other (by rw [hScopes]; exact List.mem_cons_of_mem _ hMem)⟩
  | aside diagnostics exit? => exact ⟨hw.off, hw.frames⟩

theorem unprivileged_of_moves (h : Moves w final) (hSound : Sound w.options) (hw : Unprivileged w) :
    Unprivileged final := by
  induction h with
  | refl => exact hw
  | tail hMoves hMove ih => exact hMove.unprivileged (sound_of_moves hMoves hSound) ih

/-! ## Lines -/

variable {shell last : Shell}

theorem off_of_submitLines {lines : List String} (h : shell.submitLines lines = some last)
    (hSound : Sound shell.options) (hOff : shell.options.storage.read 11 = 0) :
    last.options.storage.read 11 = 0 := by
  induction lines generalizing shell with
  | nil =>
    cases h
    exact hOff
  | cons line rest ih =>
    obtain ⟨⟨result, mid⟩, hSubmit, hRest⟩ := Option.bind_eq_some_iff.mp h
    have hMoves := moves_submit hSubmit
    -- A line starts without open scopes.
    have hFresh : Unprivileged (shell.freshLine line).toWorkspace := ⟨hOff, fun saved hMem => by cases hMem⟩
    exact ih hRest (sound_of_moves hMoves hSound) (unprivileged_of_moves hMoves hSound hFresh).off

/-! ## The whole life of a shell -/

variable {config : Config} {arguments : Arguments} {environ : List (String × String)}

theorem valueNamed_privileged (hSound : Sound s) (why : Access) :
    s.valueNamed "privileged" why = some (s.storage.read 11) :=
  hSound.valueNamed_eq_read privileged_mem rfl rfl why

theorem enabled_privileged_eq_false_iff (hSound : Sound s) :
    s.enabled "privileged" = false ↔ s.storage.read 11 = 0 := by
  rw [Options.enabled, valueNamed_privileged hSound, Option.any_some, decide_eq_false_iff_not, not_not]

/-- The environment cannot make a new shell privileged. -/
theorem enabled_privileged_of_start (hStart : Shell.start config arguments environ = some (.ok shell))
    (hConfig : "privileged" ∉ config.turnedOn)
    (hArguments : ∀ setting ∈ arguments.settings, setting.on = true → setting.addresses privileged = false) :
    shell.options.enabled "privileged" = false := by
  rw [Bool.eq_false_iff]
  intro hOn
  obtain hLast | hInherits := (enabled_iff_of_start hStart privileged_mem rfl rfl).mp hOn
  · obtain ⟨setting, hMem, hSettingOn, hAddressed⟩ := Setting.exists_of_lastOn hLast
    obtain hConfigured | hGiven := List.mem_append.mp hMem
    · obtain hTurnedOn | hTurnedOff := List.mem_append.mp hConfigured
      · obtain ⟨name, hName, rfl⟩ := List.mem_map.mp hTurnedOn
        have hOwn : some "privileged" = some name := of_decide_eq_true hAddressed
        exact hConfig (Option.some.inj hOwn ▸ hName)
      · obtain ⟨name, hName, rfl⟩ := List.mem_map.mp hTurnedOff
        cases hSettingOn
    · rw [hArguments setting hGiven hSettingOn] at hAddressed
      cases hAddressed
  · exact hInherits.2.2.1 rfl

/-- A shell is privileged only if its configuration or its arguments ask for it, whatever its environment says; and
once `privileged` is off, no lines turn it on. -/
theorem privileged_stays_off (config : Config) (arguments : Arguments) (environ : List (String × String))
    (shell : Shell) (hStart : Shell.start config arguments environ = some (.ok shell)) :
    ("privileged" ∉ config.turnedOn →
      (∀ setting ∈ arguments.settings, setting.on = true → setting.addresses privileged = false) →
      ∀ lines last, shell.submitLines lines = some last →
        ∀ why, last.options.valueNamed "privileged" why = some 0) ∧
    (∀ before mid, shell.submitLines before = some mid → mid.options.enabled "privileged" = false →
      ∀ lines last, mid.submitLines lines = some last →
        ∀ why, last.options.valueNamed "privileged" why = some 0) := by
  obtain ⟨started, hStarted, hLoads, -⟩ := exists_started hStart
  have hSound : Sound shell.options := sound_of_loadSteps hLoads hStarted.sound
  have hKept : ∀ mid : Shell, Sound mid.options → mid.options.enabled "privileged" = false → ∀ lines last,
      mid.submitLines lines = some last → ∀ why, last.options.valueNamed "privileged" why = some 0 := by
    intro mid hMid hOff lines last hLines why
    rw [valueNamed_privileged (sound_of_submitLines hLines hMid)]
    rw [off_of_submitLines hLines hMid ((enabled_privileged_eq_false_iff hMid).mp hOff)]
  constructor
  · intro hConfig hArguments lines last hLines
    exact hKept shell hSound (enabled_privileged_of_start hStart hConfig hArguments) lines last hLines
  · intro before mid hBefore hOff lines last hLines
    exact hKept mid (sound_of_submitLines hBefore hSound) hOff lines last hLines

/-- A shell that the environment wants to be privileged, and one that gave `privileged` up. -/
theorem privileged_stays_off_in_scopes :
    (∃ shell last, Shell.start {} {} [("SHELLOPTS", "privileged")] = some (.ok shell) ∧
      shell.submitLines ["set -p", "scope 'local -; set -o privileged'"] = some last ∧
      last.options.valueNamed "privileged" .any = some 0) ∧
    ∃ shell mid last, Shell.start {} { settings := [.letter 'p' true] } [] = some (.ok shell) ∧
      shell.options.enabled "privileged" = true ∧ shell.submitLines ["set +p"] = some mid ∧
      mid.submitLines ["scope 'local -; set -p'"] = some last ∧
      last.options.valueNamed "privileged" .any = some 0 := by
  constructor
  · have hRuns : ((Shell.start {} {} [("SHELLOPTS", "privileged")]).bind Except.toOption).any (fun shell =>
        (shell.submitLines ["set -p", "scope 'local -; set -o privileged'"]).isSome) = true := by decide +kernel
    obtain ⟨shell, hStart, hLines⟩ := exists_of_any_start hRuns
    obtain ⟨last, hLines⟩ := Option.isSome_iff_exists.mp hLines
    refine ⟨shell, last, hStart, hLines, ?_⟩
    exact (privileged_stays_off {} {} _ shell hStart).1 (by decide) (fun setting hMem => by cases hMem) _ last hLines
      .any
  · have hRuns : ((Shell.start {} { settings := [.letter 'p' true] } []).bind Except.toOption).any (fun shell =>
        shell.options.enabled "privileged" && (shell.submitLines ["set +p"]).any fun mid =>
          !mid.options.enabled "privileged" && (mid.submitLines ["scope 'local -; set -p'"]).isSome) = true := by
      decide +kernel
    obtain ⟨shell, hStart, hLines⟩ := exists_of_any_start hRuns
    obtain ⟨hOn, hLines⟩ := Bool.and_eq_true_iff.mp hLines
    obtain ⟨mid, hBefore, hMid⟩ := (Option.any_eq_true _ _).mp hLines
    obtain ⟨hOff, hMore⟩ := Bool.and_eq_true_iff.mp hMid
    obtain ⟨last, hMore⟩ := Option.isSome_iff_exists.mp hMore
    refine ⟨shell, mid, last, hStart, hOn, hBefore, hMore, ?_⟩
    exact (privileged_stays_off {} _ [] shell hStart).2 _ mid hBefore (by simpa using hOff) _ last hMore .any

end Shell

end OptionShell
