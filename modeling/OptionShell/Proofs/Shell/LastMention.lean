import OptionShell.Proofs.Shell.ArgumentPhrases
import OptionShell.Proofs.Shell.Settings

/-!
# The last mention counts

Arguments are applied to the standard options one mention after the other, up to the first that is refused. Of the
mentions of an option that were applied, the last one decides whether it is on.
-/
namespace OptionShell

namespace Shell

variable {s : Options (Host Unit)} {done : List Setting} {setting : Setting} {outcome : Outcome}

/-- Options without definitions, with the cells of the standard options at zero. -/
structure Unused (s : Options (Host Unit)) : Prop where
  empty : s.registry = .empty
  zero : ∀ cell < StandardOptions.size, s.storage.read cell = 0
  nesting : 0 < s.nesting

/-- Each standard option but `login_shell` is on if its last mention turns it on. It is off if it is never mentioned. -/
def LastCounts (mentions : List Setting) (s : Options (Host Unit)) : Prop :=
  ∀ d ∈ standardOptions, d ≠ loginShell → ∀ why, s.isOn d why = Setting.lastOn d mentions

/-- The standard options after settings were applied to them. -/
structure Applied (done : List Setting) (s : Options (Host Unit)) : Prop where
  sound : Sound s
  only : ∀ d ∈ s.registry.entries, d ∈ standardOptions
  values : ∀ d ∈ standardOptions, ∀ cell, d.cell? = some cell →
    s.storage.read cell = switchValue (Setting.lastOn d done)

theorem Unused.addTo (h : Unused s) :
    ∃ registry letters?, standard.addTo s = (.ok (), { s with registry, letters? }) ∧
      Applied [] { s with registry, letters? } := by
  obtain ⟨registry, letters?, hAdded, hSound, hOnly⟩ := addTo_of_empty h.empty h.nesting
  exact ⟨registry, letters?, hAdded, hSound, hOnly, fun d hd cell hCell => h.zero cell (cell_lt_size hd hCell)⟩

namespace Applied

theorem lastCounts (h : Applied done s) : LastCounts done s := by
  intro d hd hOther why
  have hCells : ∀ d ∈ standardOptions, d.cell? = none → d.id = loginShell.id := by decide
  obtain ⟨cell, hCell⟩ : ∃ cell, d.cell? = some cell := Option.ne_none_iff_exists'.mp fun hNone =>
    hOther (identified_family d (mem_family_of_standard hd) _ (mem_family_of_standard loginShell_mem) (hCells d hd hNone))
  rw [Options.isOn, get_eq_read hd hCell, h.values d hd cell hCell, Option.any_some]
  cases Setting.lastOn d done <;> rfl

/-- A setting that is refused changes nothing. -/
theorem apply (h : Applied done s) (setting : Setting) : Ensures setting.apply s fun outcome after =>
    Applied (done ++ [setting]) after ∧ (outcome.isAccepted = false → after = s) := by
  refine (ensures_apply h.sound h.only setting).mono fun outcome after hEnd => ?_
  obtain ⟨hNone, rfl⟩ | ⟨d, hd, hAddressed, hResult⟩ := hEnd
  · refine ⟨⟨h.sound, h.only, fun d hd cell hCell => ?_⟩, fun _ => rfl⟩
    rw [Setting.lastOn_append, hNone d hd]
    exact h.values d hd cell hCell
  · refine ⟨⟨h.sound.setResult hResult, ?_, read_after h.values hd hAddressed hResult⟩, fun hRefused => ?_⟩
    · obtain ⟨storage, host, rfl⟩ := hResult.exists_eq
      exact h.only
    · cases hResult with
      | kept => rfl
      | same | changed => cases hRefused

end Applied

/-- How mentions are applied: all of them, or those before the first that is refused. -/
inductive Applies (s : Options (Host Unit)) (mentions : List Setting) :
    Except ShellError Unit → Options (Host Unit) → Prop where
  | all {after : Options (Host Unit)} (hLast : LastCounts mentions after) : Applies s mentions (.ok ()) after
  | stopped {after : Options (Host Unit)} (before : List Setting) (setting : Setting) (rest : List Setting)
    (outcome : Outcome) (hMentions : mentions = before ++ setting :: rest)
    (hBefore : Arguments.applyAll before s = some (.ok (), after)) (hLast : LastCounts before after)
    (hRefused : setting.apply after = some (outcome, after)) (hOutcome : outcome.isAccepted = false) :
    Applies s mentions (.error (setting.error outcome)) after

/-- All settings are applied, or those before the first that is refused. -/
theorem Applied.applyAll (h : Applied done s) (settings : List Setting) :
    Ensures (Arguments.applyAll settings) s fun result after =>
      result = .ok () ∧ Applied (done ++ settings) after ∨
      ∃ before setting rest outcome, settings = before ++ setting :: rest ∧
        Arguments.applyAll before s = some (.ok (), after) ∧ Applied (done ++ before) after ∧
        setting.apply after = some (outcome, after) ∧ outcome.isAccepted = false ∧
        result = .error (setting.error outcome) := by
  induction settings generalizing done s with
  | nil =>
    rw [List.append_nil]
    exact ⟨.ok (), s, rfl, .inl ⟨rfl, h⟩⟩
  | cons setting rest ih =>
    obtain ⟨outcome, mid, hRun, hMid, hKept⟩ := h.apply setting
    have hCons := Arguments.applyAll_cons hRun
    cases hOutcome : outcome.isAccepted with
    | false =>
      obtain rfl := hKept hOutcome
      simp only [hOutcome, Bool.false_eq_true, if_false] at hCons
      rw [← List.append_nil done] at h
      exact ⟨_, mid, hCons rest, .inr ⟨[], setting, rest, outcome, rfl, rfl, h, hRun, hOutcome, rfl⟩⟩
    | true =>
      simp only [hOutcome, if_true] at hCons
      obtain ⟨result, after, hRest, hEnds⟩ := ih hMid
      refine ⟨result, after, (hCons rest).trans hRest, ?_⟩
      rw [List.append_cons]
      refine hEnds.imp id ?_
      rintro ⟨before, other, left, refusal, rfl, hBefore, hApplied, hEnd⟩
      rw [← List.append_cons] at hApplied
      exact ⟨setting :: before, other, left, refusal, rfl, (hCons before).trans hBefore, hApplied, hEnd⟩

/-- Arguments that are read without an error are made of phrases. Applied to new standard options, their mentions are
carried out in order, up to the first that is refused: each option but `login_shell` is on exactly if its last mention
that was carried out turns it on. -/
theorem last_mention_counts {args : List String} {arguments : Arguments} (hRead : Arguments.ofList args = .ok arguments)
    (hUnused : Unused s) :
    (∃ phrases, Spells phrases args) ∧ ∀ phrases, Spells phrases args →
      ∃ registered result after, standard.addTo s = (.ok (), registered) ∧
        arguments.apply registered = some (result, after) ∧
        Applies registered (phrases.flatMap Phrase.mentions) result after := by
  refine ⟨Arguments.exists_spells_of_readArgs hRead, fun phrases hSpells => ?_⟩
  obtain ⟨read, hSame, hSettings⟩ := Arguments.readArgs_of_spells hSpells {}
  cases hRead.symm.trans hSame
  obtain ⟨registry, letters?, hAdded, hApplied⟩ := hUnused.addTo
  obtain ⟨result, after, hRun, hEnds⟩ := hApplied.applyAll arguments.settings
  refine ⟨_, result, after, hAdded, hRun, ?_⟩
  rw [hSettings] at hEnds
  obtain ⟨rfl, hAll⟩ | ⟨before, setting, rest, outcome, hMentions, hBefore, hLast, hRefused, hOutcome, rfl⟩ := hEnds
  · exact .all hAll.lastCounts
  · exact .stopped before setting rest outcome hMentions hBefore hLast.lastCounts hRefused hOutcome

/-- Of these arguments, `-v` belongs to `-c` and `-u` comes after the end. -/
theorem last_mention_counts_of_arguments :
    let args := ["-exf", "+x", "-c", "-v", "-O", "extglob", "+o", "noglob", "-p", "--", "-u"]
    ∃ arguments registered after, Arguments.ofList args = .ok arguments ∧ Unused (blankOptions []) ∧
      standard.addTo (blankOptions []) = (.ok (), registered) ∧
      arguments.apply registered = some (.ok (), after) ∧
      ∀ d ∈ standardOptions, d ≠ loginShell → ∀ why,
        after.isOn d why = decide (d.name? ∈ [some "errexit", some "privileged", some "extglob"]) := by
  intro args
  let phrases : List Phrase := [.cluster true ['e', 'x', 'f'] ⟨by decide, by decide, by decide⟩,
    .cluster false ['x'] ⟨by decide, by decide, by decide⟩, .command "-v", .shopt true "extglob", .setO false "noglob",
    .cluster true ['p'] ⟨by decide, by decide, by decide⟩]
  have hSpells : Spells phrases args := .cons _ (.cons _ (.cons _ (.cons _ (.cons _ (.cons _ (.ended ["-u"]))))))
  have hUnused : Unused (blankOptions []) := ⟨rfl, by decide, Nat.zero_lt_succ 99999⟩
  have hTable : ∀ d ∈ standardOptions, d.id ≠ loginShell.id → Setting.lastOn d (phrases.flatMap Phrase.mentions) =
      decide (d.name? ∈ [some "errexit", some "privileged", some "extglob"]) := by decide
  have hRuns : ((Arguments.ofList args).toOption.bind fun arguments =>
      arguments.apply (standard.addTo (blankOptions [])).2).any (·.1.toBool) = true := by decide +kernel
  obtain ⟨arguments, hRead, -⟩ := Arguments.readArgs_of_spells hSpells {}
  have hRead : Arguments.ofList args = .ok arguments := hRead
  obtain ⟨-, hAll⟩ := last_mention_counts hRead hUnused
  obtain ⟨registered, result, after, hAdded, hRun, hApplies⟩ := hAll phrases hSpells
  rw [hRead, hAdded] at hRuns
  change (arguments.apply registered).any _ = true at hRuns
  rw [hRun] at hRuns
  cases hApplies with
  | all hLast =>
    refine ⟨arguments, registered, after, hRead, hUnused, hAdded, hRun, fun d hd hOther why => ?_⟩
    rw [hLast d hd hOther why]
    exact hTable d hd fun hId =>
      hOther (identified_family d (mem_family_of_standard hd) _ (mem_family_of_standard loginShell_mem) hId)
  | stopped => cases hRuns

end Shell

end OptionShell
