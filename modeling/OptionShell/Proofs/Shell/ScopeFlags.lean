import OptionShell.Proofs.Interpreter.QuotedLine
import OptionShell.Proofs.Options.SavedFlags
import OptionShell.Proofs.Shell.Reachable

/-!
# Flags that are local to a scope

A scope whose line starts with `local -` leaves the flags as it found them, whatever the rest of the line does. The
frame keeps what `local -` saved until the scope ends, by whatever way; only standard options have letters, the end of
a scope may set every one of these, and their values determine `SHELLOPTS`.
-/
namespace OptionShell

namespace Shell

open Relation Execution Interpreter Line

variable {s t after : Options (Host Unit)} {d : Definition (Host Unit)} {letter : Char}

/-! ## Options with letters -/

theorem letter?_of_prime (hd : d ∈ primeOptions) : d.letter? = none := by
  have hLetters : ∀ d ∈ primeOptions, d.letter? = none := by decide
  exact hLetters d hd

theorem Sound.findLetter?_eq_some_iff (h : Sound s) :
    s.registry.findLetter? letter = some d ↔ d ∈ standardOptions ∧ d.letter? = some letter := by
  refine ⟨fun hFound => ?_, fun ⟨hd, hLetter⟩ => h.findLetter?_eq hd hLetter⟩
  obtain ⟨hLive, hLetter⟩ := (h.consistent.lettered letter d).mp hFound
  obtain hStandard | hPrime := List.mem_append.mp (h.within.live d hLive)
  · exact ⟨hStandard, hLetter⟩
  · rw [letter?_of_prime hPrime] at hLetter
    cases hLetter

theorem exists_reinstatable (hd : d ∈ standardOptions) (hLetter : d.letter? = some letter) :
    ∃ cell, Reinstatable admits letter cell d := by
  have hFlags : ∀ d ∈ standardOptions, d.letter?.isSome →
      d.cell?.isSome ∧ d.getter?.isNone ∧ d.readonly = false ∧ d.dropsChanges = false := by decide
  obtain ⟨hCell, hGetter, hReadonly, hDrops⟩ := hFlags d hd (by rw [hLetter]; rfl)
  obtain ⟨cell, hCell⟩ := Option.isSome_iff_exists.mp hCell
  refine ⟨cell, hLetter, hCell, Option.isNone_iff_eq_none.mp hGetter, fun value => ?_⟩
  rw [admits, Definition.yieldsTo, hReadonly, hDrops]
  simp [Access.isPrivileged]

theorem Sound.findLetter?_congr (hs : Sound s) (ht : Sound t) (letter : Char) :
    t.registry.findLetter? letter = s.registry.findLetter? letter :=
  Option.ext fun _ => ht.findLetter?_eq_some_iff.trans hs.findLetter?_eq_some_iff.symm

/-! ## Equal flags -/

/-- Every option with a letter has the same value. -/
def SameFlags (s t : Options (Host Unit)) : Prop :=
  ∀ letter why, t.valueLettered letter why = s.valueLettered letter why

theorem SameFlags.symm (h : SameFlags s t) : SameFlags t s := fun letter why => (h letter why).symm

/-- Flags that were saved and are put back are the same again. -/
theorem sameFlags_of_reinstateFlags (hs : Sound s) (ht : Intact t) {count : Nat}
    (hRun : Update.reinstateFlags s.savedFlags t = some (count, after)) : SameFlags s after := by
  intro letter why
  have hAfter := (setRules_intact.setInvariant.reinstateFlags s.savedFlags ht).allows count after hRun
  rw [Options.valueLettered, Options.valueLettered, hs.findLetter?_congr hAfter.sound]
  cases hFound : s.registry.findLetter? letter with
  | none => rfl
  | some d =>
    obtain ⟨hd, hLetter⟩ := hs.findLetter?_eq_some_iff.mp hFound
    obtain ⟨cell, hOption⟩ := exists_reinstatable hd hLetter
    obtain ⟨-, -, hRead⟩ := (setRules_intact.ensures_reinstateFlags_savedFlags hOption hFound ht
      (ht.sound.complete d hd)).allows count after hRun
    rw [Option.bind_some, Option.bind_some, Options.get_eq_read hOption.getter hOption.cell,
      Options.get_eq_read hOption.getter hOption.cell, hRead]

theorem mem_rosterNames_of_sameFlags (hs : Sound s) (ht : Sound t) (h : SameFlags s t) {name : String}
    (hName : name ∈ s.rosterNames .shellopts) : name ∈ t.rosterNames .shellopts := by
  have hLettered : ∀ d ∈ standardOptions, d.inShellopts = true → d.letter?.isSome := by decide
  obtain ⟨d, hd, hLists, hOwn⟩ := Options.mem_rosterNames_iff.mp hName
  have hMirrored : d.inShellopts = true := by
    rw [← Roster.mirrors_shellopts]
    exact (Bool.and_eq_true_iff.mp hLists).1
  have hStandard : d ∈ standardOptions := by
    obtain hStandard | hPrime := List.mem_append.mp (hs.within.live d hd)
    · exact hStandard
    · rw [← Roster.mirrors_shellopts, mirrors_shellopts_of_prime hPrime] at hMirrored
      cases hMirrored
  obtain ⟨letter, hLetter⟩ := Option.isSome_iff_exists.mp (hLettered d hStandard hMirrored)
  refine Options.mem_rosterNames_iff.mpr ⟨d, ht.complete d hStandard, ?_, hOwn⟩
  rw [← hLists]
  refine Options.lists_congr fun _ => ?_
  have hSame := h letter Roster.shellopts.access
  rw [Options.valueLettered, Options.valueLettered, ht.findLetter?_eq hStandard hLetter,
    hs.findLetter?_eq hStandard hLetter] at hSame
  exact hSame

theorem rosterText_of_sameFlags (hs : Sound s) (ht : Sound t) (h : SameFlags s t) :
    t.rosterText .shellopts = s.rosterText .shellopts :=
  Options.rosterText_eq_of_mem_iff fun _ =>
    ⟨mem_rosterNames_of_sameFlags ht hs h.symm, mem_rosterNames_of_sameFlags hs ht h⟩

/-! ## The frame of a scope -/

variable {w : Workspace Unit} {before ended : Session Unit} {result : Except ShellError Output}
  {frame : Option SavedFlags} {outer : List (Option SavedFlags)}

theorem run_localFlags (hScopes : w.scopes = frame :: outer) : (Builtin.localFlags.run ["-"]).run w =
    some (.ok .silent, { w with scopes := some (frame.getD w.options.savedFlags) :: outer }) := by
  obtain ⟨options, loaded, scopes, diagnostics, exit?, stateLetters⟩ := w
  cases hScopes
  rfl

theorem writes_localFlags : Writes "local -".toList ["local".toList, "-".toList] := by
  have hName : Writes "local".toList ["local".toList] := writes_ordinary (by decide) (by decide)
  have hArg : Writes "-".toList ["-".toList] := writes_ordinary (by decide) (by decide)
  exact hName.append hArg

/-- The command `local -` saves the flags in the frame of the innermost scope. -/
theorem exists_step_localFlags (runLine : String → Execution Unit Output) (unguarded : Bool)
    (hScopes : before.scopes = frame :: outer) (hExec : before.options.enabled "noexec" = false) :
    ∃ step, Step.run (interpreter.runSegment runLine) "local -".toList unguarded before = some step ∧
      step.after.options = before.options ∧
      step.after.scopes = some (frame.getD before.options.savedFlags) :: outer := by
  have hFound : interpreter.findCommand? before.loaded "local" = some Builtin.localFlags := rfl
  obtain ⟨diagnostics, hTraced⟩ := exists_traced ["local", "-"] before
  have hRun : (interpreter.runSegment runLine "local -".toList).run before =
      some (.ok .silent, { before with
        diagnostics, scopes := some (frame.getD before.options.savedFlags) :: outer }) := by
    rw [run_runSegment_of_writes interpreter runLine writes_localFlags]
    refine (run_runWords_of_found interpreter runLine ["-"] (by decide) (by decide) hFound (.inl hExec)).trans ?_
    have hLocal := @run_localFlags { before.toWorkspace with diagnostics } frame outer hScopes
    rw [hTraced, hLocal]
    rfl
  refine ⟨_, congrArg (Option.map _) hRun, rfl, rfl⟩

/-- After the first step of a line come moves. -/
theorem exists_first_step {depth : Nat} {line : String} {first : Segment} {rest : List Segment}
    (hSegments : segments (Text.trim line.toList) = .ok (first :: rest)) (hFirst : first.connective = .always)
    (hRun : (interpreter.execute (depth + 1) line).run before = some (result, ended)) :
    ∃ step, Step.run (interpreter.runSegment (interpreter.execute depth)) first.command (!guards rest) before =
      some step ∧ SessionMoves step.after ended := by
  rw [execute] at hRun
  cases rest with
  | nil =>
    rw [run_runChain_of_single hSegments] at hRun
    obtain ⟨step, hStep, hSame⟩ := Option.map_eq_some_iff.mp hRun
    cases hSame
    exact ⟨step, hStep, .refl⟩
  | cons second others =>
    rw [run_runChain_of_several hSegments, run_runSegments_cons _ (by rw [hFirst]; rfl)] at hRun
    obtain ⟨⟨texts, last⟩, hChain, hSame⟩ := Option.map_eq_some_iff.mp hRun
    cases hSame
    obtain ⟨step, hStep, hRest⟩ := Option.bind_eq_some_iff.mp hChain
    refine ⟨step, hStep, ?_⟩
    split at hRest
    · cases hRest
      exact .refl
    · obtain ⟨⟨more, last⟩, hMore, hSame⟩ := Option.map_eq_some_iff.mp hRest
      cases hSame
      have hSegment := lineRules_moves.leads_runSegment (leads_execute depth)
      exact lineRules_moves.leads_runSegments hSegment _ _ more last hMore

theorem segments_local_line (body : String) : segments (Text.trim ("local - ; " ++ body).toList) =
    (segments (Text.trimEnd (' ' :: body.toList))).map (⟨.always, "local -".toList⟩ :: ·) := by
  have hText : ("local - ; " ++ body).toList = "local - ;".toList ++ ' ' :: body.toList := by
    rw [String.toList_append]
    rfl
  rw [hText, Text.trim_append ⟨'l', by decide, by decide⟩ ⟨';', by decide, by decide⟩]
  exact writes_localFlags.segments_append _

/-- A line that starts with `local -` does nothing in a new scope, or leaves the flags that it found in the frame. -/
theorem ends_of_local_line {depth : Nat} {body : String}
    (hRun : (interpreter.execute depth ("local - ; " ++ body)).run before = some (result, ended))
    (hScopes : before.scopes = none :: outer) (hExec : before.options.enabled "noexec" = false) :
    ended = before ∨
      Moves before.toWorkspace ended.toWorkspace ∧ ended.scopes = some before.options.savedFlags :: outer := by
  cases depth with
  | zero => cases hRun
  | succ depth =>
    have hSegments := segments_local_line body
    cases hRest : segments (Text.trimEnd (' ' :: body.toList)) with
    | error error =>
      rw [hRest] at hSegments
      rw [execute, run_runChain_of_error hSegments] at hRun
      cases hRun
      exact .inl rfl
    | ok rest =>
      rw [hRest] at hSegments
      have hMoves := leads_execute (depth + 1) _ _ result ended hRun
      obtain ⟨step, hStep, hLast⟩ := exists_first_step hSegments rfl hRun
      obtain ⟨first, hFirst, -, hSaved⟩ :=
        exists_step_localFlags (interpreter.execute depth) (!guards rest) hScopes hExec
      obtain rfl : first = step := Option.some.inj (hFirst.symm.trans hStep)
      have hFrames := hLast.frames
      rw [hSaved] at hFrames
      exact .inr ⟨hMoves.moves, hFrames.eq_of_saved⟩

/-- The scope of such a line leaves the flags and the frames as it found them. -/
theorem sameFlags_of_local_scope {depth : Nat} {body : String}
    (hRun : (runScope (interpreter.execute depth) ["local - ; " ++ body]).run before = some (result, ended))
    (hBefore : Intact before.options) (hExec : before.options.enabled "noexec" = false) :
    SameFlags before.options ended.options ∧ ended.scopes = before.scopes := by
  rw [run_runScope _ (List.cons_ne_nil _ _)] at hRun
  obtain ⟨⟨inner, mid⟩, hLine, hRest⟩ := Option.bind_eq_some_iff.mp hRun
  obtain ⟨⟨closing, closed⟩, hClose, hSame⟩ := Option.map_eq_some_iff.mp hRest
  cases hSame
  have hInner : (interpreter.execute depth ("local - ; " ++ body)).run
      { before with scopes := none :: before.scopes } = some (inner, mid) := hLine
  obtain rfl | ⟨hMoves, hSaved⟩ := ends_of_local_line hInner rfl hExec
  · rw [run_closeScope_of_none rfl] at hClose
    cases hClose
    exact ⟨fun _ _ => rfl, rfl⟩
  · rw [run_closeScope_of_some hSaved] at hClose
    obtain ⟨⟨count, options⟩, hReinstate, hSame⟩ := Option.map_eq_some_iff.mp hClose
    cases hSame
    have hMid : Intact mid.options := intact_of_moves hMoves hBefore
    exact ⟨sameFlags_of_reinstateFlags hBefore.sound hMid hReinstate, rfl⟩

/-! ## Lines with local flags -/

/-- The line that runs a body in a scope with local flags. -/
def localScopeLine (body : String) : String := "scope " ++ String.ofList (quotedWord ("local - ; " ++ body).toList)

theorem writes_localScopeLine (body : String) :
    Writes (localScopeLine body).toList ["scope".toList, ("local - ; " ++ body).toList] := by
  have hScope : Writes "scope".toList ["scope".toList] := writes_ordinary (by decide) (by decide)
  have hText : (localScopeLine body).toList = "scope".toList ++ ' ' :: quotedWord ("local - ; " ++ body).toList := by
    rw [localScopeLine, String.toList_append, String.toList_ofList, String.toList_ofList]
    rfl
  rw [hText]
  exact hScope.append (writes_quotedWord ("local - ; " ++ body).toList)

theorem SameFlags.value?_eq (h : SameFlags s t) (hs : Intact s) (ht : Intact t) :
    t.host.vars.value? "SHELLOPTS" = s.host.vars.value? "SHELLOPTS" := by
  have hValue : ∀ {s : Options (Host Unit)}, Intact s →
      s.host.vars.value? "SHELLOPTS" = some (s.rosterText .shellopts) := fun hs =>
    (rosterValue?_eq .shellopts _).symm.trans hs.guarded.shown
  rw [hValue hs, hValue ht, rosterText_of_sameFlags hs.sound ht.sound h]

theorem sameFlags_of_localScopeLine {depth : Nat} {body : String} (hBefore : Intact before.options)
    (hRun : (interpreter.execute depth (localScopeLine body)).run before = some (result, ended)) :
    SameFlags before.options ended.options ∧ ended.scopes = before.scopes := by
  cases depth with
  | zero => cases hRun
  | succ depth =>
    have hStep := run_execute_of_writes interpreter depth (writes_localScopeLine body) before
    rw [String.ofList_toList, hRun, List.map_cons, List.map_singleton, String.ofList_toList, String.ofList_toList,
      run_runWords_of_scope] at hStep
    obtain ⟨⟨inner, last⟩, hWords, hSame⟩ := Option.map_eq_some_iff.mp hStep.symm
    cases hSame
    obtain ⟨diagnostics, hTraced⟩ := exists_traced ["scope", "local - ; " ++ body] before
    rw [hTraced] at hWords
    split at hWords
    · cases hWords
      exact ⟨fun _ _ => rfl, rfl⟩
    · rename_i hExec
      exact (sameFlags_of_local_scope hWords hBefore (eq_false_of_ne_true hExec) :)

/-- A line that runs any body in a scope with local flags leaves every option with a letter at its value, `SHELLOPTS`
at its text and the open scopes as they were, if it ends at all. -/
theorem flags_restored_after_local_scope (shell : Shell) (hReachable : Reachable shell) (body : String) :
    (∀ (depth : Nat) (before ended : Session Unit) (result : Except ShellError Output),
      before.options = shell.options →
      (interpreter.execute depth (localScopeLine body)).run before = some (result, ended) →
        (∀ letter why, ended.options.valueLettered letter why = before.options.valueLettered letter why) ∧
        ended.vars.value? "SHELLOPTS" = before.vars.value? "SHELLOPTS" ∧ ended.scopes = before.scopes) ∧
    ∀ (result : LineResult) (last : Shell), shell.submit (localScopeLine body) = some (result, last) →
      (∀ letter why, last.options.valueLettered letter why = shell.options.valueLettered letter why) ∧
      last.vars.value? "SHELLOPTS" = shell.vars.value? "SHELLOPTS" ∧ last.session.scopes = [] := by
  have hLine : ∀ (depth : Nat) (before ended : Session Unit) (result : Except ShellError Output),
      before.options = shell.options →
      (interpreter.execute depth (localScopeLine body)).run before = some (result, ended) →
        SameFlags before.options ended.options ∧
        ended.vars.value? "SHELLOPTS" = before.vars.value? "SHELLOPTS" ∧ ended.scopes = before.scopes := by
    intro depth before ended result hOptions hRun
    have hBefore : Intact before.options := hOptions ▸ hReachable.intact
    have hEnded : Intact ended.options :=
      intact_of_moves (leads_execute depth _ before result ended hRun).moves hBefore
    obtain ⟨hFlags, hScopes⟩ := sameFlags_of_localScopeLine hBefore hRun
    exact ⟨hFlags, hFlags.value?_eq hBefore hEnded, hScopes⟩
  refine ⟨hLine, fun result last hSubmit => ?_⟩
  rw [submit] at hSubmit
  obtain ⟨⟨output, ended⟩, hRun, hSame⟩ := Option.bind_eq_some_iff.mp hSubmit
  cases hSame
  exact hLine scopeDepth (shell.freshLine (localScopeLine body)) ended output rfl hRun

/-- A body that changes flags, loads the extension and opens a scope of its own before a failure ends it. -/
theorem flags_restored_after_failing_scope :
    ∃ shell result last, Shell.start {} { settings := [.letter 'u' true] } [] = some (.ok shell) ∧
      shell.submit (localScopeLine "set -fex +u; enable -f prime; scope 'local -; set -C'; false; set -v") =
        some (result, last) ∧ result.exit? = some 1 ∧
      (∀ letter why, last.options.valueLettered letter why = shell.options.valueLettered letter why) ∧
      last.vars.value? "SHELLOPTS" = shell.vars.value? "SHELLOPTS" ∧ last.session.scopes = [] := by
  have hRuns : ((Shell.start {} { settings := [.letter 'u' true] } []).bind Except.toOption).any (fun shell =>
      (shell.submit (localScopeLine
        "set -fex +u; enable -f prime; scope 'local -; set -C'; false; set -v")).any fun ran =>
          ran.1.exit? = some 1) = true := by decide +kernel
  obtain ⟨shell, hStart, hLine⟩ := exists_of_any_start hRuns
  obtain ⟨⟨result, last⟩, hSubmit, hExit⟩ := (Option.any_eq_true _ _).mp hLine
  have hReachable : Reachable shell := .start {} _ _ shell hStart
  exact ⟨shell, result, last, hStart, hSubmit, of_decide_eq_true hExit,
    (flags_restored_after_local_scope shell hReachable _).2 result last hSubmit⟩

end Shell

end OptionShell
