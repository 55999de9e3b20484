import OptionShell.Proofs.Interpreter.Nesting
import OptionShell.Proofs.Shell.Lines

/-!
# Commands always finish

In a shell no setter sets another option, so setting always comes to an end, and with it every command. A call can go
on forever only in the line of its scope.
-/
namespace OptionShell

variable {α β : Type}

/-- An action finishes, whatever it is made of, if the changes do that it makes. -/
theorem Action.Composed.finishes {Known : Options (Host α) → Prop} {action : Action α β}
    (h : Composed Known (fun _ change => Finishes Known change) action) :
    Finishes (fun w => Known w.options) action.run := by
  induction h with
  | ok answer => exact .ok answer
  | throw error => exact .throw error
  | andThen _ _ ih ihNext => exact .andThen ih ihNext
  | look _ _ ih => exact .get_andThen ih
  | alter g _ hKnown => exact .alter hKnown
  | @update _ change hFits =>
    intro w hw
    obtain ⟨answer, options, hChange, hAfter⟩ := hFits w.options hw
    refine ⟨.ok answer, { w with options }, ?_, hAfter⟩
    rw [run_update, hChange]
    rfl
  | editVars edit hKnown =>
    intro w hw
    have hRun := run_editVars edit w
    split at hRun
    · exact ⟨_, _, hRun, hKnown w.options _ hw⟩
    · exact ⟨_, _, hRun, hw⟩
  | tryCatch _ _ ih ihHandler => exact .tryCatch ih ihHandler

namespace Shell

open Execution Interpreter Line

variable {s : Session Unit}

/-! ## Changes of the options -/

theorem finishes_set {d : Definition (Host Unit)} (hd : d ∈ Family) (why : Access) (value : Int32) :
    Finishes Sound (Update.set d why value) :=
  setInvariant_sound.set d hd why value

theorem finishes_removeAll {defs : List (Definition (Host Unit))} (hDefs : ∀ d ∈ defs, d ∈ primeOptions) :
    Finishes Sound (Extension.removeAll defs) := fun _ hs =>
  ⟨(), _, rfl, sound_of_loadSteps (leads_removeAll hDefs _ _ rfl) hs⟩

theorem finishes_addAll (name : String) {added rest : List (Definition (Host Unit))}
    (hAdded : ∀ d ∈ added, d ∈ primeOptions) (hRest : ∀ d ∈ rest, d ∈ primeOptions) :
    Finishes Sound (Extension.addAll name added rest) := by
  induction rest generalizing added with
  | nil => exact .pure _
  | cons d rest ih =>
    obtain ⟨hd, hRest⟩ := List.forall_mem_cons.mp hRest
    have hAdd : Finishes Sound (modifyGet (·.add d) : Update (Host Unit) Outcome) := fun _ hs =>
      ⟨_, _, rfl, hs.add (mem_family_of_prime hd)⟩
    refine .bind hAdd fun outcome => ?_
    split
    · refine ih (fun e he => ?_) hRest
      obtain he | he := List.mem_append.mp he
      · exact hAdded e he
      · exact List.mem_singleton.mp he ▸ hd
    · exact .bind (finishes_removeAll hAdded) fun _ => .pure _

theorem finishes_enterHook : Finishes Sound (Prime.enter : Update (Host Unit) (Except ShellError Unit)) := by
  intro s hs
  obtain ⟨⟨answer, after⟩, hRun⟩ : ∃ ran, Prime.enter s = some ran := by
    rw [Prime.enter]
    split <;> exact ⟨_, rfl⟩
  exact ⟨answer, after, hRun, sound_of_loadSteps (leads_enterHook answer after hRun) hs⟩

theorem finishes_enter : Finishes Sound primeExtension.enter := by
  refine .bind (finishes_addAll _ (fun d hd => by cases hd) fun d hd => hd) fun result => ?_
  split
  · exact .pure _
  · refine .bind finishes_enterHook fun result => ?_
    split
    · exact .bind (finishes_removeAll fun d hd => hd) fun _ => .pure _
    · exact .pure _

theorem finishes_leave : Finishes Sound primeExtension.leave := by
  refine .bind (fun s hs => ⟨(), _, rfl, hs.congr rfl rfl⟩) fun _ => ?_
  refine .bind (.forM fun d hd => ?_) fun _ => finishes_removeAll fun d hd => hd
  split
  · exact .bind (finishes_set (mem_family_of_prime hd) .unload _) fun _ => .pure _
  · exact .pure _

/-- All changes that commands make finish, and leave the options sound. -/
theorem suits_sound : catalog.Suits Sound fun _ change => Finishes Sound change where
  host _ _ hs := hs.congr rfl rfl
  read _ reading h s hs := by
    obtain ⟨host, hHost⟩ := h s
    refine ⟨(reading s).1, (reading s).2, rfl, ?_⟩
    rw [hHost]
    exact hs.congr rfl rfl
  set _ d why value hs hFound := finishes_set (mem_family_of_finds hs.within hFound) why value
  switchFlag letter on _ hs := setInvariant_sound.switchFlag letter on hs
  enter _ _ hFound := eq_of_find?_catalog hFound ▸ finishes_enter
  leave _ _ hFound := eq_of_find?_catalog hFound ▸ finishes_leave

/-! ## Calls -/

theorem exists_run_closeScope (hs : Sound s.options) :
    ∃ ran, (closeScope : Execution Unit Unit).run s = some ran := by
  match hScopes : s.scopes with
  | [] =>
    obtain ⟨⟨options, loaded, scopes, diagnostics, exit?, stateLetters⟩, lastStatus⟩ := s
    cases hScopes
    exact ⟨_, rfl⟩
  | none :: outer => exact ⟨_, run_closeScope_of_none hScopes⟩
  | some saved :: outer =>
    obtain ⟨count, options, hRun, -⟩ := setInvariant_sound.reinstateFlags saved hs
    rw [run_closeScope_of_some hScopes, hRun]
    exact ⟨_, rfl⟩

/-- Words that open no scope always finish. -/
theorem exists_dispatched (hs : Sound s.options) (runLine : String → Execution Unit Output) (name : String)
    (args : List String) (hScope : name = "scope" → args = [] ∨ s.options.enabled "noexec" = true) :
    ∃ ran, interpreter.dispatched runLine name args s = some ran := by
  rw [dispatched]
  split
  · exact ⟨_, rfl⟩
  · rename_i hRuns
    split
    · exact ⟨_, rfl⟩
    · split
      · rename_i hName
        obtain rfl | hExec := hScope hName
        · exact ⟨_, rfl⟩
        · exact absurd (by rw [hExec, hName]; rfl) hRuns
      · split
        · rename_i command hFound
          obtain ⟨answer, work, hRun, -⟩ := (composed_command suits_sound hFound args).finishes s.toWorkspace hs
          refine ⟨(answer, { s with toWorkspace := work }), ?_⟩
          rw [hRun]
          rfl
        · exact ⟨_, rfl⟩

/-- A call finishes if the line in its scope does. -/
theorem exists_run_of_scope {call : Call Unit} (hs : Sound call.start.options) {depth : Nat}
    (hScope : ∀ inner opened, call.scope? = some (inner, opened) →
      ∃ ran, (interpreter.execute depth inner).run opened = some ran ∧ Sound ran.2.options) :
    ∃ ran, (interpreter.runSegment (interpreter.execute depth) call.command).run call.start = some ran := by
  rw [run_runSegment]
  cases hWords : expandWords call.start call.command with
  | error error => exact ⟨_, rfl⟩
  | ok words =>
    cases words with
    | nil => exact ⟨_, rfl⟩
    | cons name args =>
      dsimp only
      rw [run_runWords_cons]
      have hOpens : call.scope? = scopeLine? call.start (name :: args) := by
        rw [Call.scope?, hWords]
        rfl
      obtain ⟨diagnostics, hTraced⟩ := exists_traced (name :: args) call.start
      cases hLine : scopeLine? call.start (name :: args) with
      | none =>
        refine exists_dispatched (by rwa [hTraced]) _ name args fun hName => ?_
        rw [hTraced]
        subst hName
        simpa [scopeLine?, or_iff_not_imp_left] using hLine
      | some scope =>
        obtain ⟨inner, opened⟩ := scope
        obtain ⟨ran, hRun, hSound⟩ := hScope inner opened (hOpens.trans hLine)
        obtain ⟨closed, hClosed⟩ := exists_run_closeScope hSound
        rw [dispatched_of_scopeLine hLine, hRun, Option.bind_some, hClosed]
        exact ⟨_, rfl⟩

end Shell

end OptionShell
