import OptionShell.Proofs.Shell.PrimeUses

/-!
# What a division shows

However the extension was used before, `is_prime -d` shows the divisor alone or after the trials of the candidate that
it divides. The least number is the exception: it has no trials of its own, and those that were kept on another number
are shown with its divisor.
-/
namespace OptionShell

namespace Shell

namespace PrimeUse

variable {α : Type} {core : Registry (Host Unit)} {w after : Workspace Unit} {shell : Shell}

/-! ## Moves of the uses -/

theorem leads_answering {R : Workspace Unit → Workspace Unit → Prop} {action : Action Unit α}
    (h : Leads R action.run w) (answer : Except ShellError α → Answer) : Leads R (answering answer action) w := by
  intro _ _ hRun
  obtain ⟨⟨result, work⟩, hAction, hSame⟩ := Option.bind_eq_some_iff.mp hRun
  cases hSame
  exact h result _ hAction

theorem leads_primeMoves_callCommand (h : Equipped core w) (args : List String) :
    Leads PrimeMoves (callCommand args).run w := by
  intro result after hRun
  by_cases hLoaded : "prime" ∈ w.loaded
  · rw [run_callCommand hLoaded] at hRun
    exact leads_primeMoves_run primeCells false args result after hRun
  · rw [run_callCommand_of_unloaded (h.clean hLoaded).loaded] at hRun
    cases hRun
    exact .refl

theorem leads_primeMoves_setNamed (h : Equipped core w) (name : String) (why : Access) (value : Int32) :
    Leads PrimeMoves (Action.update (Update.setNamed name why value)).run w :=
  Action.leads_update fun _ _ hRun => primeMoves_of_eq
    (prime_eq_of_commutesFrom (fun p => commutesFrom_setNamed p name why value) h.stocked.sound hRun)

theorem leads_effects_valueByName (name : String) (why : Access) :
    Leads (Effects catalog) (Action.read (Reading.valueByName name why)).run w := by
  have hReading : Reading.valueByName name why w.options = _ := Reading.valueByName_eq name why w.options
  refine Action.leads_update fun _ _ hRun => ?_
  rw [hReading] at hRun
  split at hRun
  · rename_i d hFound
    cases hRun
    exact .single (.note d why ((Registry.findName?_eq_some_iff _ name).mp hFound).1)
  · cases hRun
    exact .refl

theorem leads_primeMoves (h : Equipped core w) (use : PrimeUse) : Leads PrimeMoves use.run w := by
  refine match use with
    | load => leads_answering (fun _ _ hRun => h.primeMoves_load hRun) _
    | unload => leads_answering (fun _ _ hRun => h.primeMoves_unload hRun) _
    | call args => leads_answering (leads_primeMoves_callCommand h args) _
    | set name why value => leads_answering (leads_primeMoves_setNamed h name why value) _
    | read name why => leads_answering ?_ _
    | list why mask style => leads_answering ?_ _
  · exact (leads_effects_valueByName name why).mono fun _ hEffects => (h.carries_effects hEffects).moves
  · exact (Action.leads_readListing why mask style).mono fun _ hEffects => (h.carries_effects hEffects).moves

/-- Uses have answers, and the extension makes moves. -/
theorem exists_moves_runAll (h : Tracking core w) (uses : List PrimeUse) :
    ∃ answers after, runAll uses w = some (answers, after) ∧ Tracking core after ∧ PrimeMoves w after := by
  induction uses generalizing w with
  | nil => exact ⟨[], w, rfl, h, .refl⟩
  | cons use rest ih =>
    have hSteady : Steady core w w.options.host.prime := ⟨h, rfl, h.current⟩
    obtain ⟨first, _, mid, _, hFirst, -, -, hMid⟩ := hSteady.exists_run use
    obtain ⟨answers, after, hRest, hAfter, hMoves⟩ := ih hMid.tracking
    have hFirstMoves := leads_primeMoves h.equipped use first mid hFirst
    exact ⟨first :: answers, after, runAll_cons hFirst hRest, hAfter, IsTrans.trans _ _ _ hFirstMoves hMoves⟩

/-! ## Divisions -/

/-- Arguments that ask `is_prime` for the divisor: `-d` comes first or after `-q` only. -/
def AskForDivisor (args : List String) : Prop :=
  ∃ quiets rest, args = quiets ++ "-d" :: rest ∧ ∀ word ∈ quiets, word = "-q"

theorem AskForDivisor.run_eq {args : List String} (h : AskForDivisor args) (cells : Prime.Cells) (quiet : Bool) :
    (Prime.run cells quiet args : Action Unit Output) = Prime.reportDivisor cells := by
  obtain ⟨quiets, rest, rfl, hQuiets⟩ := h
  rw [Prime.run_quiets cells quiet hQuiets, Prime.run, if_neg (by decide), if_neg (by decide), if_pos rfl]

theorem run_of_askForDivisor {args : List String} (hArgs : AskForDivisor args) (h : Equipped core w)
    (hLoaded : "prime" ∈ w.loaded) : (call args).run w =
      some (.shown (.ok (.text (Prime.divisionText primeCells w))), Prime.divided primeCells w) := by
  have hCommand : ((Prime.command primeCells).run args : Action Unit Output) = (Prime.command primeCells).run ["-d"] :=
    (hArgs.run_eq primeCells false).trans (AskForDivisor.run_eq ⟨[], [], rfl, nofun⟩ primeCells false).symm
  refine answering_eq ((run_callCommand hLoaded args).trans ?_) .shown
  rw [hCommand]
  exact Prime.run_reportDivisor h.vars

/-- However a shell was used and then the extension: while it is loaded, a division shows the divisor and sets the
variable of the divisor to it. Nothing comes before it or the trials of the candidate that is divided, unless this is
the least number and trials were kept. In that case the kept ones are shown. -/
theorem trials_shown_iff (hShell : Reachable shell) (uses : List PrimeUse) {args : List String}
    (hArgs : AskForDivisor args) :
    ∃ answers after, runAll uses shell.session.toWorkspace = some (answers, after) ∧
      ("prime" ∈ after.loaded → ∃ text divisor last,
        (call args).run after = some (.shown (.ok (.text text)), last) ∧
        last.vars.value? Prime.divisorName = some (toString divisor) ∧
        (text = toString divisor ∨ text = Prime.shownText (Prime.trialLines (candidateOf after)) divisor ↔
          candidateOf after ≠ Int64.minValue ∨ after.options.host.prime.trials = []) ∧
        (candidateOf after = Int64.minValue → text = Prime.shownText after.options.host.prime.trials divisor)) := by
  obtain ⟨core, hTracking⟩ := hShell.tracking
  obtain ⟨-, -, hBefore⟩ := hShell.primeMoves
  obtain ⟨answers, after, hRun, hAfter, hMoves⟩ := exists_moves_runAll hTracking uses
  have hReported : after.options.host.prime.Reported := Prime.State.reported_default.moves (hBefore.trans hMoves)
  refine ⟨answers, after, hRun, fun hLoaded => ?_⟩
  refine ⟨_, _, _, run_of_askForDivisor hArgs hAfter.equipped hLoaded, ?_, hReported.shows_own_iff _ _ _, fun hMin => ?_⟩
  · rw [Prime.vars_divided, value?_bind, if_pos rfl]
  · rw [← Prime.State.trials_search_of_minValue hMin (primeCells.verbose after.options.storage)]
    exact congrArg (Prime.shownText · _) (Prime.State.trials_divide _ _ _)

/-- The first candidate is searched and then `45` is divided: the trials of `42` are gone. -/
theorem trials_shown_of_45 :
    let uses := [set "verbose_factorize" .shopt 1, read "is_prime" .shopt, call ["-s", "45"]]
    ∃ shell answers after text divisor last, Shell.start { extensions := ["prime"] } {} [] = some (.ok shell) ∧
      runAll uses shell.session.toWorkspace = some (answers, after) ∧ "prime" ∈ after.loaded ∧ candidateOf after = 45 ∧
      after.options.host.prime.trials ≠ [] ∧
      (call ["-q", "-d"]).run after = some (.shown (.ok (.text text)), last) ∧
      (text = toString divisor ∨ text = Prime.shownText (Prime.trialLines 45) divisor) := by
  intro uses
  have hRuns : ((Shell.start { extensions := ["prime"] } {} []).bind Except.toOption).any (fun shell =>
      (runAll uses shell.session.toWorkspace).any fun ran => decide ("prime" ∈ ran.2.loaded ∧ candidateOf ran.2 = 45 ∧
        ran.2.options.host.prime.trials ≠ [])) = true := by decide +kernel
  obtain ⟨shell, hStart, hAny⟩ := exists_of_any_start hRuns
  obtain ⟨ran, hRan, hLast⟩ := (Option.any_eq_true _ _).mp hAny
  obtain ⟨hLoaded, hCandidate, hKept⟩ := of_decide_eq_true hLast
  have hArgs : AskForDivisor ["-q", "-d"] := ⟨["-q"], [], rfl, by decide⟩
  obtain ⟨answers, after, hRun, hShown⟩ := trials_shown_iff (.start _ _ _ shell hStart) uses hArgs
  cases hRan.symm.trans hRun
  obtain ⟨text, divisor, last, hCall, -, hOwn, -⟩ := hShown hLoaded
  have hEither := hOwn.mpr (.inl (by rw [hCandidate]; decide))
  rw [hCandidate] at hEither
  exact ⟨shell, answers, after, text, divisor, last, hStart, hRun, hLoaded, hCandidate, hKept, hCall, hEither⟩

/-- The first candidate is searched and then the least number is divided: the trials of `42` are shown. -/
theorem trials_of_42_shown_with_least_number :
    let uses := [set "verbose_factorize" .shopt 1, read "is_prime" .shopt, call ["-s", "-9223372036854775808"]]
    ∃ shell answers after last, Shell.start { extensions := ["prime"] } {} [] = some (.ok shell) ∧
      runAll uses shell.session.toWorkspace = some (answers, after) ∧ candidateOf after = Int64.minValue ∧
      (call ["-d"]).run after = some (.shown (.ok (.text "42 is divisible by 2\n-2")), last) ∧
      last.vars.value? Prime.divisorName = some "-2" ∧
      ∀ trials ∈ [[], Prime.trialLines Int64.minValue], "42 is divisible by 2\n-2" ≠ Prime.shownText trials (-2) := by
  intro uses
  have hRuns : ((Shell.start { extensions := ["prime"] } {} []).bind Except.toOption).any (fun shell =>
      (runAll uses shell.session.toWorkspace).any fun ran => decide ("prime" ∈ ran.2.loaded ∧
        candidateOf ran.2 = Int64.minValue ∧ (Prime.division primeCells ran.2).1 = -2 ∧
        Prime.divisionText primeCells ran.2 = "42 is divisible by 2\n-2")) = true := by decide +kernel
  obtain ⟨shell, hStart, hAny⟩ := exists_of_any_start hRuns
  obtain ⟨⟨answers, after⟩, hRun, hLast⟩ := (Option.any_eq_true _ _).mp hAny
  obtain ⟨hLoaded, hCandidate, hDivisor, hText⟩ := of_decide_eq_true hLast
  obtain ⟨core, hTracking⟩ := (Reachable.start _ _ _ shell hStart).tracking
  obtain ⟨_, _, hSame, hAfter, -⟩ := exists_moves_runAll hTracking uses
  cases hRun.symm.trans hSame
  have hCall := run_of_askForDivisor ⟨[], [], rfl, nofun⟩ hAfter.equipped hLoaded
  rw [hText] at hCall
  refine ⟨shell, answers, after, _, hStart, hRun, hCandidate, hCall, ?_, by decide⟩
  rw [Prime.vars_divided, value?_bind, if_pos rfl, hDivisor]
  rfl

end PrimeUse

end Shell

end OptionShell
