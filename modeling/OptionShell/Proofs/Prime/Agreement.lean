import OptionShell.Proofs.Prime.Command

/-!
# Agreeing states of the extension

What the extension remembers besides the candidate is a memory of searches. Two states agree if they have the same
candidate and neither remembers a wrong factor. Agreeing states tell the same about the candidate, and the command
`is_prime` keeps them agreeing: at most the trials that it prints differ.
-/
namespace OptionShell

namespace Prime

namespace State

variable {s t : State}

/-- The same candidate, and no factor of another one is kept. -/
structure Agrees (s t : State) : Prop where
  candidate : t.candidate = s.candidate
  left : s.Current
  right : t.Current

theorem Agrees.refl (h : s.Current) : s.Agrees s := ⟨rfl, h, h⟩

/-! ## What agreeing states tell -/

theorem Agrees.factor_eq (h : s.Agrees t) : t.factor = s.factor := by
  rw [h.right.factor_eq, h.left.factor_eq, searched, searched, h.candidate]

theorem Agrees.reduction_eq (h : s.Agrees t) : t.reduction = s.reduction := by
  rw [reduction, reduction, h.factor_eq, h.candidate]

theorem Agrees.isPrime_eq (h : s.Agrees t) : t.isPrime = s.isPrime := by
  rw [isPrime, isPrime, h.factor_eq, h.candidate]

/-- Below two no number is prime, and the kept factor is not asked for. -/
theorem Current.isPrime_eq (h : s.Current) : s.isPrime = decide s.candidate.toInt.toNat.Prime := by
  rw [isPrime]
  by_cases hTwo : 2 ≤ s.candidate.toInt
  · have hMore : 1 < s.candidate := Int64.lt_iff_toInt_lt.mpr (by simp; omega)
    rw [decide_eq_true hMore, Bool.true_and, factor_eq_of_two_le h hTwo]
    split
    · rename_i hPrime
      rw [decide_eq_true hPrime, decide_eq_true rfl]
    · rename_i hComposite
      rw [decide_eq_false hComposite, decide_eq_false nofun]
  · have hLess : ¬1 < s.candidate := fun hMore => hTwo (by have := Int64.lt_iff_toInt_lt.mp hMore; simp at this; omega)
    have hNot : ¬s.candidate.toInt.toNat.Prime := fun hPrime => by
      have := hPrime.two_le
      omega
    rw [decide_eq_false hLess, decide_eq_false hNot, Bool.false_and]

/-! ## What keeps states agreeing -/

theorem agrees_consider (s t : State) (n : Int64) : (s.consider n).Agrees (t.consider n) := ⟨rfl, .inl rfl, .inl rfl⟩

theorem Agrees.search (h : s.Agrees t) (verbose : Bool) : (s.search verbose).Agrees (t.search verbose) := by
  refine ⟨?_, current_search s verbose h.left, current_search t verbose h.right⟩
  rw [candidate_search, candidate_search, h.candidate]

theorem Agrees.searchIsPrime (h : s.Agrees t) (verbose : Bool) :
    (s.searchIsPrime verbose).Agrees (t.searchIsPrime verbose) := by
  rw [State.searchIsPrime, State.searchIsPrime, h.candidate]
  split
  · exact h.search verbose
  · exact h

/-- A state agrees with the one after it was asked whether the candidate is prime. -/
theorem agrees_searchIsPrime (h : s.Current) (verbose : Bool) : s.Agrees (s.searchIsPrime verbose) := by
  rw [State.searchIsPrime]
  split
  · exact ⟨candidate_search s verbose, h, current_search s verbose h⟩
  · exact .refl h

theorem Agrees.divide (h : s.Agrees t) (auto verbose : Bool) :
    (t.divide auto verbose).1 = (s.divide auto verbose).1 ∧
      (s.divide auto verbose).2.Agrees (t.divide auto verbose).2 := by
  rw [State.divide, State.divide, h.reduction_eq, h.candidate]
  refine ⟨rfl, ?_⟩
  dsimp only
  split
  · exact agrees_consider _ _ _
  · exact h.search verbose

theorem Agrees.handOverTrials (h : s.Agrees t) : s.handOverTrials.2.Agrees t.handOverTrials.2 :=
  ⟨h.candidate, h.left, h.right⟩

end State

/-! ## The command -/

variable {α : Type} {cells : Cells} {w : Workspace α} {t : State}

/-- The same answer, except that a division may show other trials before the divisor. -/
inductive SameDivisor : Except ShellError Output → Except ShellError Output → Prop where
  | same (answer : Except ShellError Output) : SameDivisor answer answer
  | division (trials other : List String) (divisor : Int64) :
    SameDivisor (.ok (.text (Text.joinLines (trials ++ [toString divisor]))))
      (.ok (.text (Text.joinLines (other ++ [toString divisor]))))

/-- The action has a result whatever else is in a state that agrees with that of the workspace. It edits the
variables in the same way, and keeps the states agreeing. -/
def RunsAlike (action : Action α Output) (w : Workspace α) (t : State) : Prop :=
  ∃ answer other vars s' t', action.run w = some (answer, setVars vars (setState s' w)) ∧
    action.run (setState t w) = some (other, setVars vars (setState t' w)) ∧
    SameDivisor answer other ∧ vars.OnlyRosters ∧ s'.Agrees t'

theorem runsAlike_of_same (h : w.vars.OnlyRosters) (hAgrees : w.options.host.prime.Agrees t)
    {action : Action α Output} {answer : Except ShellError Output} (hFirst : action.run w = some (answer, w))
    (hSecond : action.run (setState t w) = some (answer, setState t w)) : RunsAlike action w t :=
  ⟨answer, answer, w.vars, w.options.host.prime, t, hFirst, hSecond, .same answer, h, hAgrees⟩

theorem runsAlike_throw (h : w.vars.OnlyRosters) (hAgrees : w.options.host.prime.Agrees t) (error : ShellError) :
    RunsAlike (throw error : Action α Output) w t :=
  runsAlike_of_same h hAgrees rfl rfl

/-- Numbers are tested with fresh searches, which leave no trace. -/
theorem runsAlike_test (h : w.vars.OnlyRosters) (hAgrees : w.options.host.prime.Agrees t) (quiet : Bool)
    (words : List String) : RunsAlike (test quiet words) w t := by
  have hCandidate : (setState t w).options.host.prime.candidate = w.options.host.prime.candidate := hAgrees.candidate
  refine runsAlike_of_same h hAgrees ((Action.run_bind_of_ok run_state).trans rfl)
    ((Action.run_bind_of_ok run_state).trans ?_)
  change (pure _ : Action α Output).run _ = _
  rw [hCandidate]
  rfl

theorem runsAlike_consider (h : w.vars.OnlyRosters) (hAgrees : w.options.host.prime.Agrees t) (arg? : Option String) :
    RunsAlike (consider arg?) w t := by
  cases hNumber : arg?.bind fun arg => Text.int64? arg.toList with
  | none =>
    rw [consider, hNumber]
    exact runsAlike_throw h hAgrees _
  | some n =>
    obtain ⟨arg, rfl, hArg⟩ := Option.bind_eq_some_iff.mp hNumber
    have hVars := h.edit (.assign _ _ _ (assign_candidate h (toString n)))
    exact ⟨_, _, _, _, _, run_consider_of_int64? h hArg, run_consider_of_int64? (w := setState t w) h hArg, .same _,
      hVars, State.agrees_consider _ _ n⟩

theorem runsAlike_reportDivisor (h : w.vars.OnlyRosters) (hAgrees : w.options.host.prime.Agrees t) :
    RunsAlike (reportDivisor cells) w t := by
  obtain ⟨hDivisor, hReduced⟩ := hAgrees.divide (cells.auto w.options.storage) (cells.verbose w.options.storage)
  have hSame : (division cells (setState t w)).1 = (division cells w).1 := hDivisor
  have hCandidate : (division cells (setState t w)).2.candidate = (division cells w).2.candidate := hReduced.candidate
  have hVars : (divided cells (setState t w)).vars = (divided cells w).vars := by
    rw [vars_divided, vars_divided, hSame, hCandidate]
    rfl
  refine ⟨.ok (.text (divisionText cells w)), .ok (.text (divisionText cells (setState t w))), (divided cells w).vars,
    (division cells w).2.handOverTrials.2, (division cells (setState t w)).2.handOverTrials.2, run_reportDivisor h,
    (run_reportDivisor (w := setState t w) h).trans ?_, ?_, onlyRosters_divided h, hReduced.handOverTrials⟩
  · rw [← hVars]
    rfl
  · rw [divisionText, divisionText, hSame]
    exact .division _ _ _

theorem runsAlike_run (cells : Cells) (h : w.vars.OnlyRosters) (hAgrees : w.options.host.prime.Agrees t) (quiet : Bool)
    (args : List String) : RunsAlike (run cells quiet args) w t := by
  induction args generalizing quiet with
  | nil => exact runsAlike_test h hAgrees quiet []
  | cons word rest ih =>
    rw [run]
    split
    · exact ih true
    · split
      · exact runsAlike_consider h hAgrees _
      · split
        · exact runsAlike_reportDivisor h hAgrees
        · split
          · exact runsAlike_test h hAgrees quiet rest
          · split
            · exact runsAlike_throw h hAgrees _
            · exact runsAlike_test h hAgrees quiet _

end Prime

end OptionShell
