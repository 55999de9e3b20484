import Mathlib.Algebra.BigOperators.Ring.Finset
import Mathlib.Data.Nat.Factors
import OptionShell.Proofs.Prime.Command
import OptionShell.Proofs.Shell.Commands
import OptionShell.Proofs.Shell.WritableVariables

/-!
# Factorization by repeated division

While `auto_factorize` is on, repeated calls of `is_prime -d` report the factors of the candidate one by one and divide
them out, until the candidate is one. Each call shows the candidate and the divisor in the variables of the extension.
-/
namespace OptionShell

namespace Shell

variable {w after : Workspace Unit} {shell : Shell}

/-- Runs the command that a name stands for. -/
def call (name : String) (args : List String) (w : Workspace Unit) :
    Option (Except ShellError Output × Workspace Unit) :=
  (interpreter.findCommand? w.loaded name).bind fun command => (command.run args).run w

/-- The candidate of the extension. -/
def candidateOf (w : Workspace Unit) : Int64 := w.options.host.prime.candidate

/-- One call of `is_prime -d` and the divisor that it reports. -/
structure Reports (w : Workspace Unit) (divisor : Int64) (after : Workspace Unit) : Prop where
  answered : ∃ trials, call "is_prime" ["-d"] w =
    some (.ok (.text (Text.joinLines (trials ++ [toString divisor]))), after)
  /-- The division has a result with checked operations. -/
  checked : ∃ reduced, w.options.host.prime.divide? (primeCells.auto w.options.storage)
    (primeCells.verbose w.options.storage) = some (divisor, reduced)
  candidateShown : after.vars.value? Prime.candidateName = some (toString (candidateOf after))
  divisorShown : after.vars.value? Prime.divisorName = some (toString divisor)

/-- Calls of `is_prime -d`, one after the other. -/
inductive Divisions : Workspace Unit → List Int64 → Workspace Unit → Prop where
  | none (w : Workspace Unit) : Divisions w [] w
  | next {w mid after : Workspace Unit} {divisor : Int64} {divisors : List Int64} (hFirst : Reports w divisor mid)
      (hRest : Divisions mid divisors after) : Divisions w (divisor :: divisors) after

/-! ## One division -/

/-- The command is there, divides out, and can show its results. -/
structure Dividing (w : Workspace Unit) : Prop where
  found : interpreter.findCommand? w.loaded "is_prime" = some (Prime.command primeCells)
  auto : primeCells.auto w.options.storage = true
  vars : w.vars.OnlyRosters
  current : w.options.host.prime.Current

theorem call_of_found (hFound : interpreter.findCommand? w.loaded "is_prime" = some (Prime.command primeCells))
    (args : List String) : call "is_prime" args w = ((Prime.command primeCells).run args).run w := by
  rw [call, hFound, Option.bind_some]

theorem value?_bind (vars : Variables) (name value other : String) :
    (vars.bind name value).value? other = if other = name then some value else vars.value? other := by
  rw [Variables.value?, Variables.bind, Table.find?_insert]
  split
  · rfl
  · rfl

theorem Dividing.exists_report (h : Dividing w) : ∃ after, Reports w w.options.host.prime.reduction.1 after ∧
    Dividing after ∧ candidateOf after = if candidateOf w = 1 then 1 else w.options.host.prime.reduction.2 := by
  have hRun := (call_of_found h.found ["-d"]).trans (Prime.run_reportDivisor h.vars)
  have hDivision : Prime.division primeCells w =
      w.options.host.prime.divide true (primeCells.verbose w.options.storage) := by
    rw [Prime.division, h.auto]
  have hState : (Prime.divided primeCells w).options.host.prime = (Prime.division primeCells w).2.handOverTrials.2 := rfl
  refine ⟨Prime.divided primeCells w, ⟨⟨_, hRun⟩, ⟨(Prime.division primeCells w).2, ?_⟩, ?_, ?_⟩,
    ⟨h.found, h.auto, ?_, ?_⟩, ?_⟩
  · exact h.current.divide?_eq _ _
  · rw [Prime.vars_divided, value?_bind, if_neg (by decide), value?_bind, if_pos rfl]
    rfl
  · rw [Prime.vars_divided, value?_bind, if_pos rfl]
    rfl
  · exact Prime.onlyRosters_divided h.vars
  · rw [hState, hDivision]
    exact h.current.divide _
  · rw [candidateOf, hState, hDivision]
    exact Prime.State.candidate_divide _ _

/-! ## Chains of divisions -/

/-- Ways to divide the candidate down to one. -/
def Factors (w : Workspace Unit) (divisors : List Int64) : Prop :=
  ∃ after, Divisions w divisors after ∧ Dividing after ∧ candidateOf after = 1

theorem Factors.cons {divisor : Int64} {divisors : List Int64} (hFirst : Reports w divisor after)
    (hRest : Factors after divisors) : Factors w (divisor :: divisors) := by
  obtain ⟨last, hDivisions, hLast⟩ := hRest
  exact ⟨last, .next hFirst hDivisions, hLast⟩

/-- A positive candidate is divided by its prime factors, the least first. -/
theorem Dividing.factors_of_pos {m : Nat} (h : Dividing w) (hCandidate : (candidateOf w).toInt = m) (hPos : 0 < m) :
    ∃ divisors, Factors w divisors ∧ divisors.map Int64.toInt = m.primeFactorsList.map Nat.cast := by
  induction m using Nat.strong_induction_on generalizing w with
  | h m ih =>
    by_cases hOne : m = 1
    · have hDone : candidateOf w = 1 := Int64.toInt_inj.mp (hCandidate.trans (hOne ▸ rfl))
      exact ⟨[], ⟨w, .none w, h, hDone⟩, by rw [hOne, Nat.primeFactorsList_one]; rfl⟩
    · obtain ⟨mid, hReport, hMid, hReduced⟩ := h.exists_report
      have hMore : candidateOf w ≠ 1 := by
        intro hDone
        have hUnit : (1 : Int64).toInt = 1 := rfl
        rw [hDone, hUnit] at hCandidate
        omega
      have hNat : (candidateOf w).toInt.toNat = m := by rw [hCandidate, Int.toNat_natCast]
      obtain ⟨hDivisor, hRest⟩ := Prime.State.reduction_of_two_le h.current (by
        change 2 ≤ (candidateOf w).toInt
        omega)
      change _ = (((candidateOf w).toInt.toNat.minFac : Nat) : Int) at hDivisor
      change _ = (((candidateOf w).toInt.toNat / (candidateOf w).toInt.toNat.minFac : Nat) : Int) at hRest
      rw [if_neg hMore] at hReduced
      rw [← hReduced] at hRest
      rw [hNat] at hDivisor hRest
      have hPrime := Nat.minFac_prime hOne
      have hBelow : m / m.minFac < m := Nat.div_lt_self hPos hPrime.one_lt
      have hLeft : 0 < m / m.minFac := Nat.div_pos (Nat.minFac_le hPos) hPrime.pos
      obtain ⟨divisors, hFactors, hList⟩ := ih _ hBelow hMid hRest hLeft
      refine ⟨_, hFactors.cons hReport, ?_⟩
      have hSplit : m.primeFactorsList = m.minFac :: (m / m.minFac).primeFactorsList := by
        obtain ⟨k, rfl⟩ := Nat.exists_eq_add_of_le' (by omega : 2 ≤ m)
        exact Nat.primeFactorsList_add_two k
      rw [List.map_cons, hDivisor, hList, hSplit, List.map_cons]

/-- Zero is reported as it is and becomes one. A negative candidate is divided by a negative number first. -/
theorem Dividing.factors (h : Dividing w) :
    ∃ divisors, Factors w divisors ∧ (divisors.map Int64.toInt).prod = (candidateOf w).toInt ∧
      (2 ≤ (candidateOf w).toInt →
        divisors.map Int64.toInt = (candidateOf w).toInt.toNat.primeFactorsList.map Nat.cast) := by
  have hProduct {m : Nat} (hPos : 0 < m) : (m.primeFactorsList.map (Nat.cast : Nat → Int)).prod = m := by
    rw [← Nat.cast_list_prod, Nat.prod_primeFactorsList (by omega)]
  obtain hNeg | hZero | hPos := lt_trichotomy (candidateOf w).toInt 0
  · obtain ⟨mid, hReport, hMid, hReduced⟩ := h.exists_report
    obtain ⟨hLeft, hSame⟩ := Prime.State.reduction_of_neg h.current hNeg
    have hMore : candidateOf w ≠ 1 := by
      intro hDone
      rw [hDone] at hNeg
      cases hNeg
    rw [if_neg hMore] at hReduced
    rw [← hReduced] at hLeft hSame
    obtain ⟨divisors, hFactors, hList⟩ := hMid.factors_of_pos (m := (candidateOf mid).toInt.toNat) (by omega) (by omega)
    refine ⟨_, hFactors.cons hReport, ?_, fun hTwo => by omega⟩
    rw [List.map_cons, List.prod_cons, hList, hProduct (by omega), Int.toNat_of_nonneg (by omega)]
    exact hSame
  · obtain ⟨mid, hReport, hMid, hReduced⟩ := h.exists_report
    have hCandidate : candidateOf w = 0 := Int64.toInt_inj.mp hZero
    rw [Prime.State.reduction_of_zero h.current hCandidate] at hReport hReduced
    rw [hCandidate, if_neg (by decide)] at hReduced
    refine ⟨[0], Factors.cons hReport ⟨mid, .none mid, hMid, hReduced⟩, ?_, fun hTwo => by omega⟩
    rw [hZero]
    rfl
  · obtain ⟨divisors, hFactors, hList⟩ := h.factors_of_pos (m := (candidateOf w).toInt.toNat) (by omega) (by omega)
    refine ⟨divisors, hFactors, ?_, fun _ => hList⟩
    rw [hList, hProduct (by omega), Int.toNat_of_nonneg (by omega)]

/-- Once the candidate is one, that is all that is reported. -/
theorem Dividing.exists_ones (h : Dividing w) (hOne : candidateOf w = 1) (count : Nat) :
    ∃ after, Divisions w (List.replicate count 1) after ∧ candidateOf after = 1 := by
  induction count generalizing w with
  | zero => exact ⟨w, .none w, hOne⟩
  | succ count ih =>
    obtain ⟨mid, hReport, hMid, hReduced⟩ := h.exists_report
    rw [Prime.State.reduction_of_one h.current hOne] at hReport
    rw [if_pos hOne] at hReduced
    obtain ⟨after, hDivisions, hLast⟩ := ih hMid hReduced
    exact ⟨after, .next hReport hDivisions, hLast⟩

/-! ## The command of a shell -/

theorem findCommand?_is_prime {loaded : List String} (hLoaded : "prime" ∈ loaded) :
    interpreter.findCommand? loaded "is_prime" = some (Prime.command primeCells) := by
  have hBuiltin : interpreter.commands.find? "is_prime" = none := rfl
  have hSome : (catalog.findCommand? loaded "is_prime").isSome := by
    rw [Catalog.findCommand?, List.find?_isSome]
    exact ⟨Prime.command primeCells, List.mem_flatMap.mpr ⟨"prime", hLoaded, List.mem_cons_self⟩, rfl⟩
  obtain ⟨command, hCommand⟩ := Option.isSome_iff_exists.mp hSome
  have hFound : interpreter.findCommand? loaded "is_prime" = some command := by
    rw [Interpreter.findCommand?, hBuiltin, Option.none_or]
    exact hCommand
  obtain hOwn | ⟨-, rfl⟩ := mem_or_eq_of_findCommand? hFound
  · have hNames : ∀ command ∈ Builtin.all catalog, command.name ≠ "is_prime" := by decide
    have hName := List.find?_some hCommand
    exact absurd (of_decide_eq_true hName) (hNames command hOwn)
  · exact hFound

theorem auto_of_enabled (hSound : Sound w.options) (hAuto : w.options.enabled "auto_factorize" = true) :
    primeCells.auto w.options.storage = true := by
  obtain ⟨value, hValue, hOn⟩ := (Option.any_eq_true _ _).mp hAuto
  obtain ⟨d, hFound, hGet⟩ := Option.bind_eq_some_iff.mp hValue
  obtain ⟨hLive, hName⟩ := (Registry.findName?_eq_some_iff _ _).mp hFound
  have hOption : ∀ d ∈ primeOptions, d.name? = some "auto_factorize" →
      d.getter?.isNone ∧ d.cell? = some primeCells.autoFactorize := by decide
  have hFirst : Prime.shoptOption StandardOptions.size "auto_factorize" primeCells.autoFactorize 1
      "Reading the divisor divides it out of PRIME_CANDIDATE." ∈ primeOptions := List.mem_cons_self
  obtain rfl := eq_of_name?_eq (hSound.within.live d hLive) (mem_family_of_prime hFirst) hName rfl
  obtain rfl : w.options.storage.read primeCells.autoFactorize = value := Option.some.inj hGet
  exact hOn

/-- While the extension is loaded and `auto_factorize` is on, setting the candidate to any number and then dividing
again and again brings it down to one, without overflow. The product of the divisors is the number, and from two on
they are its prime factors in ascending order. From then on every division reports one. -/
theorem repeated_division_factorizes (hShell : Reachable shell) (hMoves : Moves shell.session.toWorkspace w)
    (hLoaded : "prime" ∈ w.loaded) (hAuto : w.options.enabled "auto_factorize" = true) (n : Int64) :
    ∃ start, call "is_prime" ["-s", toString n] w = some (.ok .silent, start) ∧ candidateOf start = n ∧
      start.vars.value? Prime.candidateName = some (toString n) ∧
      ∃ divisors after, Divisions start divisors after ∧ candidateOf after = 1 ∧
        (divisors.map Int64.toInt).prod = n.toInt ∧
        (2 ≤ n.toInt → divisors.map Int64.toInt = n.toInt.toNat.primeFactorsList.map Nat.cast) ∧
        ∀ count, ∃ last, Divisions after (List.replicate count 1) last ∧ candidateOf last = 1 := by
  have hWritable := writable_of_moves hMoves hShell.writable
  have hFound := findCommand?_is_prime hLoaded
  have hRun := (call_of_found hFound _).trans (Prime.run_consider hWritable.vars n)
  have hStart : Dividing (Prime.considering n w) := by
    refine ⟨hFound, auto_of_enabled (w := w) hWritable.sound hAuto, ?_, .inl rfl⟩
    exact hWritable.vars.edit (.assign _ _ _ (Prime.assign_candidate hWritable.vars _))
  refine ⟨_, hRun, rfl, ?_, ?_⟩
  · change (w.vars.bind Prime.candidateName (toString n)).value? _ = _
    rw [value?_bind, if_pos rfl]
  · obtain ⟨divisors, ⟨after, hDivisions, hAfter, hOne⟩, hProduct, hPrimes⟩ := hStart.factors
    exact ⟨divisors, after, hDivisions, hOne, hProduct, hPrimes, hAfter.exists_ones hOne⟩

/-- A new shell with the extension divides `-12`. -/
theorem minus_twelve_factorized :
    ∃ shell, Shell.start { extensions := ["prime"] } {} [] = some (.ok shell) ∧ "prime" ∈ shell.session.loaded ∧
      shell.options.enabled "auto_factorize" = true ∧
      ∃ start, call "is_prime" ["-s", "-12"] shell.session.toWorkspace = some (.ok .silent, start) ∧
        ∃ divisors after, Divisions start divisors after ∧ candidateOf after = 1 ∧
          (divisors.map Int64.toInt).prod = -12 := by
  have hRuns : ((Shell.start { extensions := ["prime"] } {} []).bind Except.toOption).any (fun shell =>
      decide ("prime" ∈ shell.session.loaded) && shell.session.options.enabled "auto_factorize") = true := by
    decide +kernel
  obtain ⟨shell, hStart, hBoth⟩ := exists_of_any_start hRuns
  obtain ⟨hLoaded, hAuto⟩ := Bool.and_eq_true_iff.mp hBoth
  obtain ⟨start, hCall, -, -, divisors, after, hDivisions, hOne, hProduct, -⟩ :=
    repeated_division_factorizes (.start _ _ _ shell hStart) .refl (of_decide_eq_true hLoaded) hAuto (-12)
  exact ⟨shell, hStart, of_decide_eq_true hLoaded, hAuto, start, hCall, divisors, after, hDivisions, hOne, hProduct⟩

end Shell

end OptionShell
