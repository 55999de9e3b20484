import OptionShell.Proofs.Prime.Checked

/-!
# Searches that are reported

A search can write down a line for each of its trials. With checked operations it has a result whether it is reported
or not, and it finds the same factor. From two on that tells whether the number is prime, and the least divisor of a
number that is not.
-/
namespace OptionShell.Prime

/-- The lines written so far, if the search is reported. -/
abbrev Report := Option (List String)

def Report.note (report : Report) (line : String) : Report := report.map (· ++ [line])

/-- The end of the last line: what the search has found. -/
def verdict : Option Nat → String
  | some d => " is divisible by " ++ toString d
  | none => " is prime"

/-! ## The reported search -/

/-- The trial divisors `d`, `d + 2`, … while they are at most the quotient by them. -/
def reportedFrom? (n d : Int64) (report : Report) : Option (Factor × Report) :=
  (quotient? n d).bind fun quotient =>
    if d ≤ quotient then
      (remainder? n d).bind fun rest =>
        if rest = 0 then some (.divisor d, report.note (toString n ++ (" is divisible by " ++ toString d)))
        else
          match _hNext : sum? d 2 with
          | some next => reportedFrom? n next (report.note (toString n ++ " is not divisible by " ++ toString d))
          | none => none
    else some (.prime, report.note (toString n ++ " is prime"))
termination_by (2 ^ 63 - d.toInt).toNat
decreasing_by
  have hSum := toInt_of_sum? _hNext
  have hTwo : (2 : Int64).toInt = 2 := rfl
  have hBound := d.toInt_lt
  omega

def reportedSmall? (n : Int64) : List Nat → Report → Option (Factor × Report)
  | [], report => reportedFrom? n 11 report
  | p :: rest, report =>
    if n = Int64.ofNat p then some (.prime, report.note (toString n ++ " is prime"))
    else (remainder? n (Int64.ofNat p)).bind fun r =>
      if r = 0 then
        some (.divisor (Int64.ofNat p), report.note (toString n ++ (" is divisible by " ++ toString p)))
      else reportedSmall? n rest report

def reportedFactor? (n : Int64) (report : Report) : Option (Factor × Report) :=
  if n < 0 then some (.divisor (-1), report.note (toString n ++ " is quickly divisible by -1"))
  else if n = 0 then some (.divisor 1, report.note (toString n ++ " is quickly divisible by 1"))
  else if n < 4 then some (.prime, report.note (toString n ++ " is quickly prime"))
  else reportedSmall? n smallPrimes report

/-! ## What is found and written -/

/-- The lines of a search with these trials in vain and this result. -/
def linesOf (subject : String) (failed : List Nat) (found? : Option Nat) : List String :=
  failed.map (fun d => subject ++ " is not divisible by " ++ toString d) ++ [subject ++ verdict found?]

section

variable {n d : Nat}

theorem toString_ofNat (hd : d < 2 ^ 63) : toString (Int64.ofNat d) = toString d := by
  change toString (Int64.ofNat d).toInt = _
  rw [Int64.toInt_ofNat_of_lt hd]
  rfl

theorem note_then (report : Report) (line : String) (lines : List String) :
    (report.note line).map (· ++ lines) = report.map (· ++ line :: lines) := by
  cases report with
  | none => rfl
  | some written => exact congrArg some (List.append_assoc written [line] lines)

theorem reportedFrom?_eq (hn : n < 2 ^ 63) (hd : d < 2 ^ 63) (hPos : 2 ≤ d) (report : Report) :
    reportedFrom? (Int64.ofNat n) (Int64.ofNat d) report = some (factorOf (divisorFrom n d),
      report.map (· ++ linesOf (toString (Int64.ofNat n)) (failedDivisors n d) (divisorFrom n d))) := by
  fun_induction divisorFrom n d generalizing report with
  | case1 d hMore hDvd =>
    rw [reportedFrom?, trial_ofNat hn hd (by omega), if_pos hMore, if_pos hDvd, failedDivisors, dif_pos hMore,
      if_pos hDvd, toString_ofNat hd]
    rfl
  | case2 d hMore hFails ih =>
    obtain ⟨hNext, hSum⟩ := sum?_two hn hPos hMore
    rw [reportedFrom?, trial_ofNat hn hd (by omega), if_pos hMore, if_neg hFails, failedDivisors, dif_pos hMore,
      if_neg hFails]
    split
    · rename_i next hFound
      rw [hSum] at hFound
      cases hFound
      rw [ih hNext (by omega), note_then, toString_ofNat hd]
      rfl
    · rename_i hNone
      rw [hSum] at hNone
      cases hNone
  | case3 d hStop =>
    rw [reportedFrom?, trial_ofNat hn hd (by omega), if_neg hStop, failedDivisors, dif_neg hStop]
    rfl

/-- The lines of a search among these primes and from eleven on. -/
def linesAmong (subject : String) (n : Nat) (primes : List Nat) : List String :=
  linesOf subject (if primes.any fun d => n % d = 0 then [] else failedDivisors n 11) (divisorAmong n primes)

theorem linesAmong_cons (subject : String) (n p : Nat) (primes : List Nat) : linesAmong subject n (p :: primes) =
    if n % p = 0 then [subject ++ verdict (if n = p then none else some p)] else linesAmong subject n primes := by
  rw [linesAmong, linesAmong, divisorAmong_cons, List.any_cons]
  by_cases hDvd : n % p = 0
  · rw [decide_eq_true hDvd, if_pos hDvd, if_pos hDvd]
    rfl
  · rw [decide_eq_false hDvd, if_neg hDvd, if_neg hDvd, Bool.false_or]

theorem reportedSmall?_eq (hn : n < 2 ^ 63) {primes : List Nat} (hPrimes : ∀ p ∈ primes, 2 ≤ p ∧ p < 2 ^ 63)
    (report : Report) :
    reportedSmall? (Int64.ofNat n) primes report = some (factorOf (divisorAmong n primes),
      report.map (· ++ linesAmong (toString (Int64.ofNat n)) n primes)) := by
  induction primes with
  | nil => exact reportedFrom?_eq (d := 11) hn (by decide) (by decide) report
  | cons p rest ih =>
    obtain ⟨hTwo, hp⟩ := hPrimes p List.mem_cons_self
    rw [reportedSmall?, remainder?_ofNat hn hp (by omega), Option.bind_some]
    simp only [ofNat_inj hn hp, ofNat_eq_zero_iff ((Nat.mod_le n p).trans_lt hn)]
    rw [divisorAmong_cons, linesAmong_cons, ih fun q hq => hPrimes q (List.mem_cons_of_mem p hq)]
    by_cases hOwn : n = p
    · rw [if_pos hOwn, if_pos hOwn, if_pos (hOwn ▸ Nat.mod_self n), if_pos (hOwn ▸ Nat.mod_self n)]
      rfl
    · rw [if_neg hOwn, if_neg hOwn]
      split
      · rfl
      · rfl

end

/-- Whether it is reported or not, the search has a result. The report goes on with the lines of the trials. -/
theorem reportedFactor?_eq (n : Int64) (report : Report) :
    reportedFactor? n report = some (smallestFactor n, report.map (· ++ trialLines n)) := by
  rw [reportedFactor?, smallestFactor, trialLines]
  split
  · rfl
  · split
    · rfl
    · split
      · rfl
      · rename_i hNotNegative _ _
        obtain ⟨hBound, hSelf⟩ := eq_ofNat_of_not_neg hNotNegative
        have hSearch := reportedSmall?_eq hBound (by decide : ∀ p ∈ smallPrimes, 2 ≤ p ∧ p < 2 ^ 63) report
        rw [← hSelf] at hSearch
        rw [hSearch]
        change some (factorOf (properDivisor? n.toNatClampNeg), _) = _
        cases properDivisor? n.toNatClampNeg <;> rfl

theorem isLeast_minFac {n : Int} (hn : 2 ≤ n) : IsLeast {d : Int | 1 < d ∧ d ∣ n} n.toNat.minFac := by
  have hSelf : (n.toNat : Int) = n := Int.toNat_of_nonneg (by omega)
  have hDvd : (n.toNat.minFac : Int) ∣ (n.toNat : Int) := Int.natCast_dvd_natCast.mpr n.toNat.minFac_dvd
  have hPrime := Nat.minFac_prime (by omega : n.toNat ≠ 1)
  refine ⟨⟨?_, hSelf ▸ hDvd⟩, ?_⟩
  · have hTwo := hPrime.two_le
    omega
  · rintro d ⟨hd, hDivides⟩
    have hNat : d.toNat ∣ n.toNat := by
      rw [← Int.natCast_dvd_natCast, hSelf, Int.toNat_of_nonneg (by omega)]
      exact hDivides
    have hLe := Nat.minFac_le_of_dvd (by omega) hNat
    omega

/-- From two on, a search with checked operations always ends: it tells exactly the prime numbers, and finds the
least divisor above one of all others. -/
theorem search_finds_least_divisor {n : Int64} (hn : 2 ≤ n) (report : Report) :
    reportedFactor? n report = some (smallestFactor n, report.map (· ++ trialLines n)) ∧
      (smallestFactor n = .prime ↔ n.toInt.toNat.Prime) ∧
      (¬n.toInt.toNat.Prime →
        ∃ d, smallestFactor n = .divisor d ∧ IsLeast {d : Int | 1 < d ∧ d ∣ n.toInt} d.toInt) := by
  have hTwo : 2 ≤ n.toInt := Int64.le_iff_toInt_le.mp hn
  have hFactor := smallestFactor_eq hTwo
  refine ⟨reportedFactor?_eq n report, ?_, fun hComposite => ⟨Int64.ofNat n.toInt.toNat.minFac, ?_, ?_⟩⟩
  · rw [hFactor]
    split
    · rename_i hPrime
      exact iff_of_true rfl hPrime
    · rename_i hComposite
      exact iff_of_false nofun hComposite
  · rw [hFactor, if_neg hComposite]
  · have hBound := n.toInt_lt
    have hLe : n.toInt.toNat.minFac ≤ n.toInt.toNat := Nat.minFac_le (by omega)
    rw [Int64.toInt_ofNat_of_lt (by omega)]
    exact isLeast_minFac hTwo

/-- The greatest number is divisible by seven, and by nothing less but one. -/
theorem search_finds_least_divisor_of_greatest :
    2 ≤ Int64.maxValue ∧ ¬Int64.maxValue.toInt.toNat.Prime ∧
      reportedFactor? Int64.maxValue (some ["a line"]) =
        some (.divisor 7, some ["a line", "9223372036854775807 is divisible by 7"]) ∧
      IsLeast {d : Int | 1 < d ∧ d ∣ Int64.maxValue.toInt} 7 := by
  have hTwo : 2 ≤ Int64.maxValue := by decide
  have hComposite : ¬Int64.maxValue.toInt.toNat.Prime :=
    Nat.not_prime_of_dvd_of_lt (by decide : 7 ∣ 9223372036854775807) (by decide) (by decide)
  have hFound : smallestFactor Int64.maxValue = .divisor 7 := rfl
  have hLines : trialLines Int64.maxValue = ["9223372036854775807 is divisible by 7"] := by decide +kernel
  obtain ⟨hSearch, -, hLeast⟩ := search_finds_least_divisor hTwo (some ["a line"])
  rw [hFound, hLines] at hSearch
  obtain ⟨d, hDivisor, hd⟩ := hLeast hComposite
  cases hFound.symm.trans hDivisor
  exact ⟨hTwo, hComposite, hSearch, hd⟩

end OptionShell.Prime
