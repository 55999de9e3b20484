import Mathlib.Data.Nat.Prime.Basic
import Mathlib.Tactic.IntervalCases
import Mathlib.Tactic.NormNum.Prime
import OptionShell.Prime.Factor

/-!
# The smallest factor by trial division

The search finds the least prime factor of every number above one. The divisors are tried in ascending order, so the
first one that divides is prime, and a number without divisors up to its square root is prime itself.
-/
namespace OptionShell.Prime

variable {n d : Nat}

/-! ## The search from eleven on -/

theorem minFac_odd (hOdd : n % 2 = 1) : n.minFac % 2 = 1 := by
  have hDvd := n.minFac_dvd
  by_contra hEven
  have hTwo : 2 ∣ n := (Nat.dvd_of_mod_eq_zero (by omega)).trans hDvd
  omega

/-- The least factor is above a divisor that fails, and it is not the even number after it. -/
theorem add_two_le_minFac (hOdd : n % 2 = 1) (hStep : d % 2 = 1) (hLeast : d ≤ n.minFac) (hFails : n % d ≠ 0) :
    d + 2 ≤ n.minFac := by
  have hParity := minFac_odd hOdd
  have hOther : n.minFac ≠ d := by
    rintro rfl
    exact hFails (Nat.mod_eq_zero_of_dvd n.minFac_dvd)
  omega

theorem minFac_eq_of_dvd (hd : 2 ≤ d) (hLeast : d ≤ n.minFac) (hDvd : n % d = 0) : n.minFac = d :=
  Nat.le_antisymm (Nat.minFac_le_of_dvd hd (Nat.dvd_of_mod_eq_zero hDvd)) hLeast

theorem prime_of_div_lt (hn : 2 ≤ n) (hd : 2 ≤ d) (hLeast : d ≤ n.minFac) (hStop : ¬d ≤ n / d) : n.Prime := by
  by_contra hComposite
  have hSquare := Nat.minFac_sq_le_self (by omega) hComposite
  have hBelow : n < d * d := (Nat.div_lt_iff_lt_mul (by omega)).mp (by omega)
  have hAbove : d ^ 2 ≤ n.minFac ^ 2 := Nat.pow_le_pow_left hLeast 2
  rw [sq d] at hAbove
  omega

/-- The search finds the least factor of a composite number if it starts at or below it. -/
theorem divisorFrom_eq (hn : 2 ≤ n) (hOdd : n % 2 = 1) (hd : 2 ≤ d) (hStep : d % 2 = 1) (hLeast : d ≤ n.minFac) :
    divisorFrom n d = if n.Prime then none else some n.minFac := by
  fun_induction divisorFrom n d with
  | case1 d hMore hDvd =>
    have hComposite : ¬n.Prime := by
      intro hPrime
      obtain hOne | rfl := (Nat.dvd_prime hPrime).mp (Nat.dvd_of_mod_eq_zero hDvd)
      · omega
      · rw [Nat.div_self (by omega)] at hMore
        omega
    rw [if_neg hComposite, minFac_eq_of_dvd hd hLeast hDvd]
  | case2 d hMore hFails ih =>
    exact ih (by omega) (by omega) (add_two_le_minFac hOdd hStep hLeast hFails)
  | case3 d hStop => rw [if_pos (prime_of_div_lt hn hd hLeast hStop)]

/-! ## The small primes -/

theorem mem_smallPrimes (hPrime : d.Prime) (hSmall : d < 11) : d ∈ smallPrimes := by
  have hTwo := hPrime.two_le
  interval_cases d <;> first | decide | norm_num at hPrime

theorem eleven_le_minFac (hn : 2 ≤ n) (hNone : smallPrimes.find? (fun d => n % d = 0) = none) : 11 ≤ n.minFac := by
  by_contra hSmall
  have hMem := mem_smallPrimes (Nat.minFac_prime (by omega : n ≠ 1)) (by omega)
  have hFails := List.find?_eq_none.mp hNone _ hMem
  exact hFails (decide_eq_true (Nat.mod_eq_zero_of_dvd n.minFac_dvd))

theorem minFac_eq_of_find? (hn : 2 ≤ n) (hFound : smallPrimes.find? (fun d => n % d = 0) = some d) :
    n.minFac = d := by
  obtain ⟨hDvd, before, after, hList, hFail⟩ := List.find?_eq_some_iff_append.mp hFound
  have hSorted : (before ++ d :: after).Pairwise (· < ·) := hList ▸ (by decide : smallPrimes.Pairwise (· < ·))
  have hTwo : 2 ≤ d ∧ d < 11 :=
    (by decide : ∀ d ∈ smallPrimes, 2 ≤ d ∧ d < 11) d (List.mem_of_find?_eq_some hFound)
  have hLe : n.minFac ≤ d := Nat.minFac_le_of_dvd hTwo.1 (Nat.dvd_of_mod_eq_zero (of_decide_eq_true hDvd))
  have hMem := mem_smallPrimes (Nat.minFac_prime (by omega : n ≠ 1)) (by omega)
  rw [hList, List.mem_append, List.mem_cons] at hMem
  obtain hBefore | hSame | hAfter := hMem
  · have hFails := hFail _ hBefore
    simp [Nat.mod_eq_zero_of_dvd n.minFac_dvd] at hFails
  · exact hSame
  · have hAbove := (List.pairwise_cons.mp (List.pairwise_append.mp hSorted).2.1).1 _ hAfter
    omega

theorem properDivisor?_eq (hn : 2 ≤ n) : properDivisor? n = if n.Prime then none else some n.minFac := by
  rw [properDivisor?]
  split
  · rename_i d hFound
    rw [← minFac_eq_of_find? hn hFound]
    by_cases hPrime : n.Prime
    · rw [if_pos hPrime.minFac_eq.symm, if_pos hPrime]
    · have hProper : n ≠ n.minFac := fun hSame => hPrime (hSame ▸ Nat.minFac_prime (by omega))
      rw [if_neg hProper, if_neg hPrime]
  · rename_i hNone
    have hLeast := eleven_le_minFac hn hNone
    have hOdd : n % 2 = 1 := by
      have hFails := List.find?_eq_none.mp hNone 2 (by decide)
      simp at hFails
      exact hFails
    exact divisorFrom_eq hn hOdd (by decide) (by decide) hLeast

/-! ## The smallest factor -/

/-- The least prime factor of a number of at least two, which is the number itself if it is prime. -/
theorem smallestFactor_eq {n : Int64} (hn : 2 ≤ n.toInt) :
    smallestFactor n =
      if n.toInt.toNat.Prime then .prime else .divisor (Int64.ofNat n.toInt.toNat.minFac) := by
  have hNotNegative : ¬n < 0 := by rw [Int64.lt_iff_toInt_lt]; simp; omega
  have hNotZero : n ≠ 0 := by rintro rfl; simp at hn
  rw [smallestFactor, if_neg hNotNegative, if_neg hNotZero]
  split
  · rename_i hSmall
    have hPrime : n.toInt.toNat.Prime := by
      rw [Int64.lt_iff_toInt_lt] at hSmall
      have hCases : n.toInt.toNat = 2 ∨ n.toInt.toNat = 3 := by simp at hSmall; omega
      obtain hTwo | hThree := hCases
      · exact hTwo ▸ Nat.prime_two
      · exact hThree ▸ Nat.prime_three
    rw [if_pos hPrime]
  · have hTwo : 2 ≤ n.toInt.toNat := by omega
    have hProper : properDivisor? n.toNatClampNeg =
        if n.toInt.toNat.Prime then none else some n.toInt.toNat.minFac := properDivisor?_eq hTwo
    rw [hProper]
    by_cases hPrime : n.toInt.toNat.Prime
    · rw [if_pos hPrime, if_pos hPrime]
    · rw [if_neg hPrime, if_neg hPrime]

end OptionShell.Prime
