import OptionShell.Proofs.Prime.Checked

/-!
# Dividing the candidate

What one division makes of the candidate: from two on its least prime factor is divided out, one is left alone, zero
becomes one, and the sign of negative numbers is divided out first.
-/
namespace OptionShell.Prime.State

variable {s : State}

@[simp] theorem candidate_search (s : State) (verbose : Bool) : (s.search verbose).candidate = s.candidate := by
  rw [search]
  split <;> rfl

/-- The candidate after a division that divides out. -/
theorem candidate_divide (s : State) (verbose : Bool) :
    (s.divide true verbose).2.candidate = if s.candidate = 1 then 1 else s.reduction.2 := by
  by_cases hOne : s.candidate = 1
  · simp [divide, hOne]
  · simp [divide, hOne, consider]

theorem current_search (s : State) (verbose : Bool) (h : s.Current) : (s.search verbose).Current := by
  obtain hNone | hKnown := h
  · right
    simp [search, hNone, searched]
  · right
    simp [search, hKnown, searched]

theorem Current.divide (h : s.Current) (verbose : Bool) : (s.divide true verbose).2.Current := by
  by_cases hOne : s.candidate = 1
  · simpa [State.divide, hOne] using current_search s verbose h
  · left
    simp [State.divide, hOne, consider]

/-! ## From two on -/

section

variable (h : s.Current) (hTwo : 2 ≤ s.candidate.toInt)

include h hTwo in
theorem factor_eq_of_two_le : s.factor =
    if s.candidate.toInt.toNat.Prime then .prime
    else .divisor (Int64.ofNat s.candidate.toInt.toNat.minFac) := by
  have hNotMin : s.candidate ≠ Int64.minValue := by
    intro hMin
    rw [hMin] at hTwo
    simp at hTwo
  rw [h.factor_eq, searched, if_neg hNotMin, smallestFactor_eq hTwo]

include h hTwo in
/-- The least prime factor is reported and divided out. -/
theorem reduction_of_two_le :
    s.reduction.1.toInt = s.candidate.toInt.toNat.minFac ∧
      s.reduction.2.toInt = (s.candidate.toInt.toNat / s.candidate.toInt.toNat.minFac : Nat) := by
  have hFactor := factor_eq_of_two_le h hTwo
  have hBound := s.candidate.toInt_lt
  have hSelf : (s.candidate.toInt.toNat : Int) = s.candidate.toInt := Int.toNat_of_nonneg (by omega)
  by_cases hPrime : s.candidate.toInt.toNat.Prime
  · rw [if_pos hPrime] at hFactor
    rw [reduction, hFactor, hPrime.minFac_eq, Nat.div_self (by omega)]
    exact ⟨hSelf.symm, rfl⟩
  · rw [if_neg hPrime] at hFactor
    have hLe : s.candidate.toInt.toNat.minFac ≤ s.candidate.toInt.toNat := Nat.minFac_le (by omega)
    have hGreater : 2 ≤ s.candidate.toInt.toNat.minFac := (Nat.minFac_prime (by omega)).two_le
    have hDivisor : (Int64.ofNat s.candidate.toInt.toNat.minFac).toInt = s.candidate.toInt.toNat.minFac :=
      Int64.toInt_ofNat_of_lt (by omega)
    have hNotOne : Int64.ofNat s.candidate.toInt.toNat.minFac ≠ 1 := by
      intro hOne
      have hUnit : (1 : Int64).toInt = 1 := rfl
      rw [hOne, hUnit] at hDivisor
      omega
    have hNotMin : s.candidate ≠ Int64.minValue := by
      intro hMin
      rw [hMin] at hTwo
      simp at hTwo
    rw [reduction, hFactor]
    dsimp only
    rw [if_neg hNotOne, Int64.toInt_div_of_ne_left _ _ hNotMin, hDivisor]
    refine ⟨rfl, ?_⟩
    nth_rewrite 1 [← hSelf]
    rfl

end

/-! ## Below two -/

theorem reduction_of_one (h : s.Current) (hOne : s.candidate = 1) : s.reduction = (1, 1) := by
  have hFactor : s.factor = .prime := by
    rw [h.factor_eq, searched, hOne]
    rfl
  rw [reduction, hFactor, hOne]

theorem reduction_of_zero (h : s.Current) (hZero : s.candidate = 0) : s.reduction = (0, 1) := by
  have hFactor : s.factor = .divisor 1 := by
    rw [h.factor_eq, searched, hZero]
    rfl
  rw [reduction, hFactor]
  rfl

/-- A negative number is divided by `-1`, the least one by `-2`. What is left is positive. -/
theorem reduction_of_neg (h : s.Current) (hNeg : s.candidate.toInt < 0) :
    1 ≤ s.reduction.2.toInt ∧ s.reduction.1.toInt * s.reduction.2.toInt = s.candidate.toInt := by
  by_cases hMin : s.candidate = Int64.minValue
  · have hFactor : s.factor = .divisor (-2) := by rw [h.factor_eq, searched, if_pos hMin]
    rw [reduction, hFactor, hMin]
    decide
  · have hFactor : s.factor = .divisor (-1) := by
      rw [h.factor_eq, searched, if_neg hMin, smallestFactor, if_pos]
      rw [Int64.lt_iff_toInt_lt]
      exact hNeg
    rw [reduction, hFactor]
    dsimp only
    rw [if_neg (by decide), Int64.toInt_div_of_ne_left _ _ hMin]
    have hSign : (-1 : Int64).toInt = -1 := rfl
    rw [hSign, Int.tdiv_neg, Int.tdiv_one]
    omega

end OptionShell.Prime.State
