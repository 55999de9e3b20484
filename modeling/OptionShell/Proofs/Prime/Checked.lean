import OptionShell.Prime.State
import OptionShell.Proofs.Prime.SmallestFactor

/-!
# Division without overflow

The search for a factor and the division by it once more, with 64-bit operations that have no result where the exact
one is out of range. They always have a result, and it is the one of the plain operations: trial divisors stay below
the square root, and the least number is divided by `-2` instead of `-1`.
-/
namespace OptionShell.Prime

/-! ## Checked operations -/

/-- An integer as a 64-bit number, if it is in range. -/
def inRange? (z : Int) : Option Int64 := if z.toInt64.toInt = z then some z.toInt64 else none

def sum? (a b : Int64) : Option Int64 := inRange? (a.toInt + b.toInt)

def quotient? (a b : Int64) : Option Int64 := if b = 0 then none else inRange? (a.toInt.tdiv b.toInt)

/-- There is no remainder where there is no quotient. -/
def remainder? (a b : Int64) : Option Int64 := (quotient? a b).bind fun _ => inRange? (a.toInt.tmod b.toInt)

theorem inRange?_eq_some {z : Int} {n : Int64} (h : n.toInt = z) : inRange? z = some n := by
  subst h
  have hSame : n.toInt.toInt64 = n := Int64.ofInt_toInt n
  rw [inRange?, hSame, if_pos rfl]

theorem quotient?_eq {a b : Int64} (hb : b ≠ 0) (ha : a ≠ Int64.minValue ∨ b ≠ -1) : quotient? a b = some (a / b) := by
  rw [quotient?, if_neg hb]
  obtain ha | hb := ha
  · exact inRange?_eq_some (Int64.toInt_div_of_ne_left a b ha)
  · exact inRange?_eq_some (Int64.toInt_div_of_ne_right a b hb)

theorem toInt_of_sum? {a b c : Int64} (h : sum? a b = some c) : c.toInt = a.toInt + b.toInt := by
  rw [sum?, inRange?] at h
  split at h
  · rename_i hExact
    cases h
    exact hExact
  · cases h

/-! ## The checked search -/

/-- The trial divisors `d`, `d + 2`, … while they are at most the quotient by them. -/
def searchFrom? (n d : Int64) : Option Factor :=
  (quotient? n d).bind fun quotient =>
    if d ≤ quotient then
      (remainder? n d).bind fun rest =>
        if rest = 0 then some (.divisor d)
        else
          match _hNext : sum? d 2 with
          | some next => searchFrom? n next
          | none => none
    else some .prime
termination_by (2 ^ 63 - d.toInt).toNat
decreasing_by
  have hSum := toInt_of_sum? _hNext
  have hTwo : (2 : Int64).toInt = 2 := rfl
  have hBound := d.toInt_lt
  omega

def searchSmall? (n : Int64) : List Nat → Option Factor
  | [] => searchFrom? n 11
  | p :: rest =>
    if n = Int64.ofNat p then some .prime
    else (remainder? n (Int64.ofNat p)).bind fun r =>
      if r = 0 then some (.divisor (Int64.ofNat p)) else searchSmall? n rest

def smallestFactor? (n : Int64) : Option Factor :=
  if n < 0 then some (.divisor (-1))
  else if n = 0 then some (.divisor 1)
  else if n < 4 then some .prime
  else searchSmall? n smallPrimes

/-- The proper divisor that a search among these primes and from eleven on finds. -/
def divisorAmong (n : Nat) (primes : List Nat) : Option Nat :=
  match primes.find? fun d => n % d = 0 with
  | some d => if n = d then none else some d
  | none => divisorFrom n 11

/-- The factor that stands for a proper divisor. -/
def factorOf : Option Nat → Factor
  | some d => .divisor (Int64.ofNat d)
  | none => .prime

section

variable {n d : Nat}

theorem ofNat_ne_zero (hd : d < 2 ^ 63) (hPos : 0 < d) : Int64.ofNat d ≠ 0 := by
  intro hZero
  have hSame := congrArg Int64.toInt hZero
  rw [Int64.toInt_ofNat_of_lt hd] at hSame
  simp at hSame
  omega

theorem quotient?_ofNat (hn : n < 2 ^ 63) (hd : d < 2 ^ 63) (hPos : 0 < d) :
    quotient? (Int64.ofNat n) (Int64.ofNat d) = some (Int64.ofNat (n / d)) := by
  rw [quotient?, if_neg (ofNat_ne_zero hd hPos)]
  apply inRange?_eq_some
  rw [Int64.toInt_ofNat_of_lt hn, Int64.toInt_ofNat_of_lt hd,
    Int64.toInt_ofNat_of_lt ((Nat.div_le_self n d).trans_lt hn)]
  rfl

theorem remainder?_ofNat (hn : n < 2 ^ 63) (hd : d < 2 ^ 63) (hPos : 0 < d) :
    remainder? (Int64.ofNat n) (Int64.ofNat d) = some (Int64.ofNat (n % d)) := by
  rw [remainder?, quotient?_ofNat hn hd hPos]
  apply inRange?_eq_some
  rw [Int64.toInt_ofNat_of_lt hn, Int64.toInt_ofNat_of_lt hd,
    Int64.toInt_ofNat_of_lt ((Nat.mod_le n d).trans_lt hn)]
  rfl

theorem ofNat_inj (hn : n < 2 ^ 63) (hd : d < 2 ^ 63) : Int64.ofNat n = Int64.ofNat d ↔ n = d := by
  rw [← Int64.toInt_inj, Int64.toInt_ofNat_of_lt hn, Int64.toInt_ofNat_of_lt hd]
  omega

theorem ofNat_le_iff (hn : n < 2 ^ 63) (hd : d < 2 ^ 63) : Int64.ofNat d ≤ Int64.ofNat n ↔ d ≤ n := by
  rw [Int64.le_iff_toInt_le, Int64.toInt_ofNat_of_lt hn, Int64.toInt_ofNat_of_lt hd]
  omega

theorem ofNat_eq_zero_iff (hn : n < 2 ^ 63) : Int64.ofNat n = 0 ↔ n = 0 := by
  constructor
  · intro hZero
    by_contra hPos
    exact ofNat_ne_zero hn (by omega) hZero
  · rintro rfl
    rfl

/-- One trial with checked operations decides what the plain one does. -/
theorem trial_ofNat {β : Type} (hn : n < 2 ^ 63) (hd : d < 2 ^ 63) (hPos : 0 < d) (found next stop : Option β) :
    ((quotient? (Int64.ofNat n) (Int64.ofNat d)).bind fun quotient =>
      if Int64.ofNat d ≤ quotient then
        (remainder? (Int64.ofNat n) (Int64.ofNat d)).bind fun rest => if rest = 0 then found else next
      else stop) =
    if d ≤ n / d then if n % d = 0 then found else next else stop := by
  have hQuotient : Int64.ofNat d ≤ Int64.ofNat (n / d) ↔ d ≤ n / d :=
    ofNat_le_iff ((Nat.div_le_self n d).trans_lt hn) hd
  have hRest : Int64.ofNat (n % d) = 0 ↔ n % d = 0 := ofNat_eq_zero_iff ((Nat.mod_le n d).trans_lt hn)
  rw [quotient?_ofNat hn hd hPos, Option.bind_some, remainder?_ofNat hn hd hPos, Option.bind_some]
  simp only [hQuotient, hRest]

/-- A trial divisor is at most the quotient by it, so its square is in range and so is the next divisor. -/
theorem sum?_two (hn : n < 2 ^ 63) (hTwo : 2 ≤ d) (hMore : d ≤ n / d) :
    d + 2 < 2 ^ 63 ∧ sum? (Int64.ofNat d) 2 = some (Int64.ofNat (d + 2)) := by
  have hSquare : d * d ≤ n := (Nat.le_div_iff_mul_le (by omega)).mp hMore
  have hDouble : 2 * d ≤ d * d := Nat.mul_le_mul_right d hTwo
  have hNext : d + 2 < 2 ^ 63 := by omega
  refine ⟨hNext, inRange?_eq_some ?_⟩
  rw [Int64.toInt_ofNat_of_lt hNext, Int64.toInt_ofNat_of_lt (by omega)]
  rfl

theorem searchFrom?_eq (hn : n < 2 ^ 63) (hd : d < 2 ^ 63) (hPos : 2 ≤ d) :
    searchFrom? (Int64.ofNat n) (Int64.ofNat d) = some (factorOf (divisorFrom n d)) := by
  fun_induction divisorFrom n d with
  | case1 d hMore hDvd =>
    rw [searchFrom?, trial_ofNat hn hd (by omega), if_pos hMore, if_pos hDvd]
    rfl
  | case2 d hMore hFails ih =>
    obtain ⟨hNext, hSum⟩ := sum?_two hn hPos hMore
    rw [searchFrom?, trial_ofNat hn hd (by omega), if_pos hMore, if_neg hFails]
    split
    · rename_i next hFound
      rw [hSum] at hFound
      cases hFound
      exact ih hNext (by omega)
    · rename_i hNone
      rw [hSum] at hNone
      cases hNone
  | case3 d hStop =>
    rw [searchFrom?, trial_ofNat hn hd (by omega), if_neg hStop]
    rfl

theorem divisorAmong_cons (n p : Nat) (primes : List Nat) : divisorAmong n (p :: primes) =
    if n % p = 0 then if n = p then none else some p else divisorAmong n primes := by
  rw [divisorAmong, List.find?_cons]
  by_cases hDvd : n % p = 0
  · rw [decide_eq_true hDvd, if_pos hDvd]
  · rw [decide_eq_false hDvd, if_neg hDvd]
    rfl

/-- The small primes are tried until one of them is the number or divides it. -/
theorem searchSmall?_eq (hn : n < 2 ^ 63) {primes : List Nat} (hPrimes : ∀ p ∈ primes, 2 ≤ p ∧ p < 2 ^ 63) :
    searchSmall? (Int64.ofNat n) primes = some (factorOf (divisorAmong n primes)) := by
  induction primes with
  | nil => exact searchFrom?_eq (d := 11) hn (by decide) (by decide)
  | cons p rest ih =>
    obtain ⟨hTwo, hp⟩ := hPrimes p List.mem_cons_self
    rw [searchSmall?, remainder?_ofNat hn hp (by omega), Option.bind_some]
    simp only [ofNat_inj hn hp, ofNat_eq_zero_iff ((Nat.mod_le n p).trans_lt hn)]
    rw [divisorAmong_cons, ih fun q hq => hPrimes q (List.mem_cons_of_mem p hq)]
    by_cases hOwn : n = p
    · rw [if_pos hOwn, if_pos hOwn, if_pos (hOwn ▸ Nat.mod_self n)]
      rfl
    · rw [if_neg hOwn, if_neg hOwn]
      split
      · rfl
      · rfl

end

/-- A number that is not negative is that of a natural number. -/
theorem eq_ofNat_of_not_neg {n : Int64} (h : ¬n < 0) :
    n.toNatClampNeg < 2 ^ 63 ∧ n = Int64.ofNat n.toNatClampNeg := by
  have hBound := n.toInt_lt
  have hNonneg : 0 ≤ n.toInt := by
    rw [Int64.lt_iff_toInt_lt] at h
    simpa using h
  have hLt : n.toNatClampNeg < 2 ^ 63 := by
    rw [Int64.toNatClampNeg]
    omega
  refine ⟨hLt, ?_⟩
  rw [← Int64.toInt_inj, Int64.toInt_ofNat_of_lt hLt, Int64.toNatClampNeg]
  omega

theorem smallestFactor?_eq (n : Int64) : smallestFactor? n = some (smallestFactor n) := by
  rw [smallestFactor?, smallestFactor]
  split
  · rfl
  · split
    · rfl
    · split
      · rfl
      · rename_i hNotNegative _ _
        obtain ⟨hBound, hSelf⟩ := eq_ofNat_of_not_neg hNotNegative
        have hSearch := searchSmall?_eq hBound (by decide : ∀ p ∈ smallPrimes, 2 ≤ p ∧ p < 2 ^ 63)
        rw [← hSelf] at hSearch
        rw [hSearch]
        change some (factorOf (properDivisor? n.toNatClampNeg)) = _
        cases properDivisor? n.toNatClampNeg <;> rfl

theorem smallestFactor_ne_zero {n d : Int64} (hFactor : smallestFactor n = .divisor d) : d ≠ 0 := by
  by_cases hn : 2 ≤ n.toInt
  · rw [smallestFactor_eq hn] at hFactor
    split at hFactor
    · cases hFactor
    · cases hFactor
      have hBound := n.toInt_lt
      have hLe : n.toInt.toNat.minFac ≤ n.toInt.toNat := Nat.minFac_le (by omega)
      exact ofNat_ne_zero (by omega) n.toInt.toNat.minFac_pos
  · have hSmall : n < 4 := by
      rw [Int64.lt_iff_toInt_lt]
      simp
      omega
    rw [smallestFactor, if_pos hSmall] at hFactor
    split at hFactor
    · cases hFactor
      decide
    · split at hFactor
      · cases hFactor
        decide
      · cases hFactor

namespace State

variable {s : State}

/-! ## The checked division -/

/-- A factor that is known is the one that a search would find. -/
def Current (s : State) : Prop := s.known? = none ∨ s.known? = some s.searched

def searched? (s : State) : Option Factor :=
  if s.candidate = Int64.minValue then some (.divisor (-2)) else smallestFactor? s.candidate

def factor? (s : State) : Option Factor :=
  match s.known? with
  | some factor => some factor
  | none => s.searched?

def reduction? (s : State) : Option (Int64 × Int64) :=
  s.factor?.bind fun factor =>
    match factor with
    | .prime => some (s.candidate, 1)
    | .divisor d => if d = 1 then some (0, 1) else (quotient? s.candidate d).map fun reduced => (d, reduced)

/-- Division with checked operations. -/
def divide? (auto verbose : Bool) (s : State) : Option (Int64 × State) :=
  s.reduction?.map fun (divisor, reduced) =>
    (divisor, if auto && s.candidate ≠ 1 then (s.search verbose).consider reduced else s.search verbose)

theorem searched?_eq (s : State) : s.searched? = some s.searched := by
  rw [searched?, searched]
  split
  · rfl
  · exact smallestFactor?_eq s.candidate

theorem Current.factor_eq (h : s.Current) : s.factor = s.searched := by
  obtain hNone | hKnown := h
  · rw [factor, hNone, Option.getD_none]
  · rw [factor, hKnown, Option.getD_some]

theorem factor?_eq (s : State) : s.factor? = some s.factor := by
  rw [factor?, factor]
  cases s.known? with
  | none => exact searched?_eq s
  | some factor => rfl

/-- No factor is zero, and `-1` is not the factor of the least number. -/
theorem quotient?_searched {d : Int64} (hFactor : s.searched = .divisor d) :
    quotient? s.candidate d = some (s.candidate / d) := by
  rw [searched] at hFactor
  split at hFactor
  · cases hFactor
    exact quotient?_eq (by decide) (.inr (by decide))
  · rename_i hMin
    exact quotient?_eq (smallestFactor_ne_zero hFactor) (.inl hMin)

theorem Current.divide?_eq (h : s.Current) (auto verbose : Bool) :
    s.divide? auto verbose = some (s.divide auto verbose) := by
  have hReduction : s.reduction? = some s.reduction := by
    rw [reduction?, factor?_eq, Option.bind_some, reduction]
    cases hFactor : s.factor with
    | prime => rfl
    | divisor d =>
      rw [h.factor_eq] at hFactor
      dsimp only
      split
      · rfl
      · rw [quotient?_searched hFactor, Option.map_some]
  rw [divide?, hReduction]
  rfl

end State

end OptionShell.Prime
