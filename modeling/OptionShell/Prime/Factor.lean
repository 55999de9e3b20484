/-!
# Smallest divisors

The smallest divisor of a number is searched by trial division: by the primes below ten, and from eleven on by the odd
numbers up to the square root. The search can be reported, a line for each trial.
-/
namespace OptionShell.Prime

inductive Factor where
  | prime
  /-- The smallest divisor above one; `-1` for negative numbers and `1` for zero. -/
  | divisor (d : Int64)
deriving DecidableEq, Repr

/-- The small divisors that are tried first. -/
def smallPrimes : List Nat := [2, 3, 5, 7]

/-- The first of the candidates `d`, `d + 2`, … up to the square root of `n` that divides `n`. -/
def divisorFrom (n d : Nat) : Option Nat :=
  if h : d ≤ n / d then
    if n % d = 0 then some d else divisorFrom n (d + 2)
  else none
termination_by n + 1 - d
decreasing_by
  have := Nat.div_le_self n d
  omega

/-- The candidates that `divisorFrom` tries in vain. -/
def failedDivisors (n d : Nat) : List Nat :=
  if h : d ≤ n / d then
    if n % d = 0 then [] else d :: failedDivisors n (d + 2)
  else []
termination_by n + 1 - d
decreasing_by
  have := Nat.div_le_self n d
  omega

/-- The smallest divisor above one and below `n` itself, for a number of at least four. -/
def properDivisor? (n : Nat) : Option Nat :=
  match smallPrimes.find? fun d => n % d = 0 with
  | some d => if n = d then none else some d
  | none => divisorFrom n 11

def smallestFactor (n : Int64) : Factor :=
  if n < 0 then .divisor (-1)
  else if n = 0 then .divisor 1
  else if n < 4 then .prime
  else match properDivisor? n.toNatClampNeg with
    | some d => .divisor (Int64.ofNat d)
    | none => .prime

/-- The report of the search that `smallestFactor` makes. -/
def trialLines (n : Int64) : List String :=
  let subject := toString n
  if n < 0 then [subject ++ " is quickly divisible by -1"]
  else if n = 0 then [subject ++ " is quickly divisible by 1"]
  else if n < 4 then [subject ++ " is quickly prime"]
  else
    let m := n.toNatClampNeg
    let failed := if smallPrimes.any fun d => m % d = 0 then [] else failedDivisors m 11
    let verdict := match properDivisor? m with
      | some d => " is divisible by " ++ toString d
      | none => " is prime"
    failed.map (fun d => subject ++ " is not divisible by " ++ toString d) ++ [subject ++ verdict]

end OptionShell.Prime
