import OptionShell.Prime.Factor

/-!
# The prime candidate

The bundled extension looks at one number, the candidate. Its factor is searched on demand and kept until the
candidate changes. The report of the search is kept until it is printed.
-/
namespace OptionShell.Prime

def firstCandidate : Int64 := 42

structure State where
  candidate : Int64 := firstCandidate
  /-- The factor of the candidate, once it was searched. -/
  known? : Option Factor := none
  trials : List String := []
deriving DecidableEq, Repr

namespace State

def consider (n : Int64) (s : State) : State := { s with candidate := n, known? := none }

/-- The factor that a search would find. The least number is halved, since the opposite of it is out of range. -/
def searched (s : State) : Factor :=
  if s.candidate = Int64.minValue then .divisor (-2) else smallestFactor s.candidate

def factor (s : State) : Factor := s.known?.getD s.searched

/-- The state after the factor was asked for. A search replaces the report, which is empty unless `verbose`. -/
def search (verbose : Bool) (s : State) : State :=
  match s.known? with
  | some _ => s
  | none =>
    { s with
      known? := some s.searched
      trials := if s.candidate = Int64.minValue then s.trials
        else if verbose then trialLines s.candidate else [] }

def isPrime (s : State) : Bool := 1 < s.candidate && s.factor = .prime

/-- The state after it was asked whether the candidate is prime. -/
def searchIsPrime (verbose : Bool) (s : State) : State := if 1 < s.candidate then s.search verbose else s

/-- The reported divisor, and the candidate that is left when it is divided out. -/
def reduction (s : State) : Int64 × Int64 :=
  match s.factor with
  | .prime => (s.candidate, 1)
  | .divisor d => if d = 1 then (0, 1) else (d, s.candidate / d)

/-- The reported divisor: the candidate itself if it is prime. With `auto` it is divided out of the candidate. -/
def divide (auto verbose : Bool) (s : State) : Int64 × State :=
  let (divisor, reduced) := s.reduction
  let searched := s.search verbose
  (divisor, if auto && s.candidate ≠ 1 then searched.consider reduced else searched)

/-- Takes the report away for printing. -/
def handOverTrials (s : State) : List String × State := (s.trials, { s with trials := [] })

end State

end OptionShell.Prime
