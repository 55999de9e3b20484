import OptionShell.Interpreter.Extension
import OptionShell.Prime.Numeral

/-!
# The extension `prime`

An example of options that an extension defines. `auto_factorize` and `verbose_factorize` are ordinary options,
`is_prime` is read-only and computed from the candidate, and the command `is_prime` sets, divides and tests numbers.
The variables `PRIME_CANDIDATE` and `PRIME_DIVISOR` show the candidate and the last reported divisor.
-/
namespace OptionShell.Prime

variable {α : Type}

def candidateName : String := "PRIME_CANDIDATE"

def divisorName : String := "PRIME_DIVISOR"

/-- The cells of the two ordinary options. -/
structure Cells where
  autoFactorize : CellId
  verboseFactorize : CellId
deriving DecidableEq, Repr

namespace Cells

def startingAt (first : Nat) : Cells := ⟨first, first + 1⟩

def auto (cells : Cells) (storage : Storage) : Bool := storage.read cells.autoFactorize ≠ 0

def verbose (cells : Cells) (storage : Storage) : Bool := storage.read cells.verboseFactorize ≠ 0

/-- The storage in which the extension starts: numbers are divided out. -/
def prepare (cells : Cells) (storage : Storage) : Storage := storage.write cells.autoFactorize 1

end Cells

/-- An option of the extension, listed by `shopt` and in `BASHOPTS`. -/
def shoptOption (id : Nat) (name : String) (cell : CellId) (initial : Int32) (help : String) :
    Definition (Host α) where
  id := id
  name? := name
  cell? := cell
  initial? := initial
  help? := help
  inBashopts := true
  hiddenFromSet := true

/-- Reads whether the candidate is prime. The factor that it finds is kept. -/
def isPrimeGetter (cells : Cells) : Getter (Host α) where
  value _ _ host := switchValue host.prime.isPrime
  note _ storage host := { host with prime := host.prime.searchIsPrime (cells.verbose storage) }

def isPrimeOption (id : Nat) (cells : Cells) : Definition (Host α) where
  id := id
  name? := "is_prime"
  getter? := some (isPrimeGetter cells)
  help? := "Whether PRIME_CANDIDATE is prime."
  readonly := true
  hiddenFromSet := true
  hiddenFromShopt := true

def options (first : Nat) (cells : Cells) : List (Definition (Host α)) :=
  [shoptOption first "auto_factorize" cells.autoFactorize 1
      "Reading the divisor divides it out of PRIME_CANDIDATE.",
    isPrimeOption (first + 1) cells,
    shoptOption (first + 2) "verbose_factorize" cells.verboseFactorize 0 "Show each trial division."]

def editState (f : State → State) : Action α Unit :=
  modify fun work => work.mapHost fun host => { host with prime := f host.prime }

def state : Action α State := do
  return (← get).options.host.prime

def showIn (name : String) (n : Int64) : Action α Unit := Action.editVars (·.assign name (toString n))

inductive Verdict where
  | prime
  | composite
  | failure
  /-- The word was reported and counts for nothing. -/
  | skipped
deriving DecidableEq, Repr

/-- Tests one number: the line to show and the verdict. -/
def judge (n : Int64) : String × Verdict :=
  if n < 1 then (toString n ++ " is not positive", .failure)
  else if n = 1 then ("1 is neither prime nor composite", .composite)
  else match smallestFactor n with
    | .prime => (toString n ++ " is prime", .prime)
    | .divisor d => (toString n ++ " is divisible by " ++ toString d ++ ", giving " ++ toString (n / d), .composite)

def judgeWord (word : String) : String × Verdict :=
  match readNumeral word.toList with
  | .ok n => judge n
  | .error error => (error.message word, if error.isFailure then .failure else .skipped)

/-- The exit status for a list of verdicts: errors count before composite numbers. -/
def statusOfVerdicts (verdicts : List Verdict) : Int32 :=
  if verdicts.contains .failure then 2
  else if verdicts.contains .composite then ExitStatus.failure
  else ExitStatus.success

/-- Tests the words, or the candidate if there are none. -/
def test (quiet : Bool) (words : List String) : Action α Output := do
  let prime ← state
  let results := if words.isEmpty then [judge prime.candidate] else words.map judgeWord
  let lines := if quiet then "" else Text.joinLines (results.map (·.1))
  let status := statusOfVerdicts (results.map (·.2))
  return if status = 0 then .text lines else .status lines status

def consider (arg? : Option String) : Action α Output := do
  match arg?.bind fun arg => Text.int64? arg.toList with
  | none => throw (.command "is_prime: -s: integer required")
  | some n =>
    editState (·.consider n)
    showIn candidateName n
    return .silent

/-- Reports the divisor of the candidate, and the trials that found it. -/
def reportDivisor (cells : Cells) : Action α Output := do
  let storage := (← get).options.storage
  let (divisor, reduced) := (← state).divide (cells.auto storage) (cells.verbose storage)
  editState fun _ => reduced
  showIn candidateName reduced.candidate
  showIn divisorName divisor
  let (trials, rest) := (← state).handOverTrials
  editState fun _ => rest
  return .text (Text.joinLines (trials ++ [toString divisor]))

def usage : String := "is_prime [-q] [-s N | -d | N...]"

/-- Whether a word is an option: a minus sign that no digit follows. -/
def isOptionWord (word : String) : Bool :=
  match word.toList with
  | '-' :: rest => !(rest.head?.any Char.isDigit)
  | _ => false

/-- Carries the arguments out, option words first. -/
def run (cells : Cells) (quiet : Bool) : List String → Action α Output
  | [] => test quiet []
  | word :: rest =>
    if word = "-q" then run cells true rest
    else if word = "-s" then consider rest.head?
    else if word = "-d" then reportDivisor cells
    else if word = "--" then test quiet rest
    else if isOptionWord word then
      throw (.command ("is_prime: " ++ word ++ ": invalid option\nusage: " ++ usage))
    else test quiet (word :: rest)

def command (cells : Cells) : Command α where
  name := "is_prime"
  description := "Test numbers for primality"
  usage := usage
  category := "extension"
  run := run cells false

/-- Starts over with the first candidate and shows it. -/
def enter : Update (Host α) (Except ShellError Unit) := fun s =>
  let s := s.mapHost fun host => { host with prime := host.prime.consider firstCandidate }
  match s.host.vars.assign candidateName (toString firstCandidate) with
  | .ok vars => some (.ok (), s.mapHost fun host => { host with vars })
  | .error error => some (.error error.toShellError, s)

/-- Removes a variable, unless it is read-only. -/
def forget (name : String) (vars : Variables) : Variables := (vars.unset name).toOption.getD vars

def leave : Update (Host α) Unit :=
  modify fun s => s.mapHost fun host => { host with vars := forget divisorName (forget candidateName host.vars) }

/-- The extension, with identities from `first` on. -/
def extension (first : Nat) (cells : Cells) : Extension α where
  name := "prime"
  description := "Prime testing with extension-defined options"
  options := options first cells
  commands := [command cells]
  onLoad := enter
  onUnload := leave

end OptionShell.Prime
