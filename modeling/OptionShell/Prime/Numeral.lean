import OptionShell.Text.Decimal
import OptionShell.Text.Separator

/-!
# Numbers given to `is_prime`

A word is an integer in range, a numeral that is out of range or has a fraction, or no number at all. Only the last
counts as an error.
-/
namespace OptionShell.Prime

inductive NumeralError where
  | notANumber
  | tooSmall
  | tooBig
  | notAnInteger
deriving DecidableEq, Repr

namespace NumeralError

def message (word : String) : NumeralError → String
  | notANumber => word ++ " is not a number"
  | tooSmall => word ++ " is too small"
  | tooBig => word ++ " is too big"
  | notAnInteger => word ++ " is not an integer"

/-- Whether the word makes the command fail. -/
def isFailure (error : NumeralError) : Bool := error = notANumber

end NumeralError

def digitsOf : List Char → List Char
  | '-' :: digits => digits
  | digits => digits

/-- Whether the text is digits with one point among them, the second part perhaps empty. -/
def isFraction (digits : List Char) : Bool :=
  match Text.splitFirst? '.' digits with
  | some (whole, fraction) => whole.all Char.isDigit && fraction.all Char.isDigit
  | none => false

def readNumeral (word : List Char) : Except NumeralError Int64 :=
  let digits := digitsOf word
  if !(digits.head?.any Char.isDigit) then .error .notANumber
  else if digits.all Char.isDigit then
    match Text.int64? word with
    | some n => .ok n
    | none => .error (if word.head? = some '-' then .tooSmall else .tooBig)
  else if isFraction digits then .error .notAnInteger
  else .error .notANumber

end OptionShell.Prime
