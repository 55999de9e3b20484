import OptionShell.Toml.Token

/-!
# TOML numbers

Integers have 64 bits and are written in one of four bases. Floats are decimal; their value is not needed, but a
float without a minus sign must not be so great that its nearest double is infinite.
-/
namespace OptionShell.Toml

/-- Reads digits of a base, with single underscores between digits. -/
def digits? (isBaseDigit : Char → Bool) : List Char → Option (List Char)
  | [] => none
  | [c] => if isBaseDigit c then some [c] else none
  | c :: '_' :: rest => if isBaseDigit c then (digits? isBaseDigit rest).map (c :: ·) else none
  | c :: rest => if isBaseDigit c then (digits? isBaseDigit rest).map (c :: ·) else none

def valueIn (base : Nat) (digits : List Char) : Nat :=
  digits.foldl (fun n c => base * n + (hexValue? c).getD 0) 0

def decimals? (text : List Char) : Option (List Char) := digits? Char.isDigit text

/-- Reads the decimal digits of a whole number, which has no leading zeros. -/
def whole? (text : List Char) : Option (List Char) := do
  let digits ← decimals? text
  if digits.head? = some '0' && digits.length ≠ 1 then none
  return digits

/-- Integers have 64 bits. -/
def inRange? (n : Int) : Option Int := if n.toInt64.toInt = n then some n else none

def integer? : List Char → Option Int
  | '+' :: text => (whole? text).bind fun ds => inRange? (valueIn 10 ds)
  | '-' :: text => (whole? text).bind fun ds => inRange? (-valueIn 10 ds)
  | '0' :: 'x' :: text => (digits? (fun c => (hexValue? c).isSome) text).bind fun ds => inRange? (valueIn 16 ds)
  | '0' :: 'o' :: text => (digits? (fun c => '0' ≤ c && c ≤ '7') text).bind fun ds => inRange? (valueIn 8 ds)
  | '0' :: 'b' :: text => (digits? (fun c => c = '0' || c = '1') text).bind fun ds => inRange? (valueIn 2 ds)
  | text => (whole? text).bind fun ds => inRange? (valueIn 10 ds)

/-- The number `significand * 10 ^ exponent`. -/
structure Decimal where
  significand : Nat
  exponent : Int
deriving DecidableEq, Repr

def appendZeros (n count : Nat) : Nat := n * Nat.pow 10 count

namespace Decimal

/-- The midpoint between the greatest double and the power of two above it. From here on numbers are rounded to
infinity. -/
def overflowBound : Nat := Nat.pow 2 1024 - Nat.pow 2 970

/-- Whether the nearest double is infinite. Exponents that decide this alone are not raised to. -/
def overflows (x : Decimal) : Bool :=
  if 308 < x.exponent then x.significand ≠ 0
  else if x.significand.log2 < 3 * (-x.exponent).toNat then false
  else appendZeros overflowBound (-x.exponent).toNat ≤ appendZeros x.significand x.exponent.toNat

end Decimal

def unsigned : List Char → List Char
  | '+' :: text | '-' :: text => text
  | text => text

/-- Reads the exponent of a float, with its mark. -/
def exponent? : List Char → Option Int
  | mark :: text =>
    if mark = 'e' || mark = 'E' then
      (decimals? (unsigned text)).map fun ds =>
        if text.head? = some '-' then -(valueIn 10 ds : Int) else valueIn 10 ds
    else none
  | [] => none

def isDecimalChar (c : Char) : Bool := c.isDigit || c = '_'

/-- Reads what follows the whole part of a float: the digits after the point and the exponent. -/
def fraction? : List Char → Option (List Char × Int)
  | '.' :: text => do
    let digits ← decimals? (text.takeWhile isDecimalChar)
    match text.dropWhile isDecimalChar with
    | [] => return (digits, 0)
    | rest => return (digits, ← exponent? rest)
  | text => do return ([], ← exponent? text)

/-- Reads a float that is a number and has no sign. It has a fraction, an exponent or both. -/
def float? (text : List Char) : Option Decimal := do
  let whole ← whole? (text.takeWhile isDecimalChar)
  let (fraction, exponent) ← fraction? (text.dropWhile isDecimalChar)
  return { significand := valueIn 10 (whole ++ fraction), exponent := exponent - fraction.length }

/-- Whether a word is a float. Only one with a minus sign may overflow. -/
def isFloat (word : List Char) : Bool :=
  let text := unsigned word
  text = "inf".toList || text = "nan".toList ||
    (float? text).any fun x => word.head? = some '-' || !x.overflows

end OptionShell.Toml
