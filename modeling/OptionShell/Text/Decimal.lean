/-!
# Decimal numerals

Integers are read from an optional sign and at least one ASCII digit, within the range of their width. Leading
zeros count for nothing.
-/
namespace OptionShell.Text

/-- The number that a run of ASCII digits denotes. -/
def valueOfDigits (digits : List Char) : Nat := digits.foldl (fun n c => 10 * n + (c.toNat - '0'.toNat)) 0

/-- The number that a run of ASCII digits denotes, or `limit` if that is less. Long runs are read without great
numbers. -/
def valueUpTo (limit : Nat) (digits : List Char) : Nat :=
  digits.foldl (fun n c => min limit (10 * n + (c.toNat - '0'.toNat))) 0

theorem valueUpTo_eq_min (limit : Nat) (digits : List Char) :
    valueUpTo limit digits = min limit (valueOfDigits digits) := by
  suffices h : ∀ n, digits.foldl (fun n c => min limit (10 * n + (c.toNat - '0'.toNat))) (min limit n) =
      min limit (digits.foldl (fun n c => 10 * n + (c.toNat - '0'.toNat)) n) by
    simpa [valueUpTo, valueOfDigits] using h 0
  induction digits with
  | nil => intro n; rfl
  | cons c rest ih =>
    intro n
    rw [List.foldl_cons, List.foldl_cons, ← ih]
    congr 1
    omega

/-- A number beyond the ranges of all widths. -/
def beyondRanges : Nat := 0x10000000000000000

/-- Reads an unsigned numeral: one or more digits. Numbers that are out of all ranges are not told apart. -/
def natural? (text : List Char) : Option Nat :=
  if text ≠ [] ∧ text.all Char.isDigit then some (valueUpTo beyondRanges text) else none

def integer? : List Char → Option Int
  | '-' :: digits => (natural? digits).map fun n => -(n : Int)
  | '+' :: digits => (natural? digits).map fun n => (n : Int)
  | digits => (natural? digits).map fun n => (n : Int)

def int32? (text : List Char) : Option Int32 :=
  (integer? text).bind fun n => if n.toInt32.toInt = n then some n.toInt32 else none

def int64? (text : List Char) : Option Int64 :=
  (integer? text).bind fun n => if n.toInt64.toInt = n then some n.toInt64 else none

end OptionShell.Text
