import OptionShell.Toml.Number

/-!
# TOML words

A value that is no string, array or inline table is one word: a number, a boolean or a date. The word decides by its
form what it denotes; a word of no such form is an error.
-/
namespace OptionShell.Toml

/-- Reads a number of exactly `count` digits. -/
def fixed? (count : Nat) (text : List Char) : Option (Nat × List Char) :=
  let digits := text.take count
  if digits.length = count && digits.all Char.isDigit then some (valueIn 10 digits, text.drop count) else none

def expect? (c : Char) : List Char → Option (List Char)
  | d :: rest => if c = d then some rest else none
  | [] => none

def daysInMonth (year month : Nat) : Nat :=
  if month = 2 then
    if year % 4 = 0 && (year % 100 ≠ 0 || year % 400 = 0) then 29 else 28
  else if month ∈ [4, 6, 9, 11] then 30 else 31

def date? (text : List Char) : Option (List Char) := do
  let (year, rest) ← fixed? 4 text
  let (month, rest) ← fixed? 2 (← expect? '-' rest)
  let (day, rest) ← fixed? 2 (← expect? '-' rest)
  if 1 ≤ month ∧ month ≤ 12 ∧ 1 ≤ day ∧ day ≤ daysInMonth year month then some rest else none

def time? (text : List Char) : Option (List Char) := do
  let (hour, rest) ← fixed? 2 text
  let (minute, rest) ← fixed? 2 (← expect? ':' rest)
  let (second, rest) ← fixed? 2 (← expect? ':' rest)
  if 23 < hour ∨ 59 < minute ∨ 60 < second then none
  match rest with
  | '.' :: fraction =>
    if (fraction.head?.any Char.isDigit) then some (fraction.dropWhile Char.isDigit) else none
  | _ => some rest

/-- Whether the text is empty or an offset from universal time. -/
def isOffset : List Char → Bool
  | [] => true
  | ['Z'] | ['z'] => true
  | sign :: rest => (sign = '+' || sign = '-') && (do
      let (hour, rest) ← fixed? 2 rest
      let (minute, rest) ← fixed? 2 (← expect? ':' rest)
      return hour ≤ 23 && minute ≤ 59 && rest.isEmpty).getD false

def isDatetime (word : List Char) : Bool :=
  match date? word with
  | some [] => true
  | some (mark :: rest) => (mark = 'T' || mark = 't' || mark = ' ') && ((time? rest).map isOffset).getD false
  | none => time? word = some []

def isWordChar (c : Char) : Bool := c.isAlphanum || c = '_' || c = '+' || c = '-' || c = '.' || c = ':'

/-- The word at the start of a text. A date takes a time after one space in. -/
def wordAt (text : List Char) : List Char :=
  let word := text.takeWhile isWordChar
  match date? word, text.drop word.length with
  | some [], ' ' :: rest =>
    if rest.head?.any Char.isDigit then word ++ ' ' :: rest.takeWhile isWordChar else word
  | _, _ => word

def scalarOf? (word : List Char) : Option Item :=
  if word = "true".toList then some (.boolean true)
  else if word = "false".toList then some (.boolean false)
  else if isDatetime word then some (.datetime (String.ofList word))
  else match integer? word with
    | some n => some (.integer n)
    | none => if isFloat word then some (.float (String.ofList word)) else none

def scalar? (text : List Char) : Option (Item × List Char) :=
  let word := wordAt text
  (scalarOf? word).map fun item => (item, text.drop word.length)

end OptionShell.Toml
