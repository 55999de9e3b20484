import OptionShell.Text.Decimal
import OptionShell.Toml.Item

/-!
# TOML tokens

Readers of the parts of a TOML document that have no parts of their own: blanks and comments, keys, strings and the
words that stand for numbers, booleans and dates. A reader answers with what it read and the text after it.
-/
namespace OptionShell.Toml

def isSpace (c : Char) : Bool := c = ' ' || c = '\t'

def skipSpaces (text : List Char) : List Char := text.dropWhile isSpace

/-- Characters that may stand in comments and literal strings. -/
def isPrintable (c : Char) : Bool := c = '\t' || (0x20 ≤ c.toNat && c.toNat ≠ 0x7F)

def lineEnd? : List Char → Option (List Char)
  | '\n' :: rest | '\r' :: '\n' :: rest => some rest
  | _ => none

def skipComment : List Char → List Char
  | '#' :: rest => rest.dropWhile isPrintable
  | text => text

/-- Reads what may stand after a statement: blanks, a comment and a line end. -/
def endOfStatement? (text : List Char) : Option (List Char) :=
  match skipComment (skipSpaces text) with
  | [] => some []
  | rest => lineEnd? rest

theorem length_lt_of_lineEnd? {text rest : List Char} (h : lineEnd? text = some rest) : rest.length < text.length := by
  unfold lineEnd? at h
  split at h
  · cases h
    exact Nat.lt_succ_self _
  · cases h
    simp only [List.length_cons]
    omega
  · cases h

theorem length_skipSpaces_le (text : List Char) : (skipSpaces text).length ≤ text.length :=
  (List.dropWhile_sublist isSpace).length_le

theorem length_skipComment_le (text : List Char) : (skipComment text).length ≤ text.length := by
  unfold skipComment
  split
  · exact Nat.le_succ_of_le (List.dropWhile_sublist isPrintable).length_le
  · exact Nat.le_refl _

/-- Skips blanks, comments and line ends inside brackets. -/
def skipLines (text : List Char) : List Char :=
  match _h : lineEnd? (skipComment (skipSpaces text)) with
  | some rest => skipLines rest
  | none => skipComment (skipSpaces text)
termination_by text.length
decreasing_by
  have := length_lt_of_lineEnd? _h
  have := length_skipComment_le (skipSpaces text)
  have := length_skipSpaces_le text
  omega

/-- Skips blanks and line ends inside a string of several lines. -/
def skipBlankLines (text : List Char) : List Char :=
  match _h : lineEnd? (skipSpaces text) with
  | some rest => skipBlankLines rest
  | none => skipSpaces text
termination_by text.length
decreasing_by
  have := length_lt_of_lineEnd? _h
  have := length_skipSpaces_le text
  omega

def isBareKeyChar (c : Char) : Bool := c.isAlphanum || c = '_' || c = '-'

def hexValue? (c : Char) : Option Nat :=
  if c.isDigit then some (c.toNat - '0'.toNat)
  else if 'a' ≤ c && c ≤ 'f' then some (c.toNat - 'a'.toNat + 10)
  else if 'A' ≤ c && c ≤ 'F' then some (c.toNat - 'A'.toNat + 10)
  else none

/-- Reads `count` hexadecimal digits as a character. -/
def hexChar? (count : Nat) (text : List Char) : Option (Char × List Char) := do
  let digits := text.take count
  if digits.length ≠ count then none
  let value ← digits.foldlM (fun n c => return 16 * n + (← hexValue? c)) 0
  if h : value.isValidChar then some (Char.ofNatAux value h, text.drop count) else none

/-- Reads the character that an escape stands for, after its backslash. -/
def escape? : List Char → Option (Char × List Char)
  | 'b' :: rest => some ('\x08', rest)
  | 't' :: rest => some ('\t', rest)
  | 'n' :: rest => some ('\n', rest)
  | 'f' :: rest => some ('\x0c', rest)
  | 'r' :: rest => some ('\r', rest)
  | '"' :: rest => some ('"', rest)
  | '\\' :: rest => some ('\\', rest)
  | 'u' :: rest => hexChar? 4 rest
  | 'U' :: rest => hexChar? 8 rest
  | _ => none

/-- Reads a basic string after its quotation mark. -/
def basicString? : Nat → List Char → Option (List Char × List Char)
  | 0, _ => none
  | _, '"' :: rest => some ([], rest)
  | fuel + 1, '\\' :: rest => do
    let (c, rest) ← escape? rest
    let (letters, rest) ← basicString? fuel rest
    return (c :: letters, rest)
  | fuel + 1, c :: rest => do
    if !isPrintable c then none
    let (letters, rest) ← basicString? fuel rest
    return (c :: letters, rest)
  | _, [] => none

/-- Skips the line end after a backslash, with the blanks and line ends around it. -/
def foldedLine? (text : List Char) : Option (List Char) := (lineEnd? (skipSpaces text)).map skipBlankLines

/-- Reads the end of a string in triple marks: three marks, which up to two marks of the text may precede. -/
def tripleEnd? (mark : Char) (text : List Char) : Option (List Char × List Char) :=
  let count := (text.takeWhile (· = mark)).length
  if count < 3 then none
  else
    let inner := min (count - 3) 2
    some (List.replicate inner mark, text.drop (inner + 3))

/-- Reads a basic string of several lines, after its marks. -/
def basicLines? : Nat → List Char → Option (List Char × List Char)
  | 0, _ => none
  | fuel + 1, text =>
    match tripleEnd? '"' text with
    | some closed => some closed
    | none =>
      match text with
      | [] => none
      | '\\' :: rest =>
        match foldedLine? rest with
        | some rest => basicLines? fuel rest
        | none => do
          let (c, rest) ← escape? rest
          let (letters, rest) ← basicLines? fuel rest
          return (c :: letters, rest)
      | c :: rest =>
        match lineEnd? text with
        | some rest => do
          let (letters, rest) ← basicLines? fuel rest
          return ('\n' :: letters, rest)
        | none => do
          if !isPrintable c then none
          let (letters, rest) ← basicLines? fuel rest
          return (c :: letters, rest)

/-- Reads a literal string of several lines, after its marks. -/
def literalLines? : Nat → List Char → Option (List Char × List Char)
  | 0, _ => none
  | fuel + 1, text =>
    match tripleEnd? '\'' text with
    | some closed => some closed
    | none =>
      match text with
      | [] => none
      | c :: rest =>
        match lineEnd? text with
        | some rest => do
          let (letters, rest) ← literalLines? fuel rest
          return ('\n' :: letters, rest)
        | none => do
          if !isPrintable c then none
          let (letters, rest) ← literalLines? fuel rest
          return (c :: letters, rest)

/-- Skips the line end right after the marks of a string of several lines. -/
def skipFirstLineEnd (text : List Char) : List Char := (lineEnd? text).getD text

/-- Reads a string in single marks. -/
def literalString? (text : List Char) : Option (List Char × List Char) :=
  match text.dropWhile fun c => isPrintable c && c ≠ '\'' with
  | '\'' :: rest => some (text.takeWhile (fun c => isPrintable c && c ≠ '\''), rest)
  | _ => none

/-- Reads a string on one line, as keys may be. -/
def lineString? : List Char → Option (List Char × List Char)
  | '"' :: rest => basicString? (rest.length + 1) rest
  | '\'' :: rest => literalString? rest
  | _ => none

def string? : List Char → Option (List Char × List Char)
  | '"' :: '"' :: '"' :: rest => basicLines? (rest.length + 1) (skipFirstLineEnd rest)
  | '\'' :: '\'' :: '\'' :: rest => literalLines? (rest.length + 1) (skipFirstLineEnd rest)
  | text => lineString? text

/-- Reads one part of a key. -/
def simpleKey? (text : List Char) : Option (String × List Char) :=
  match lineString? text with
  | some (letters, rest) => some (String.ofList letters, rest)
  | none =>
    let letters := text.takeWhile isBareKeyChar
    if letters.isEmpty then none else some (String.ofList letters, text.dropWhile isBareKeyChar)

/-- How deep values may be nested, and how many parts a key may have. -/
def depthLimit : Nat := 79

/-- Reads a key of at least one and at most `limit` parts between dots: the parts before the last, the last one and
the rest. -/
def dottedKey? (limit : Nat) (text : List Char) : Option (List String × String × List Char) :=
  match limit with
  | 0 => none
  | limit + 1 => do
    let (part, rest) ← simpleKey? text
    match skipSpaces rest with
    | '.' :: rest =>
      let (path, key, rest) ← dottedKey? limit (skipSpaces rest)
      return (part :: path, key, rest)
    | _ => return ([], part, rest)

def key? (text : List Char) : Option (List String × String × List Char) := dottedKey? depthLimit text

end OptionShell.Toml
