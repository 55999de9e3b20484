import OptionShell.Line.Quote
import OptionShell.Variables

/-!
# References in a command

Outside single quotes, `$?`, `$-`, `$NAME` and `${NAME}` refer to the last status, the flags and variables. A command
is read as plain text and references; each reference is replaced by its value, which is not looked at again. Quotes
and backslashes stay, for the words are read later.
-/
namespace OptionShell.Line

inductive Reference where
  /-- `$?` -/
  | status
  /-- `$-` -/
  | flags
  /-- `$NAME` or `${NAME}` -/
  | variableNamed (name : List Char)
deriving DecidableEq, Repr

inductive Piece where
  | plain (text : List Char)
  | reference (r : Reference)
deriving DecidableEq, Repr

/-- The quotes that are open after a character which no backslash protects. -/
def quoteAfter : Option Quote → Char → Option Quote
  | none, '\'' => some .single
  | none, '"' => some .double
  | some .single, '\'' => none
  | some .double, '"' => none
  | quote, _ => quote

/-- Reads what follows a dollar sign: a reference, and the text after it. -/
def reference? : List Char → Option (Reference × List Char)
  | '?' :: rest => some (.status, rest)
  | '-' :: rest => some (.flags, rest)
  | text =>
    match text with
    | '{' :: rest =>
      if rest.contains '}' then
        some (.variableNamed (rest.takeWhile (· ≠ '}')), (rest.dropWhile (· ≠ '}')).drop 1)
      else none
    | _ =>
      if (text.takeWhile isNameChar).isEmpty then none
      else some (.variableNamed (text.takeWhile isNameChar), text.dropWhile isNameChar)

theorem length_lt_of_reference? {text rest : List Char} {r : Reference} (h : reference? text = some (r, rest)) :
    rest.length < text.length := by
  unfold reference? at h
  split at h
  · cases h
    exact Nat.lt_succ_self _
  · cases h
    exact Nat.lt_succ_self _
  · split at h
    · rename_i tail _ _
      split at h
      · cases h
        have := (List.dropWhile_sublist (· ≠ '}') (l := tail)).length_le
        simp only [List.length_drop, List.length_cons]
        omega
      · cases h
    · split at h
      · cases h
      · cases h
        rename_i hWord
        cases text with
        | nil => simp at hWord
        | cons c tail =>
          by_cases hc : isNameChar c = true
          · rw [List.dropWhile_cons_of_pos hc]
            exact Nat.lt_succ_of_le (List.dropWhile_sublist isNameChar).length_le
          · simp [hc] at hWord

/-- The pieces of a command, read from inside the given quotes or from outside quotes. -/
def piecesOf (quote : Option Quote) : List Char → List Piece
  | [] => []
  | c :: rest =>
    if c = '\\' ∧ quote ≠ some .single then
      match rest with
      | [] => [.plain [c]]
      | d :: rest => .plain [c, d] :: piecesOf quote rest
    else if c = '$' ∧ quote ≠ some .single then
      match _h : reference? rest with
      | some (r, after) => .reference r :: piecesOf quote after
      | none => .plain [c] :: piecesOf quote rest
    else .plain [c] :: piecesOf (quoteAfter quote c) rest
termination_by text => text.length
decreasing_by
  all_goals simp only [List.length_cons]
  · omega
  · have := length_lt_of_reference? _h
    omega
  · omega
  · omega

def pieces (command : List Char) : List Piece := piecesOf none command

/-- Replaces each reference by its value. The first reference without a value decides the error. -/
def expandPieces {ε : Type} (resolve : Reference → Except ε (List Char)) : List Piece → Except ε (List Char)
  | [] => .ok []
  | .plain text :: rest => return text ++ (← expandPieces resolve rest)
  | .reference r :: rest => return (← resolve r) ++ (← expandPieces resolve rest)

def expand {ε : Type} (resolve : Reference → Except ε (List Char)) (command : List Char) :
    Except ε (List Char) :=
  expandPieces resolve (pieces command)

end OptionShell.Line
