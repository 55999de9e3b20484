import OptionShell.Toml.Scalar

/-!
# TOML documents

A document is a sequence of lines that give values to keys and open tables. Reading it answers with the entries of
its root table, or with nothing if the text is not well-formed, nests too deep or defines something twice.
-/
namespace OptionShell.Toml

/-- What a reader answers: what it read, and the text after it. -/
abbrev Reader (α : Type) := List Char → Option (α × List Char)

/-- Reads the elements of an array up to its closing bracket, each with `item?`. -/
def elements? (item? : Reader Item) : Nat → Reader (List Item)
  | 0, _ => none
  | fuel + 1, text =>
    match skipLines text with
    | ']' :: rest => some ([], rest)
    | text => do
      let (item, rest) ← item? text
      match skipLines rest with
      | ',' :: rest =>
        let (items, rest) ← elements? item? fuel rest
        return (item :: items, rest)
      | ']' :: rest => return ([item], rest)
      | _ => none

/-- Reads the pairs of an inline table up to its closing brace, each value with `item?`. `entries` holds the pairs so
far. -/
def pairs? (item? : Reader Item) : Nat → Entries → Reader Entries
  | 0, _, _ => none
  | fuel + 1, entries, text => do
    let (path, key, rest) ← key? text
    let rest ← expect? '=' (skipSpaces rest)
    let (item, rest) ← item? (skipSpaces rest)
    let entries ← entries.assign path key item .braces
    match skipSpaces rest with
    | ',' :: rest => pairs? item? fuel entries (skipSpaces rest)
    | '}' :: rest => return (entries, rest)
    | _ => none

/-- Reads an inline table after its opening brace. -/
def inlineTable? (item? : Reader Item) (text : List Char) : Option (Entries × List Char) :=
  match skipSpaces text with
  | '}' :: rest => some ([], rest)
  | text => pairs? item? (text.length + 1) [] text

/-- Reads a value with arrays and inline tables at most `depth` deep. -/
def value? (depth : Nat) (text : List Char) : Option (Item × List Char) :=
  match text with
  | '[' :: rest =>
    match depth with
    | 0 => none
    | depth + 1 => (elements? (value? depth) (rest.length + 1) rest).map fun read => (.array read.1, read.2)
  | '{' :: rest =>
    match depth with
    | 0 => none
    | depth + 1 => (inlineTable? (value? depth) rest).map fun read => (.table .braces read.1, read.2)
  | c :: _ =>
    if c = '"' || c = '\'' then (string? text).map fun read => (.string (String.ofList read.1), read.2)
    else scalar? text
  | [] => none

inductive Statement where
  | assignment (path : List String) (key : String) (item : Item)
  | header (path : List String) (key : String)
  | elementHeader (path : List String) (key : String)

/-- Reads the key of a header and its closing brackets. -/
def headerKey? (closing : List Char) (text : List Char) : Option (List String × String × List Char) := do
  let (path, key, rest) ← key? (skipSpaces text)
  let rest ← closing.foldlM (fun rest c => expect? c rest) (skipSpaces rest)
  return (path, key, rest)

/-- Reads a statement, without what follows it on its line. -/
def statement? (text : List Char) : Option (Statement × List Char) :=
  match text with
  | '[' :: '[' :: rest => do
    let (path, key, rest) ← headerKey? [']', ']'] rest
    return (.elementHeader path key, rest)
  | '[' :: rest => do
    let (path, key, rest) ← headerKey? [']'] rest
    return (.header path key, rest)
  | _ => do
    let (path, key, rest) ← key? text
    let rest ← expect? '=' (skipSpaces rest)
    let (item, rest) ← value? depthLimit (skipSpaces rest)
    return (.assignment path key item, rest)

def statements? : Nat → List Char → Option (List Statement)
  | 0, _ => none
  | fuel + 1, text =>
    match skipSpaces text with
    | [] => some []
    | text => do
      match endOfStatement? text with
      | some [] => return []
      | some rest => statements? fuel rest
      | none =>
        let (statement, rest) ← statement? text
        match ← endOfStatement? rest with
        | [] => return [statement]
        | rest => return statement :: (← statements? fuel rest)

/-- The document so far: the root table and the path of the open table. -/
structure Draft where
  root : Entries := []
  opened : List String := []

namespace Draft

def add (draft : Draft) : Statement → Option Draft
  | .assignment path key item => do
    let edit := fun origin entries => Entries.assign path key item origin entries
    return { draft with root := ← Entries.editAt false edit .header draft.opened draft.root }
  | .header path key => do
    return { root := ← draft.root.openTable path key, opened := path ++ [key] }
  | .elementHeader path key => do
    return { root := ← draft.root.openElement path key, opened := path ++ [key] }

end Draft

def dropByteOrderMark : List Char → List Char
  | '\uFEFF' :: rest => rest
  | text => text

/-- Reads a document: the entries of its root table. -/
def parse? (text : String) : Option Entries := do
  let text := dropByteOrderMark text.toList
  let statements ← statements? (text.length + 1) text
  let draft ← statements.foldlM Draft.add {}
  return draft.root

end OptionShell.Toml
