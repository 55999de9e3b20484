/-!
# TOML items

The values that a TOML document gives to its keys. A table remembers how it came about, because that decides whether
the document may add to it later.
-/
namespace OptionShell.Toml

/-- How a table came about. -/
inductive Origin where
  /-- It has a header of its own. -/
  | header
  /-- It is on the way to a table with a header. -/
  | implied
  /-- It is on the way to a dotted key. -/
  | dotted
  /-- It is written in braces. -/
  | braces
deriving DecidableEq, Repr

inductive Item where
  | string (text : String)
  | integer (n : Int)
  | float (text : String)
  | boolean (value : Bool)
  | datetime (text : String)
  | array (items : List Item)
  | table (origin : Origin) (entries : List (String × Item))
  /-- Tables under repeated `[[…]]` headers. -/
  | tables (elements : List (List (String × Item)))

/-- The keys of a table with their items, in the order of the document. -/
abbrev Entries := List (String × Item)

namespace Entries

def find? (entries : Entries) (key : String) : Option Item := entries.lookup key

/-- Replaces the item under a key, or adds the key at the end. -/
def put (key : String) (item : Item) : Entries → Entries
  | [] => [(key, item)]
  | e :: rest => if e.1 = key then (key, item) :: rest else e :: put key item rest

/-- Works on the table at the end of a path and puts it back. Tables that are missing on the way are added. `dotted`
paths lead only through tables without a header. `edit` gets the origin of the table and its entries. -/
def editAt (dotted : Bool) (edit : Origin → Entries → Option Entries) (origin : Origin) :
    List String → Entries → Option Entries
  | [], entries => edit origin entries
  | key :: path, entries =>
    match entries.find? key with
    | none => do
      let origin := if dotted then Origin.dotted else .implied
      return entries.put key (.table origin (← editAt dotted edit origin path []))
    | some (.table inner innerEntries) => do
      if inner = .braces || (dotted && inner = .header) then none
      return entries.put key (.table inner (← editAt dotted edit inner path innerEntries))
    | some (.tables elements) => do
      let last ← elements.getLast?
      return entries.put key (.tables (elements.dropLast ++ [← editAt dotted edit .header path last]))
    | some _ => none

/-- Gives a dotted key a value. The key must be new, and the tables of its path must not be made in other ways. -/
def assign (path : List String) (key : String) (item : Item) (origin : Origin) (entries : Entries) :
    Option Entries :=
  editAt true (fun landed inner =>
    if !path.isEmpty && landed ≠ .dotted then none
    else if (inner.find? key).isSome then none
    else some (inner.put key item)) origin path entries

def openTable (path : List String) (key : String) (entries : Entries) : Option Entries :=
  editAt false (fun _ inner =>
    match inner.find? key with
    | none => some (inner.put key (.table .header []))
    | some (.table .implied own) => some (inner.put key (.table .header own))
    | some _ => none) .header path entries

def openElement (path : List String) (key : String) (entries : Entries) : Option Entries :=
  editAt false (fun _ inner =>
    match inner.find? key with
    | none => some (inner.put key (.tables [[]]))
    | some (.tables elements) => some (inner.put key (.tables (elements ++ [[]])))
    | some _ => none) .header path entries

end Entries

end OptionShell.Toml
