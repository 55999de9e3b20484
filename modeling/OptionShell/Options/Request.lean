import OptionShell.Options.Access
import OptionShell.Options.Outcome

/-!
# Requests

What a custom setter can ask of the options while it runs, and what it is answered. It names an option by its name, by
its letter or by its handle. The handle of a definition is its identity, so a setter can keep handles of definitions
that are not registered, its own among them.
-/
namespace OptionShell

/-- One of the two variables that list options which are on. -/
inductive Roster where
  | shellopts
  | bashopts
deriving DecidableEq, Repr

/-- The values of the options with a letter, by letter. -/
structure SavedFlags where
  values : List (Char × Int32)
deriving DecidableEq, Repr

namespace SavedFlags

def get? (saved : SavedFlags) (letter : Char) : Option Int32 := saved.values.lookup letter

def size (saved : SavedFlags) : Nat := saved.values.length

end SavedFlags

/-- A name on an inherited roster whose option could not be turned on. -/
structure Refusal where
  name : String
  outcome : Outcome
deriving DecidableEq, Repr

def Refusal.message (refusal : Refusal) : String := unknownOptionText refusal.name

abbrev Handle := Nat

inductive Request where
  | add (handle : Handle)
  | remove (handle : Handle)
  /-- Removes the option of that name. -/
  | removeNamed (name : String)
  | handleNamed (name : String)
  | handleLettered (letter : Char)
  /-- The handles of the live definitions that a listing for this reason shows, in registry order. -/
  | handles (why : Access)
  | read (handle : Handle) (why : Access)
  | set (handle : Handle) (why : Access) (value : Int32)
  | setNamed (name : String) (why : Access) (value : Int32)
  | setLettered (letter : Char) (why : Access) (value : Int32)
  | turnFlag (letter sign : Char)
  | letters
  | flagString (stateLetters : String)
  | saveFlags
  | reinstateFlags (saved : SavedFlags)
  | resetAll
  | restartAll
  | rosterText (roster : Roster)
  | refresh (roster : Roster)
  | inherit (roster : Roster) (why : Access) (quiet : Bool)
  | openRosters (inheriting : Bool)
  | attach
  | detach
deriving DecidableEq, Repr

/-- What the request is answered. Handles that lead to no definition are answered by `notFound`, as are unknown keys. -/
def Request.Answer : Request → Type
  | add _ | remove _ | set .. | setNamed .. | setLettered .. => Outcome
  | removeNamed _ => Option Outcome
  | handleNamed _ | handleLettered _ => Option Handle
  | handles _ => List Handle
  | read .. => Option Int32
  | turnFlag .. => Except Outcome Int32
  | letters => List Char
  | flagString _ | rosterText _ => String
  | saveFlags => SavedFlags
  | reinstateFlags _ | resetAll | restartAll => Nat
  | inherit .. => List Refusal
  | refresh _ | openRosters _ | attach | detach => Unit

end OptionShell
