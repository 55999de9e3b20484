/-!
# Outcomes of option operations

Registering, removing and setting an option end in one of eight outcomes. Three of them are successes, and each has a
raw code, an exit status and a description.
-/
namespace OptionShell

inductive Outcome where
  | ok
  | unchanged
  /-- The request was dropped without complaint. -/
  | ignored
  | notFound
  | readOnly
  /-- The option cannot be changed for this reason. -/
  | forbidden
  /-- The value or the letter is not acceptable. -/
  | badValue
  | duplicate
deriving DecidableEq, Repr

namespace ExitStatus

def success : Int32 := 0

def failure : Int32 := 1

/-- An option that is unknown or cannot be used. -/
def badUsage : Int32 := 2

/-- A change that the policy refused. -/
def badAssign : Int32 := 260

/-- The status of what has no exit status. -/
def outOfRange : Int32 := -1

end ExitStatus

namespace Outcome

def all : List Outcome := [ok, unchanged, ignored, notFound, readOnly, forbidden, badValue, duplicate]

def isAccepted : Outcome → Bool
  | ok | unchanged | ignored => true
  | _ => false

def isRefused (r : Outcome) : Bool := !r.isAccepted

/-- Codes start above every exit status of a process, so the two cannot be confused. -/
def code (r : Outcome) : UInt16 := 0x200 + r.ctorIdx.toUInt16

def ofCode? (code : UInt16) : Option Outcome := all.find? fun r => r.code = code

/-- The exit status of a builtin whose change ended so. -/
def exitStatus : Outcome → Int32
  | ok | unchanged | ignored => ExitStatus.success
  | notFound | readOnly => ExitStatus.badUsage
  | forbidden | badValue => ExitStatus.badAssign
  | duplicate => ExitStatus.outOfRange

def describe : Outcome → String
  | ok => "ok"
  | unchanged => "unchanged"
  | ignored => "ignored"
  | notFound => "invalid option"
  | readOnly => "option is read-only"
  | forbidden => "option cannot be changed"
  | badValue => "invalid option value"
  | duplicate => "option already defined"

end Outcome

def exitStatusOfCode (code : UInt16) : Int32 := (Outcome.ofCode? code).elim ExitStatus.outOfRange Outcome.exitStatus

/-- The complaint about an argument that names no option. -/
def unknownOptionText (arg : String) : String :=
  match arg.toList with
  | '-' :: _ | '+' :: _ => arg ++ ": invalid option"
  | _ => arg ++ ": invalid option name"

/-- The complaint about an argument whose option could not be changed. -/
def Outcome.complaint (arg : String) (outcome : Outcome) : String :=
  if outcome = .notFound then unknownOptionText arg else arg ++ ": " ++ outcome.describe

end OptionShell
