import OptionShell.Line.LineError
import OptionShell.Line.Quote
import OptionShell.Text.Blank

/-!
# Chains of commands

A line is cut into commands at `;`, `&&` and `||` outside quotes and escapes. Commands without text are left out,
except that `&&` and `||` need a command before them.
-/
namespace OptionShell.Line

inductive Connective where
  /-- The first command, or one after `;`. -/
  | always
  /-- After `&&`: runs if the last command succeeded. -/
  | onSuccess
  /-- After `||`: runs if the last command failed. -/
  | onFailure
deriving DecidableEq, Repr

def Connective.admits : Connective → Int32 → Bool
  | always, _ => true
  | onSuccess, status => status = 0
  | onFailure, status => status ≠ 0

structure Segment where
  connective : Connective
  command : List Char
deriving DecidableEq, Repr

/-- Whether what follows a command in its chain guards against its failure. -/
def guards : List Segment → Bool
  | next :: _ => next.connective ≠ .always
  | [] => false

/-- What a splitter has read: the commands that are done, and the connective and the text of the one after them. -/
structure Splitter where
  segments : Array Segment := #[]
  connective : Connective := .always
  current : Array Char := #[]

namespace Splitter

def push (s : Splitter) (text : List Char) : Splitter := { s with current := s.current ++ text }

/-- Ends the command before the given connective, or before the end of the line as before a semicolon. -/
def finish (s : Splitter) (next : Connective) : Except LineError Splitter :=
  let command := Text.trim s.current.toList
  if !command.isEmpty then .ok ⟨s.segments.push ⟨s.connective, command⟩, next, #[]⟩
  else if next ≠ .always then .error .missingCommand
  else .ok ⟨s.segments, next, #[]⟩

/-- Splits the rest of a line, from inside the given quotes or from outside quotes. Inside double quotes a backslash
takes the next character with it, whatever it is. -/
def split : Option Quote → Splitter → List Char → Except LineError (List Segment)
  | _, s, [] => return (← s.finish .always).segments.toList
  | some .single, s, '\'' :: rest => split none (s.push ['\'']) rest
  | some .single, s, c :: rest => split (some .single) (s.push [c]) rest
  | some .double, s, '"' :: rest => split none (s.push ['"']) rest
  | some .double, s, '\\' :: c :: rest => split (some .double) (s.push ['\\', c]) rest
  | some .double, s, c :: rest => split (some .double) (s.push [c]) rest
  | none, s, '\'' :: rest => split (some .single) (s.push ['\'']) rest
  | none, s, '"' :: rest => split (some .double) (s.push ['"']) rest
  | none, s, '\\' :: c :: rest => split none (s.push ['\\', c]) rest
  | none, s, ';' :: rest => do split none (← s.finish .always) rest
  | none, s, '&' :: '&' :: rest => do split none (← s.finish .onSuccess) rest
  | none, s, '|' :: '|' :: rest => do split none (← s.finish .onFailure) rest
  | none, s, c :: rest => split none (s.push [c]) rest

end Splitter

def segments (line : List Char) : Except LineError (List Segment) := Splitter.split none {} line

end OptionShell.Line
