import OptionShell.Options.Request
import OptionShell.Options.Storage

/-!
# Setter scripts

A custom setter is a script: it reads and writes cells, consults and changes the state of the program that hosts the
options, and makes requests of the options before it answers. The host's state has the type `σ`.
-/
namespace OptionShell

inductive Script (σ α : Type) where
  | done (answer : α)
  | readCell (cell : CellId) (next : Int32 → Script σ α)
  | writeCell (cell : CellId) (value : Int32) (next : Script σ α)
  | readHost (next : σ → Script σ α)
  | changeHost (change : σ → σ) (next : Script σ α)
  /-- Makes a request; the next step gets the answer. -/
  | ask (request : Request) (next : request.Answer → Script σ α)

namespace Script

variable {σ α β : Type}

def bind : Script σ α → (α → Script σ β) → Script σ β
  | done answer, f => f answer
  | readCell cell next, f => readCell cell fun value => (next value).bind f
  | writeCell cell value next, f => writeCell cell value (next.bind f)
  | readHost next, f => readHost fun host => (next host).bind f
  | changeHost change next, f => changeHost change (next.bind f)
  | ask request next, f => ask request fun answer => (next answer).bind f

instance : Monad (Script σ) where
  pure := done
  bind := bind

def load (cell : CellId) : Script σ Int32 := readCell cell done

def store (cell : CellId) (value : Int32) : Script σ Unit := writeCell cell value (done ())

def alter (change : σ → σ) : Script σ Unit := changeHost change (done ())

def request (request : Request) : Script σ request.Answer := ask request done

def set (name : String) (why : Access) (value : Int32) : Script σ Outcome := request (.setNamed name why value)

def setFlag (letter : Char) (why : Access) (value : Int32) : Script σ Outcome := request (.setLettered letter why value)

def remove (name : String) : Script σ (Option Outcome) := request (.removeNamed name)

end Script

end OptionShell
