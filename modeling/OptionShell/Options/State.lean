import OptionShell.Options.Registry
import OptionShell.Options.HostVariables

/-!
# The state of the options

The registry, the storage and the state of the host form one value. Reading an option is a function of it;
`Options.noted` adds what the reading by a client leaves behind in the host. Changes can run custom setters, which may
set further options; `nesting` limits how deep, and a change that goes deeper has no result.

The registered letters are kept from the first time that they are asked for until a letter is added or removed.
-/
namespace OptionShell

/-- The definitions that custom setters keep handles of, whether they are registered or not. -/
structure Handles (σ : Type) where
  find? : Handle → Option (Definition σ)
  id_eq : ∀ {handle d}, find? handle = some d → d.id = handle

namespace Handles

variable {σ : Type}

def none : Handles σ := ⟨fun _ => .none, nofun⟩

def ofList (defs : List (Definition σ)) : Handles σ where
  find? handle := defs.find? fun d => d.id = handle
  id_eq h := by simpa using List.find?_some h

theorem mem_of_find?_ofList {defs : List (Definition σ)} {handle : Handle} {d : Definition σ}
    (hFound : (ofList defs).find? handle = some d) : d ∈ defs :=
  List.mem_of_find?_eq_some hFound

end Handles

structure Options (σ : Type) where
  registry : Registry σ := .empty
  /-- The registered letters, if they were asked for since they changed. -/
  letters? : Option (List Char) := none
  held : Handles σ := .none
  storage : Storage := .ofList []
  host : σ
  /-- Whether the variables of the host are kept up to date. -/
  attached : Bool := false
  /-- How deep setters may call one another. -/
  nesting : Nat := 100000

/-- A change of the options with an answer; `none` if setters call one another too deep. -/
abbrev Update (σ α : Type) := StateT (Options σ) Option α

namespace Options

variable {σ : Type}

/-- The value of an option; `none` if the definition has neither reader nor storage. -/
def get (s : Options σ) (d : Definition σ) (why : Access) : Option Int32 :=
  match d.getter? with
  | some getter => some (getter.value why s.storage s.host)
  | none => d.cell?.map s.storage.read

def isOn (s : Options σ) (d : Definition σ) (why : Access) : Bool := (s.get d why).any fun value => value ≠ 0

def valueNamed (s : Options σ) (name : String) (why : Access) : Option Int32 :=
  (s.registry.findName? name).bind fun d => s.get d why

def valueLettered (s : Options σ) (letter : Char) (why : Access) : Option Int32 :=
  (s.registry.findLetter? letter).bind fun d => s.get d why

/-- Whether the option of that name is on, read for no particular reason. -/
def enabled (s : Options σ) (name : String) : Bool := (s.valueNamed name .any).any fun value => value ≠ 0

/-- The state after a client has read the option. -/
def noted (d : Definition σ) (why : Access) (s : Options σ) : Options σ :=
  match d.getter? with
  | some getter => { s with host := getter.note why s.storage s.host }
  | none => s

def writeCell (cell : CellId) (value : Int32) (s : Options σ) : Options σ :=
  { s with storage := s.storage.write cell value }

def mapHost (f : σ → σ) (s : Options σ) : Options σ := { s with host := f s.host }

/-- Keeps the host's variables up to date from now on. -/
def attach (s : Options σ) : Options σ := { s with attached := true }

def detach (s : Options σ) : Options σ := { s with attached := false }

/-- The definition that a handle leads to: one that a setter keeps, or else a live one. -/
def definition? (s : Options σ) (handle : Handle) : Option (Definition σ) :=
  (s.held.find? handle).or (s.registry.entries.find? fun d => d.id = handle)

/-- Adds a definition. The cached letters are dropped if its letter is new. -/
def add (d : Definition σ) (s : Options σ) : Outcome × Options σ :=
  let (outcome, registry) := s.registry.add d
  (outcome, { s with
    registry
    letters? := if outcome = .ok ∧ s.registry.letterState d = .free then none else s.letters? })

/-- Takes a definition out of the registry. The cached letters are dropped if a letter led to it. -/
def takeOut (d : Definition σ) (s : Options σ) : Options σ :=
  { s with
    registry := s.registry.remove d
    letters? := if s.registry.byLetter.values.any fun other => other.id = d.id then none else s.letters? }

/-- The registered letters in ascending order, and the state after they were asked for. -/
def readLetters (s : Options σ) : List Char × Options σ :=
  match s.letters? with
  | some letters => (letters, s)
  | none => (s.registry.letters, { s with letters? := some s.registry.letters })

end Options

def switchValue (on : Bool) : Int32 := if on then 1 else 0

end OptionShell
