import OptionShell.Options.Flags
import OptionShell.Options.Inheritance
import OptionShell.Options.Initial

/-!
# Custom setters

A custom setter runs as a script. What it asks of the options is done at once, and may run further setters: the calls
that set options are the same from outside and from within a setter, except that setters nest only so deep.
-/
namespace OptionShell

variable {σ α : Type} [HostVariables σ]

/-- Does what a setter asks for, with `set` for the options that are set on the way. -/
def Request.perform (set : Assign σ) : (request : Request) → Update σ request.Answer
  | add handle => do
    match (← get).definition? handle with
    | some d => modifyGet (·.add d)
    | none => return Outcome.notFound
  | remove handle => do
    match (← get).definition? handle with
    | some d => modifyGet (·.remove d)
    | none => return Outcome.notFound
  | removeNamed name => do
    match (← get).registry.findName? name with
    | some d => modifyGet fun s => (some (s.remove d).1, (s.remove d).2)
    | none => return (none : Option Outcome)
  | handleNamed name => return ((← get).registry.findName? name).map (·.id)
  | handleLettered letter => return ((← get).registry.findLetter? letter).map (·.id)
  | handles why => return ((← get).registry.visible why).map (·.id)
  | read handle why => do
    match (← get).definition? handle with
    | some d => modifyGet fun s => (s.get d why, s.noted d why)
    | none => return (none : Option Int32)
  | .set handle why value => do
    match (← get).definition? handle with
    | some d => set d why value
    | none => return Outcome.notFound
  | setNamed name why value => set.named name why value
  | setLettered letter why value => set.lettered letter why value
  | turnFlag letter sign => set.turnFlag letter sign
  | letters => modifyGet (·.readLetters)
  | flagString stateLetters => modifyGet (·.readFlagString stateLetters)
  | saveFlags => modifyGet (·.readSavedFlags)
  | reinstateFlags saved => set.reinstateFlags saved
  | resetAll => set.resetAll
  | restartAll => set.restartAll
  | rosterText roster => return (← get).rosterText roster
  | refresh roster => modify (·.refresh roster)
  | .inherit roster why quiet => set.inherit roster why quiet
  | openRosters inheriting => set.openRosters inheriting
  | attach => modify (·.attach)
  | detach => modify (·.detach)

/-- Runs a script, with `set` for the options that it sets in turn. -/
def Script.run (set : Assign σ) : Script σ α → Update σ α
  | .done answer => pure answer
  | .readCell cell next => do
    let s ← get
    (next (s.storage.read cell)).run set
  | .writeCell cell value next => do
    modify (·.writeCell cell value)
    next.run set
  | .readHost next => do
    let s ← get
    (next s.host).run set
  | .changeHost change next => do
    modify (·.mapHost change)
    next.run set
  | .ask request next => do
    let answer ← request.perform set
    (next answer).run set

namespace Update

/-- Sets an option, with custom setters calling one another at most `depth` deep. -/
def setWithin : Nat → Definition σ → Access → Int32 → Update σ Outcome
  | depth, d, why, value =>
    match d.setter? with
    | none => modifyGet (·.applyPolicy d why value)
    | some setter =>
      match depth with
      | 0 => failure
      | depth + 1 => do
        let outcome ← (setter why value).run (setWithin depth)
        if outcome = .ok then modify (·.refreshFor d)
        return outcome

def set (d : Definition σ) (why : Access) (value : Int32) : Update σ Outcome := do
  setWithin (← get).nesting d why value

def setNamed (name : String) (why : Access) (value : Int32) : Update σ Outcome := Assign.named set name why value

def setLettered (letter : Char) (why : Access) (value : Int32) : Update σ Outcome :=
  Assign.lettered set letter why value

def switchFlag (letter : Char) (on : Bool) : Update σ (Except Outcome Int32) := Assign.switchFlag set letter on

def turnFlag (letter sign : Char) : Update σ (Except Outcome Int32) := Assign.turnFlag set letter sign

def reinstateFlag (letter : Char) (value : Int32) : Update σ Bool := Assign.reinstateFlag set letter value

def reinstateFlags (saved : SavedFlags) : Update σ Nat := Assign.reinstateFlags set saved

def toInitial (d : Definition σ) : Update σ Bool := Assign.toInitial set d

def allToInitial (skip : Definition σ → Bool) : Update σ Nat := Assign.allToInitial set skip

def resetAll : Update σ Nat := Assign.resetAll set

def restartAll : Update σ Nat := Assign.restartAll set

def inheritName (roster : Roster) (why : Access) (name : String) : Update σ (Option Refusal) :=
  Assign.inheritName set roster why name

def inherit (roster : Roster) (why : Access) (quiet : Bool) : Update σ (List Refusal) :=
  Assign.inherit set roster why quiet

def openRosters (inheriting : Bool) : Update σ Unit := Assign.openRosters set inheriting

theorem set_of_setter?_eq_none {d : Definition σ} (h : d.setter? = none) (why : Access) (value : Int32)
    (s : Options σ) : set d why value s = some (s.applyPolicy d why value) := by
  cases hDepth : s.nesting <;> simp [set, setWithin, h, bind, StateT.bind, get, getThe,
    MonadStateOf.get, StateT.get, modifyGet, MonadStateOf.modifyGet, StateT.modifyGet, pure]

end Update

end OptionShell
