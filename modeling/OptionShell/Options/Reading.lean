import OptionShell.Options.Listing

/-!
# Readings by clients

Commands read and show options on behalf of a user. Such a reading answers what the pure functions answer, and adds
what the readers of the definitions leave behind in the host.
-/
namespace OptionShell

abbrev Reading (σ α : Type) := StateM (Options σ) α

namespace Reading

variable {σ : Type}

def value (d : Definition σ) (why : Access) : Reading σ (Option Int32) := fun s => (s.get d why, s.noted d why)

def isOn (d : Definition σ) (why : Access) : Reading σ Bool := fun s => (s.isOn d why, s.noted d why)

def valueByName (name : String) (why : Access) : Reading σ (Option Int32) := do
  match (← get).registry.findName? name with
  | some d => value d why
  | none => return none

theorem valueByName_eq (name : String) (why : Access) (s : Options σ) :
    valueByName name why s = match s.registry.findName? name with
      | some d => (s.get d why, s.noted d why)
      | none => (none, s) := by
  have hRun : valueByName name why s = (match s.registry.findName? name with
    | some d => value d why
    | none => pure none : Reading σ (Option Int32)) s := rfl
  rw [hRun]
  cases s.registry.findName? name <;> rfl

def valueByLetter (letter : Char) (why : Access) : Reading σ (Option Int32) := do
  match (← get).registry.findLetter? letter with
  | some d => value d why
  | none => return none

def enabled (name : String) : Reading σ Bool := return (← valueByName name .any).any fun value => value ≠ 0

def display (d : Definition σ) (why : Access) (style : Style) : Reading σ String :=
  fun s => (s.display d why style, s.noted d why)

def displayUnless (d : Definition σ) (why : Access) (mask : UInt64) (style : Style) : Reading σ (Option String) :=
  fun s => (s.displayUnless d why mask style, s.noted d why)

/-- Reading a listing leaves behind what reading each option of it does, hidden by the mask or not. -/
def listing (why : Access) (mask : UInt64) (style : Style) : Reading σ String :=
  fun s => (s.listing why mask style, (s.listable why style).foldl (fun s d => s.noted d why) s)

end Reading

end OptionShell
