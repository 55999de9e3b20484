import OptionShell.Options.Change

/-!
# Single-letter flags

Options with a letter are flags: `set -x` and `set +x` change them, `$-` lists those that are on, and a scope can
save all of them and put them back. The listing and the saving go by the registered letters. They have a form that
takes these from the registry, and one that takes them from the cache; as long as the cache is current both answer the
same.
-/
namespace OptionShell

namespace Flag

/-- The sign before a letter: `-` turns the flag on and `+` turns it off. -/
def sign (on : Bool) : Char := if on then '-' else '+'

/-- What a sign does; nothing if the character is no sign. -/
def ofSign? : Char → Option Bool
  | '-' => some true
  | '+' => some false
  | _ => none

theorem ofSign?_sign (on : Bool) : ofSign? (sign on) = some on := by cases on <;> rfl

end Flag

namespace Options

variable {σ : Type}

/-- Those of the letters whose option is on. -/
def flagsAmong (letters : List Char) (s : Options σ) : List Char :=
  letters.filter fun letter => (s.registry.findLetter? letter).any fun d => s.isOn d .flag

/-- The values of the options with these letters. -/
def valuesOf (letters : List Char) (s : Options σ) : SavedFlags where
  values := letters.filterMap fun letter =>
    (s.registry.findLetter? letter).bind fun d => (s.get d .scopeEnd).map fun value => (letter, value)

def flagsOn (s : Options σ) : List Char := s.flagsAmong s.registry.letters

/-- The value of `$-`. `stateLetters` stand for states of the shell and not for options. -/
def flagString (s : Options σ) (stateLetters : String) : String := String.ofList s.flagsOn ++ stateLetters

def savedFlags (s : Options σ) : SavedFlags := s.valuesOf s.registry.letters

/-- The value of `$-`, from the cached letters if there are any. -/
def readFlagString (stateLetters : String) (s : Options σ) : String × Options σ :=
  let (letters, s) := s.readLetters
  (String.ofList (s.flagsAmong letters) ++ stateLetters, s)

/-- Saves the flags, by the cached letters if there are any. -/
def readSavedFlags (s : Options σ) : SavedFlags × Options σ :=
  let (letters, s) := s.readLetters
  (s.valuesOf letters, s)

end Options

namespace Assign

variable {σ : Type} (set : Assign σ)

/-- Turns a flag on or off; the value that it had before. -/
def switchFlag (letter : Char) (on : Bool) : Update σ (Except Outcome Int32) := do
  let s ← get
  match s.registry.findLetter? letter with
  | none => return .error .notFound
  | some d =>
    let outcome ← set d .flag (switchValue on)
    return if outcome.isAccepted then .ok ((s.get d .flag).getD 0) else .error outcome

def turnFlag (letter sign : Char) : Update σ (Except Outcome Int32) :=
  match Flag.ofSign? sign with
  | some on => set.switchFlag letter on
  | none => return .error .badValue

/-- Puts one flag back; whether that changed it. -/
def reinstateFlag (letter : Char) (value : Int32) : Update σ Bool := do
  let s ← get
  match s.registry.findLetter? letter with
  | none => return false
  | some d =>
    if s.get d .scopeEnd = some value then return false
    let outcome ← set d .scopeEnd value
    return outcome = .ok

/-- Puts saved flags back, with the rights of an ending scope; the number of flags that changed. Flags that were
added since then keep their value. -/
def reinstateFlags (saved : SavedFlags) : Update σ Nat :=
  saved.values.foldlM (fun count flag => return if ← set.reinstateFlag flag.1 flag.2 then count + 1 else count) 0

end Assign

end OptionShell
