import OptionShell.Error
import OptionShell.Options.Change

/-!
# The standard options

Every shell has these options. Those of `set` have a letter and are listed in `SHELLOPTS`; those of `shopt` are listed
in `BASHOPTS`. `privileged` can be turned on only at the start, and `login_shell` tells how the shell was started.
-/
namespace OptionShell

/-- One set of standard options. Its identities and cells are numbered from `first` on. -/
structure StandardOptions where
  first : Nat := 0
deriving DecidableEq, Repr

namespace StandardOptions

variable {σ : Type}

def flagOption (number : Nat) (name : String) (letter : Char) (help : String) : Definition σ where
  id := number
  name? := name
  letter? := letter
  cell? := number
  initial? := some 0
  help? := help
  inShellopts := true
  hiddenFromShopt := true

def shoptOption (number : Nat) (name : String) (help : String) : Definition σ where
  id := number
  name? := name
  cell? := number
  initial? := some 0
  help? := help
  inBashopts := true
  hiddenFromSet := true

/-- Turning it off is always possible; turning it on only at the start or when a saved value is put back. -/
def privilegedSetter (cell : CellId) : Setter σ := fun why value => do
  let old ← Script.load cell
  if old = value then return .unchanged
  if value ≠ 0 && !why.isStartup && !why.isPrivileged then return .forbidden
  Script.store cell value
  return .ok

def privileged (number : Nat) : Definition σ where
  id := number
  name? := "privileged"
  letter? := 'p'
  cell? := number
  setter? := some (privilegedSetter number)
  initial? := some 0
  help? := "Turned on at startup only. Turning it off drops elevated\nprivileges and cannot be undone."
  fixedAfterStart := true
  resetsCell := true
  inShellopts := true
  hiddenFromShopt := true

def loginGetter (cell : CellId) : Getter σ where
  value _ storage _ := switchValue (storage.read cell ≠ 0)

def loginShell (number : Nat) : Definition σ where
  id := number
  name? := "login_shell"
  getter? := some (loginGetter number)
  help? := "Set when the interpreter was started as a login shell."
  readonly := true
  inBashopts := true
  hiddenFromSet := true

/-- The options of `set` without rules of their own: name, letter and description. -/
def flags : List (String × Char × String) :=
  [("allexport", 'a', "Mark variables that are assigned for export."),
    ("errexit", 'e', "Stop a command list as soon as a command fails."),
    ("noglob", 'f', "Disable pathname expansion."),
    ("noexec", 'n', "Read commands but do not execute them."),
    ("nounset", 'u', "Treat expansion of unset variables as an error."),
    ("verbose", 'v', "Print input lines as they are read."),
    ("xtrace", 'x', "Print commands and their arguments as they are executed."),
    ("noclobber", 'C', "If set, prevent existing regular files from being truncated or\n" ++
      "overwritten by redirected output."),
    ("errtrace", 'E', "Shell functions inherit the ERR trap."),
    ("physical", 'P', "Do not resolve symbolic links when changing directory."),
    ("functrace", 'T', "Shell functions inherit the DEBUG and RETURN traps.")]

/-- The options of `shopt` without rules of their own: name and description. -/
def shoptFlags : List (String × String) :=
  [("dotglob", "Include names beginning with `.' in pathname expansion."),
    ("extglob", "Enable extended pattern matching operators."),
    ("globstar", "Let `**' match all files and zero or more directories."),
    ("nullglob", "Patterns matching nothing expand to nothing.")]

/-- How many identities and cells one set takes. -/
def size : Nat := 17

/-- The cell that tells whether this is a login shell. -/
def loginCell (standard : StandardOptions) : CellId := standard.first + 16

/-- The definitions, in the order in which they are added. -/
def definitions (standard : StandardOptions) : List (Definition σ) :=
  flags.mapIdx (fun i flag => flagOption (standard.first + i) flag.1 flag.2.1 flag.2.2) ++
    [privileged (standard.first + 11)] ++
    shoptFlags.mapIdx (fun i flag => shoptOption (standard.first + 12 + i) flag.1 flag.2) ++
    [loginShell standard.loginCell]

/-- The storage of one of the options, for code that tests it directly. -/
def cell? (standard : StandardOptions) (name : String) : Option CellId :=
  ((standard.definitions : List (Definition Unit)).find? fun d => d.name? = some name).bind (·.cell?)

/-- Adds definitions in order, up to the first that is refused. -/
def addAll : List (Definition σ) → Options σ → Except ShellError Unit × Options σ
  | [], s => (.ok (), s)
  | d :: rest, s =>
    let (outcome, s) := s.add d
    if outcome.isAccepted then addAll rest s
    else (.error (.option (d.label ++ ": " ++ outcome.describe) outcome.exitStatus), s)

def addTo (standard : StandardOptions) (s : Options σ) : Except ShellError Unit × Options σ :=
  addAll standard.definitions s

def markLogin (standard : StandardOptions) (login : Bool) (s : Options σ) : Options σ :=
  s.writeCell standard.loginCell (switchValue login)

end StandardOptions

end OptionShell
