/-!
# Access contexts

Every read or write of an option says why it happens. The reason decides which rules of the change policy apply and
which options a listing shows.
-/
namespace OptionShell

/-- Why an option is read or written. -/
inductive Access where
  | any
  /-- A letter after `set -` or `set +`. -/
  | flag
  /-- A name after `set -o` or `set +o`. -/
  | setO
  | shopt
  | arguments
  | environment
  /-- The end of a scope that had saved its flags. -/
  | scopeEnd
  /-- A return of all options to their initial values. -/
  | restart
  | unload
  /-- Selection of the options listed in `SHELLOPTS`. -/
  | shellopts
  /-- Selection of the options listed in `BASHOPTS`. -/
  | bashopts
deriving DecidableEq, Repr

namespace Access

/-- Contexts of the shell's start, which may change options that are fixed later. -/
def isStartup : Access → Bool
  | arguments | environment | restart => true
  | _ => false

/-- Contexts that put saved or default values back. -/
def isPrivileged : Access → Bool
  | scopeEnd | unload => true
  | _ => false

end Access

end OptionShell
