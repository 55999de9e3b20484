/-!
# The variables of the host

The options keep two variables of the host up to date and read them at the start. This is all that they ask of it.
-/
namespace OptionShell

inductive Shape where
  | scalar
  | indexed
  | assoc
deriving DecidableEq, Repr

structure Binding where
  value : String
  /-- Came from the environment of the process. -/
  imported : Bool
  shape : Shape
deriving DecidableEq, Repr

/-- Host states that hold variables. -/
class HostVariables (σ : Type) where
  lookup : σ → String → Option Binding
  /-- Gives a variable a value even if it is read-only. -/
  bind : String → String → σ → σ
  protect : String → σ → σ

/-- Variables that keep what was bound last, and nothing else of a binding or protection shows. -/
class LawfulHostVariables (σ : Type) [HostVariables σ] : Prop where
  value_bind : ∀ name value (host : σ),
    (HostVariables.lookup (HostVariables.bind name value host) name).map (·.value) = some value
  lookup_bind_of_ne : ∀ {name other : String} value (host : σ), other ≠ name →
    HostVariables.lookup (HostVariables.bind name value host) other = HostVariables.lookup host other
  lookup_protect : ∀ name other (host : σ),
    HostVariables.lookup (HostVariables.protect name host) other = HostVariables.lookup host other

end OptionShell
