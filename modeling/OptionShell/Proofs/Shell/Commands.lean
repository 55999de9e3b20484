import OptionShell.Proofs.Interpreter.Composition
import OptionShell.Proofs.Shell.Moves

/-!
# What commands do

Every command that a shell can find, its own or one of the extension, is a chain of moves whatever its arguments are
and whether it succeeds or fails. It opens and closes no scope.
-/
namespace OptionShell

namespace Shell

open Relation

variable {w : Workspace Unit}

theorem leads_unloadAll : Leads BalancedMoves catalog.unloadAll.run w := leads_of_effects Builtin.leads_unloadAll

/-! ## The command of the extension -/

theorem leads_editState (f : Prime.State → Prime.State) :
    Leads BalancedMoves (Prime.editState f : Action Unit Unit).run w :=
  .alter (.single (.prime f) rfl)

theorem leads_showIn (name : String) (n : Int64) : Leads BalancedMoves (Prime.showIn name n : Action Unit Unit).run w :=
  leads_of_effects (Action.leads_assign name (toString n))

theorem leads_consider (arg? : Option String) :
    Leads BalancedMoves (Prime.consider arg? : Action Unit Output).run w := by
  rw [Prime.consider]
  split
  · exact .throw _
  · refine .andThen (leads_editState _) fun _ mid _ => ?_
    exact .andThen (leads_showIn _ _) fun _ last _ => .ok _

theorem leads_reportDivisor (cells : Prime.Cells) :
    Leads BalancedMoves (Prime.reportDivisor cells : Action Unit Output).run w := by
  apply Leads.get_andThen
  apply Leads.get_andThen
  refine .andThen (leads_editState _) fun _ mid _ => ?_
  refine .andThen (leads_showIn _ _) fun _ mid _ => ?_
  refine .andThen (leads_showIn _ _) fun _ mid _ => ?_
  apply Leads.get_andThen
  exact .andThen (leads_editState _) fun _ mid _ => .ok _

theorem leads_test (quiet : Bool) (words : List String) :
    Leads BalancedMoves (Prime.test quiet words : Action Unit Output).run w :=
  .get_andThen (.ok _)

theorem leads_prime (cells : Prime.Cells) (quiet : Bool) (args : List String) :
    Leads BalancedMoves (Prime.run cells quiet args : Action Unit Output).run w := by
  fun_induction Prime.run (α := Unit) cells quiet args
  case case1 => exact leads_test _ []
  case case2 => assumption
  case case3 => exact leads_consider _
  case case4 => exact leads_reportDivisor cells
  case case5 => exact leads_test _ _
  case case6 => exact .throw _
  case case7 => exact leads_test _ _

/-! ## All commands -/

theorem leads_builtin {command : Command Unit} (h : command ∈ Builtin.all catalog) (args : List String) :
    Leads BalancedMoves (command.run args).run w := by
  obtain rfl | hEffects := Builtin.eq_exit_or_leads h
  · intro result after hRun
    obtain ⟨exit?, rfl⟩ := Builtin.exists_exit_of_run hRun
    exact .single (.aside w.diagnostics exit?) rfl
  · exact leads_of_effects (hEffects args w)

/-- A name stands for a builtin, or for the command of the extension while that is loaded. -/
theorem mem_or_eq_of_findCommand? {loaded : List String} {name : String} {command : Command Unit}
    (hFound : interpreter.findCommand? loaded name = some command) :
    command ∈ Builtin.all catalog ∨ "prime" ∈ loaded ∧ command = Prime.command primeCells := by
  obtain hOwn | ⟨-, hLoaded⟩ := Option.or_eq_some_iff.mp hFound
  · obtain ⟨hMem, -⟩ | hEmpty := CommandTable.mem_of_find?_addAll hOwn
    · exact .inl hMem
    · cases hEmpty
  · obtain ⟨extName, hMem, hCommand⟩ := List.mem_flatMap.mp (List.mem_of_find?_eq_some hLoaded)
    cases hExt : catalog.find? extName with
    | none =>
      rw [interpreter, hExt] at hCommand
      cases hCommand
    | some ext =>
      rw [interpreter, hExt, eq_of_find?_catalog hExt] at hCommand
      exact .inr ⟨name_eq_of_find?_catalog hExt ▸ hMem, List.mem_singleton.mp hCommand⟩

/-- Whatever command a name stands for, running it is a chain of moves. -/
theorem leads_command {loaded : List String} {name : String} {command : Command Unit}
    (hFound : interpreter.findCommand? loaded name = some command) (args : List String) :
    Leads BalancedMoves (command.run args).run w := by
  obtain hMem | ⟨-, rfl⟩ := mem_or_eq_of_findCommand? hFound
  · exact leads_builtin hMem args
  · exact leads_prime primeCells false args

theorem composed_command {Known : Options (Host Unit) → Prop} {Fits : (β : Type) → Update (Host Unit) β → Prop}
    (h : catalog.Suits Known Fits) {loaded : List String} {name : String} {command : Command Unit}
    (hFound : interpreter.findCommand? loaded name = some command) (args : List String) :
    Action.Composed Known Fits (command.run args) := by
  obtain hMem | ⟨-, rfl⟩ := mem_or_eq_of_findCommand? hFound
  · exact Builtin.composed_of_mem h hMem args
  · exact Prime.composed_run h primeCells false args

end Shell

end OptionShell
