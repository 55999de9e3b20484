import OptionShell.Proofs.Interpreter.Scopes
import OptionShell.Proofs.Shell.Commands

/-!
# What lines do

Whatever commands and scopes keep to holds along lines, at whatever depth the scopes nest. In particular a line is a
chain of moves. Scopes open and close in pairs around the line inside, so the frames that a line finds are those that
it leaves, except that the innermost may save its flags.
-/
namespace OptionShell

namespace Shell

open Relation Execution Interpreter

variable {s : Session Unit} {α : Type}

theorem leads_outcome {R : Session Unit → Session Unit → Prop} {execution : Execution Unit α}
    (h : Leads R execution.run s) : Leads R (outcome execution).run s := by
  intro result after hRun
  obtain ⟨⟨answer, mid⟩, hExecution, hSame⟩ := Option.bind_eq_some_iff.mp hRun
  cases hSame
  exact h answer after hExecution

/-! ## What holds along lines -/

/-- What relates sessions along every line if it is reflexive and transitive: commands and scopes keep to it, and
notes do not matter to it. -/
structure LineRules (R : Session Unit → Session Unit → Prop) : Prop where
  command (name : String) (args : List String) (command : Command Unit) (s : Session Unit)
    (hFound : interpreter.findCommand? s.loaded name = some command) : Leads R (act (command.run args)).run s
  scope (runLine : String → Execution Unit Output) (hLine : ∀ line s, Leads R (runLine line).run s)
    (args : List String) (s : Session Unit) : Leads R (runScope runLine args).run s
  aside (s : Session Unit) (diagnostics : List String) (exit? : Option Int32) (lastStatus : Int32) :
    R s { s with diagnostics, exit?, lastStatus }

namespace LineRules

variable {R : Session Unit → Session Unit → Prop}

theorem leads_diagnose (h : LineRules R) (line : String) (s : Session Unit) :
    Leads R (act (Action.diagnose line)).run s := by
  intro _ _ hRun
  cases hRun
  exact h.aside s _ s.exit? s.lastStatus

variable [Std.Refl R] [IsTrans (Session Unit) R]

theorem leads_runWords (h : LineRules R) {runLine : String → Execution Unit Output}
    (hLine : ∀ line s, Leads R (runLine line).run s) (words : List String) :
    Leads R (runWords interpreter runLine words).run s := by
  cases words with
  | nil => exact .ok _
  | cons name args =>
    apply Leads.get_andThen
    extract_lets options dispatch
    have hDispatch : ∀ mid, Leads R (dispatch ()).run mid := by
      intro mid
      dsimp only [dispatch]
      split
      · exact .ok _
      · split
        · exact .ofExcept _
        · split
          · exact h.scope runLine hLine args mid
          · apply Leads.get_andThen
            split
            · rename_i command hFound
              exact h.command name args command mid hFound
            · exact .throw _
    split
    · exact .andThen (h.leads_diagnose _ s) fun _ mid _ => hDispatch mid
    · exact hDispatch s

theorem leads_runSegment (h : LineRules R) {runLine : String → Execution Unit Output}
    (hLine : ∀ line s, Leads R (runLine line).run s) (command : List Char) (s : Session Unit) :
    Leads R (interpreter.runSegment runLine command).run s := by
  apply Leads.get_andThen
  split
  · exact h.leads_runWords hLine _
  · exact .throw _

theorem leads_stopOnFailure (h : LineRules R) (status : Int32) (guarded : Bool) :
    Leads R (stopOnFailure status guarded : Execution Unit Bool).run s := by
  apply Leads.get_andThen
  split
  · exact .ok _
  · exact .andThen (.alter (h.aside s s.diagnostics (some status) s.lastStatus)) fun _ mid _ => .ok _

theorem leads_runRecorded (h : LineRules R) {run : List Char → Execution Unit Output}
    (hRun : ∀ command s, Leads R (run command).run s) (command : List Char) :
    Leads R (runRecorded run command).run s := by
  refine .andThen (leads_outcome (hRun command s)) fun result mid _ => ?_
  exact .andThen (.alter (h.aside mid mid.diagnostics mid.exit? _)) fun _ last _ => .ok _

theorem leads_runSegments (h : LineRules R) {run : List Char → Execution Unit Output}
    (hRun : ∀ command s, Leads R (run command).run s) (segments : List Line.Segment) (s : Session Unit) :
    Leads R (runSegments run segments).run s := by
  induction segments generalizing s with
  | nil => exact .ok _
  | cons segment rest ih =>
    apply Leads.get_andThen
    split
    · exact ih s
    · refine .andThen (h.leads_runRecorded hRun _) fun result mid _ => ?_
      refine .andThen (h.leads_stopOnFailure _ _) fun stopped mid _ => ?_
      split
      · exact .ok _
      · apply Leads.get_andThen
        split
        · exact .ok _
        · exact .andThen (ih mid) fun texts last _ => .ok _

theorem leads_runChain (h : LineRules R) {run : List Char → Execution Unit Output}
    (hRun : ∀ command s, Leads R (run command).run s) (line : String) (s : Session Unit) :
    Leads R (runChain run line).run s := by
  rw [runChain]
  split
  · exact .ok _
  · split
    · exact .throw _
    · refine .andThen (h.leads_runRecorded hRun _) fun result mid _ => ?_
      exact .andThen (h.leads_stopOnFailure _ _) fun stopped last _ => .ofExcept result
    · refine .andThen (h.leads_runSegments hRun _ s) fun texts mid _ => ?_
      exact .get_andThen (.ok _)

theorem leads_execute (h : LineRules R) (depth : Nat) (line : String) (s : Session Unit) :
    Leads R (interpreter.execute depth line).run s := by
  induction depth generalizing line s with
  | zero => exact .none rfl
  | succ depth ih => exact h.leads_runChain (h.leads_runSegment ih) line s

end LineRules

/-! ## Moves -/

/-- Chains of moves of the workspace in a session. -/
def SessionMoves (s after : Session Unit) : Prop := BalancedMoves s.toWorkspace after.toWorkspace

instance : Std.Refl SessionMoves := ⟨fun _ => .refl⟩

instance : IsTrans (Session Unit) SessionMoves where
  trans _ _ _ hFirst hSecond := IsTrans.trans (r := BalancedMoves) _ _ _ hFirst hSecond

theorem leads_act {action : Action Unit α} (h : Leads BalancedMoves action.run s.toWorkspace) :
    Leads SessionMoves (act action).run s := by
  intro result after hRun
  obtain ⟨⟨answer, work⟩, hAction, hSame⟩ := Option.bind_eq_some_iff.mp hRun
  cases hSame
  exact h result work hAction

/-- The end of a scope is one move, which leaves the frames that were open before. -/
theorem closes_scope {outer : List (Option SavedFlags)} (hFrames : FramesKept (none :: outer) s.scopes)
    {result : Except ShellError Unit} {after : Session Unit}
    (hRun : (closeScope : Execution Unit Unit).run s = some (result, after)) :
    result = .ok () ∧ Move s.toWorkspace after.toWorkspace ∧ after.scopes = outer := by
  obtain hNone | ⟨saved, rest, hOuter, hSome⟩ := hFrames
  · rw [run_closeScope_of_none hNone] at hRun
    cases hRun
    exact ⟨rfl, .closeScope outer hNone, rfl⟩
  · cases hOuter
    rw [run_closeScope_of_some hSome] at hRun
    obtain ⟨⟨count, options⟩, hReinstate, hSame⟩ := Option.map_eq_some_iff.mp hRun
    cases hSame
    exact ⟨rfl, .restoreFlags saved outer count options hSome hReinstate, rfl⟩

theorem leads_runScope {runLine : String → Execution Unit Output}
    (hLine : ∀ line s, Leads SessionMoves (runLine line).run s) (args : List String) :
    Leads SessionMoves (runScope runLine args).run s := by
  intro result after hRun
  cases args with
  | nil =>
    cases hRun
    exact .refl
  | cons arg rest =>
    rw [run_runScope runLine (List.cons_ne_nil arg rest)] at hRun
    obtain ⟨⟨output, mid⟩, hInner, hRest⟩ := Option.bind_eq_some_iff.mp hRun
    obtain ⟨⟨_, closed⟩, hClose, hSame⟩ := Option.map_eq_some_iff.mp hRest
    have hBody : BalancedMoves _ mid.toWorkspace := hLine _ _ output mid hInner
    obtain ⟨rfl, hMove, hScopes⟩ := closes_scope hBody.frames hClose
    cases hSame
    exact ⟨.head .openScope (hBody.moves.tail hMove), .inl hScopes⟩

theorem lineRules_moves : LineRules SessionMoves where
  command _ args _ _ hFound := leads_act (leads_command hFound args)
  scope _ hLine args _ := leads_runScope hLine args
  aside s diagnostics exit? _ := BalancedMoves.single (w := s.toWorkspace) (.aside diagnostics exit?) rfl

/-- Lines make moves at every depth. -/
theorem leads_execute (depth : Nat) (line : String) (s : Session Unit) :
    Leads SessionMoves (interpreter.execute depth line).run s :=
  lineRules_moves.leads_execute depth line s

/-! ## Lines of input -/

/-- The shell after lines of input. -/
def submitLines (shell : Shell) : List String → Option Shell
  | [] => some shell
  | line :: rest => (shell.submit line).bind fun ran => ran.2.submitLines rest

variable {shell last : Shell}

theorem moves_submit {line : String} {result : LineResult} (h : shell.submit line = some (result, last)) :
    Moves (shell.freshLine line).toWorkspace last.session.toWorkspace := by
  obtain ⟨⟨output, session⟩, hRun, hSame⟩ := Option.bind_eq_some_iff.mp h
  cases hSame
  exact (leads_execute scopeDepth line _ output session hRun).moves

theorem sound_of_submitLines {lines : List String} (h : shell.submitLines lines = some last)
    (hSound : Sound shell.options) : Sound last.options := by
  induction lines generalizing shell with
  | nil =>
    cases h
    exact hSound
  | cons line rest ih =>
    obtain ⟨⟨result, mid⟩, hSubmit, hRest⟩ := Option.bind_eq_some_iff.mp h
    exact ih hRest (sound_of_moves (moves_submit hSubmit) hSound)

end Shell

end OptionShell
