import OptionShell.Prime.Extension
import OptionShell.Proofs.Prime.Division
import OptionShell.Proofs.Text.Numeral
import OptionShell.Proofs.Variables

/-!
# The command `is_prime`

What `is_prime -s` and `is_prime -d` do to a workspace in which the two variables of the extension can be assigned.
-/
namespace OptionShell

variable {α β γ : Type} {w mid : Workspace α}

theorem Action.run_bind_of_ok {action : Action α β} {next : β → Action α γ} {answer : β}
    (h : action.run w = some (.ok answer, mid)) : (action >>= next).run w = (next answer).run mid := by
  change (action.run w).bind _ = _
  rw [h]
  rfl

namespace Prime

variable {cells : Cells} {name : String} {n : Int64}

theorem assign_candidate {vars : Variables} (h : vars.OnlyRosters) (value : String) :
    vars.assign candidateName value = .ok (vars.bind candidateName value) :=
  h.assign_eq_ok (by decide) (fun roster => by cases roster <;> decide) value

theorem assign_divisor {vars : Variables} (h : vars.OnlyRosters) (value : String) :
    vars.assign divisorName value = .ok (vars.bind divisorName value) :=
  h.assign_eq_ok (by decide) (fun roster => by cases roster <;> decide) value

/-! ## Single steps -/

def setVars (vars : Variables) (w : Workspace α) : Workspace α := w.mapHost fun host => { host with vars }

def setState (s : State) (w : Workspace α) : Workspace α := w.mapHost fun host => { host with prime := s }

theorem run_showIn {vars : Variables} (hAssign : w.vars.assign name (toString n) = .ok vars) :
    (showIn name n : Action α Unit).run w = some (.ok (), setVars vars w) := by
  rw [showIn, Action.run_editVars, hAssign]
  rfl

theorem run_editState (f : State → State) :
    (editState f : Action α Unit).run w = some (.ok (), setState (f w.options.host.prime) w) := rfl

theorem run_state : (state : Action α State).run w = some (.ok w.options.host.prime, w) := rfl

/-- Options `-q` are taken first. -/
theorem run_quiets (cells : Cells) (quiet : Bool) {quiets : List String} (hQuiets : ∀ word ∈ quiets, word = "-q")
    (args : List String) :
    (run cells quiet (quiets ++ args) : Action α Output) = run cells (quiet || !quiets.isEmpty) args := by
  induction quiets generalizing quiet with
  | nil => rw [List.nil_append, List.isEmpty_nil, Bool.not_true, Bool.or_false]
  | cons word quiets ih =>
    obtain ⟨rfl, hRest⟩ := List.forall_mem_cons.mp hQuiets
    rw [List.cons_append, run, if_pos rfl, ih true hRest, List.isEmpty_cons, Bool.not_false, Bool.or_true, Bool.true_or]

/-! ## Whole calls -/

/-- The workspace after `is_prime -s n`. -/
def considering (n : Int64) (w : Workspace α) : Workspace α :=
  setVars (w.vars.bind candidateName (toString n)) (setState (w.options.host.prime.consider n) w)

/-- What `is_prime -d` reports, and the state after it. -/
def division (cells : Cells) (w : Workspace α) : Int64 × State :=
  w.options.host.prime.divide (cells.auto w.options.storage) (cells.verbose w.options.storage)

/-- The workspace after `is_prime -d`. -/
def divided (cells : Cells) (w : Workspace α) : Workspace α :=
  let (divisor, reduced) := division cells w
  setState reduced.handOverTrials.2
    (setVars ((w.vars.bind candidateName (toString reduced.candidate)).bind divisorName (toString divisor)) w)

/-- The output of `is_prime -d`: the trials of the search, if it was reported, and then the divisor. -/
def divisionText (cells : Cells) (w : Workspace α) : String :=
  Text.joinLines ((division cells w).2.trials ++ [toString (division cells w).1])

theorem run_consider_of_int64? (h : w.vars.OnlyRosters) {arg : String} (hNumber : Text.int64? arg.toList = some n) :
    (consider (some arg) : Action α Output).run w = some (.ok .silent, considering n w) := by
  have hShown := run_showIn (w := setState (w.options.host.prime.consider n) w) (assign_candidate h (toString n))
  rw [consider, Option.bind_some, hNumber]
  dsimp only
  rw [Action.run_bind_of_ok (run_editState _), Action.run_bind_of_ok hShown]
  rfl

theorem run_consider (h : w.vars.OnlyRosters) (n : Int64) :
    ((command cells).run ["-s", toString n]).run w = some (.ok .silent, considering n w) :=
  run_consider_of_int64? h (Text.int64?_toString n)

theorem run_reportDivisor (h : w.vars.OnlyRosters) :
    ((command cells).run ["-d"]).run w = some (.ok (.text (divisionText cells w)), divided cells w) := by
  change (reportDivisor cells : Action α Output).run w = _
  have hGet : (get : Action α (Workspace α)).run w = some (.ok w, w) := rfl
  have hFirst := assign_candidate h (toString (division cells w).2.candidate)
  have hSecond := assign_divisor (h.edit (.assign _ _ _ hFirst)) (toString (division cells w).1)
  have hShown := run_showIn (w := setState (division cells w).2 w) hFirst
  rw [reportDivisor, Action.run_bind_of_ok hGet, Action.run_bind_of_ok run_state]
  refine (Action.run_bind_of_ok (run_editState _)).trans ((Action.run_bind_of_ok hShown).trans ?_)
  exact Action.run_bind_of_ok (run_showIn hSecond)

theorem vars_divided (cells : Cells) (w : Workspace α) : (divided cells w).vars =
    (w.vars.bind candidateName (toString (division cells w).2.candidate)).bind divisorName
      (toString (division cells w).1) := rfl

theorem onlyRosters_divided (h : w.vars.OnlyRosters) : (divided cells w).vars.OnlyRosters := by
  have hEdited := h.edit (.assign _ _ _ (assign_candidate h (toString (division cells w).2.candidate)))
  exact hEdited.edit (.assign _ _ _ (assign_divisor hEdited (toString (division cells w).1)))

end Prime

end OptionShell
