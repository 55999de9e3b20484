import OptionShell.Prime.Extension
import OptionShell.Proofs.Interpreter.Effects

/-!
# What commands are made of

The actions of commands are made of few kinds of steps: answers, errors, looks at the workspace, changes of the
options and edits of what stands around them. What holds of these steps and goes through sequences of them holds of
all commands. No step looks at the diagnostics that were reported before.
-/
namespace OptionShell

/-- The workspace with diagnostics in front of its own. -/
def Workspace.preceded {α : Type} (earlier : List String) (work : Workspace α) : Workspace α :=
  { work with diagnostics := earlier ++ work.diagnostics }

variable {α β γ : Type} {Known : Options (Host α) → Prop} {Fits : (β : Type) → Update (Host α) β → Prop}
  {catalog : Catalog α}

/-- An action that is made of such steps. The options are `Known` wherever it looks at them, and each of its changes
`Fits`. -/
inductive Action.Composed (Known : Options (Host α) → Prop) (Fits : (β : Type) → Update (Host α) β → Prop) :
    {β : Type} → Action α β → Prop where
  | ok {β : Type} (answer : β) : Composed Known Fits (pure answer : Action α β)
  | throw {β : Type} (error : ShellError) : Composed Known Fits (throw error : Action α β)
  | andThen {β γ : Type} {action : Action α β} {next : β → Action α γ} (h : Composed Known Fits action)
      (hNext : ∀ answer, Composed Known Fits (next answer)) : Composed Known Fits (action >>= next)
  | look {β : Type} {next : Workspace α → Action α β} (hBlind : ∀ earlier w, next (w.preceded earlier) = next w)
      (hNext : ∀ w, Known w.options → Composed Known Fits (next w)) : Composed Known Fits (get >>= next)
  | alter (g : Workspace α → Workspace α) (hBlind : ∀ earlier w, g (w.preceded earlier) = (g w).preceded earlier)
      (hKnown : ∀ w, Known w.options → Known (g w).options) : Composed Known Fits (modify g : Action α PUnit)
  | update {β : Type} {change : Update (Host α) β} (hFits : Fits β change) :
      Composed Known Fits (Action.update change)
  | editVars (edit : Variables → Except VariableError Variables)
      (hKnown : ∀ s vars, Known s → Known (s.mapHost fun host => { host with vars })) :
      Composed Known Fits (Action.editVars edit)
  | tryCatch {β : Type} {action : Action α β} {handler : ShellError → Action α β} (h : Composed Known Fits action)
      (hHandler : ∀ error, Composed Known Fits (handler error)) : Composed Known Fits (tryCatch action handler)

namespace Action.Composed

theorem stop (error : ShellError) (next : β → Action α γ) :
    Composed Known Fits ((MonadExcept.throw error : Action α β) >>= next) :=
  show Composed Known Fits (MonadExcept.throw error : Action α γ) from .throw error

theorem ofExcept (result : Except ShellError β) : Composed Known Fits (ofExcept result : Action α β) := by
  cases result with
  | ok answer => exact .ok answer
  | error error => exact .throw error

theorem attempt {change : Update (Host α) (Except ShellError β)} (hFits : Fits _ change) :
    Composed Known Fits (Action.attempt change) :=
  .andThen (.update hFits) fun result => by
    cases result with
    | ok answer => exact .ok answer
    | error error => exact .throw error

theorem each {items : List β} {action : β → Action α PUnit} (h : ∀ item, Composed Known Fits (action item)) :
    Composed Known Fits (items.forM action) := by
  induction items with
  | nil => exact .ok _
  | cons item rest ih => exact .andThen (h item) fun _ => ih

theorem collect {items : List β} {action : β → Action α γ} (h : ∀ item, Composed Known Fits (action item)) :
    Composed Known Fits (items.mapM action) := by
  induction items with
  | nil => exact .ok _
  | cons item rest ih =>
    rw [List.mapM_cons]
    exact .andThen (h item) fun _ => .andThen ih fun _ => .ok _

theorem diagnose (line : String) : Composed Known Fits (Action.diagnose line : Action α Unit) :=
  .alter _ (fun _ w => congrArg (fun diagnostics => { w with diagnostics }) (List.append_assoc _ _ _)) fun _ => id

end Action.Composed

/-- The changes that commands make fit, with an extension of the catalog coming or going among them, and what is known
of the options does not depend on the host. -/
structure Catalog.Suits (catalog : Catalog α) (Known : Options (Host α) → Prop)
    (Fits : (β : Type) → Update (Host α) β → Prop) : Prop where
  host (s : Options (Host α)) (f : Host α → Host α) (h : Known s) : Known (s.mapHost f)
  read (β : Type) (reading : Reading (Host α) β) (h : ∀ s, ∃ host, (reading s).2 = { s with host }) :
    Fits β fun s => some (reading s)
  set (s : Options (Host α)) (d : Definition (Host α)) (why : Access) (value : Int32) (h : Known s)
    (hFound : s.registry.Finds d) : Fits Outcome (Update.set d why value)
  switchFlag (letter : Char) (on : Bool) : Fits (Except Outcome Int32) (Update.switchFlag letter on)
  enter (name : String) (ext : Extension α) (hFound : catalog.find? name = some ext) :
    Fits (Except ShellError Unit) ext.enter
  leave (name : String) (ext : Extension α) (hFound : catalog.find? name = some ext) : Fits Unit ext.leave

/-! ## Builtins -/

namespace Builtin

open OptionShell.Action

section Steps

variable (h : catalog.Suits Known Fits)

include h

theorem composed_editVars (edit : Variables → Except VariableError Variables) :
    Composed Known Fits (editVars edit : Action α Unit) :=
  .editVars edit fun s _ => h.host s _

theorem composed_readOne (d : Definition (Host α)) (why : Access) (answer : Options (Host α) → β) :
    Composed Known Fits (read fun s => (answer s, s.noted d why)) :=
  .update (h.read _ _ fun s => Options.exists_noted d why s)

theorem composed_readListing (why : Access) (mask : UInt64) (style : Style) :
    Composed Known Fits (read (Reading.listing why mask style)) := by
  refine .update (h.read _ _ fun s => ?_)
  change ∃ host, (s.listable why style).foldl (fun s d => s.noted d why) s = { s with host }
  generalize s.listable why style = defs
  induction defs generalizing s with
  | nil => exact ⟨s.host, rfl⟩
  | cons d rest ih =>
    obtain ⟨host, hFirst⟩ := Options.exists_noted d why s
    obtain ⟨last, hRest⟩ := ih (s.noted d why)
    rw [List.foldl_cons, hRest, hFirst]
    exact ⟨last, rfl⟩

theorem composed_turnNamed (name : String) (on : Bool) : Composed Known Fits (turnNamed name on : Action α Unit) := by
  refine .look (fun _ _ => rfl) fun w hKnown => ?_
  split
  · exact .throw _
  · rename_i d hFound
    refine .andThen (.update (h.set _ d _ _ hKnown (.inl ⟨name, hFound⟩))) fun outcome => ?_
    split
    · exact .throw _
    · exact .ok _

theorem composed_turnLetters (on : Bool) (letters : List Char) :
    Composed Known Fits (turnLetters on letters : Action α Unit) := by
  refine .each fun letter => .andThen (.update (h.switchFlag letter on)) fun result => ?_
  split
  · exact .ok _
  · exact .throw _

theorem composed_assignArg (arg : String) : Composed Known Fits (assignArg arg : Action α Unit) := by
  rw [assignArg]
  split
  · exact .throw _
  · refine .andThen (composed_editVars h _) fun _ => .look (fun _ _ => rfl) fun w _ => ?_
    split
    · exact composed_editVars h _
    · exact .ok _

theorem composed_setArg (arg : String) : Composed Known Fits (setArg arg : Action α Unit) := by
  rw [setArg]
  split
  · split
    · exact composed_turnLetters h _ _
    · exact composed_assignArg h arg
  · exact composed_assignArg h arg

theorem composed_optionListing (on : Bool) : Composed Known Fits (optionListing on : Action α String) :=
  composed_readListing h _ _ _

theorem composed_setArgs (args : List String) : Composed Known Fits (setArgs args : Action α (List String)) := by
  fun_induction setArgs (α := α) args
  case case1 => exact .ok _
  case case2 rest => exact .andThen (.each fun arg => composed_assignArg h arg) fun _ => .ok _
  case case3 rest hDashes ih => exact ih
  case case4 arg hDashes hDash hListing => exact .andThen (composed_optionListing h _) fun _ => .ok _
  case case5 arg hDashes hDash hListing name others hSign ih =>
    exact .andThen (composed_optionListing h _) fun _ => .andThen ih fun _ => .ok _
  case case6 arg hDashes hDash hListing name others hSign ih => exact .andThen (composed_turnNamed h name _) fun _ => ih
  case case7 arg rest hDashes hDash hListing ih => exact .andThen (composed_setArg h arg) fun _ => ih

theorem composed_set (args : List String) : Composed Known Fits (set.run args : Action α Output) := by
  dsimp only [set]
  split
  · exact .look (fun _ _ => rfl) fun _ _ => .ok _
  · exact .andThen (composed_setArgs h args) fun _ => .ok _

theorem composed_shoptName (mode : ShoptMode) (status : Int32) (name : String) :
    Composed Known Fits (shoptName mode status name : Action α (Int32 × List String)) := by
  refine .look (fun _ _ => rfl) fun w hKnown => ?_
  split
  · exact .andThen (.diagnose _) fun _ => .ok _
  · rename_i d hFound
    split
    · refine .andThen (.update (h.set _ d _ _ hKnown (.inl ⟨name, hFound⟩))) fun outcome => ?_
      split
      · exact .ok _
      · exact .andThen (.diagnose _) fun _ => .ok _
    · extract_lets showNow
      have hShow : ∀ status, Composed Known Fits (showNow status) := by
        intro status
        dsimp only [showNow]
        split
        · exact .ok _
        · exact .andThen (composed_readOne h _ _ _) fun _ => .ok _
      split
      · exact hShow status
      · exact .andThen (composed_readOne h _ _ _) fun on => hShow _

theorem composed_shoptNames (mode : ShoptMode) (status : Int32) (names : List String) :
    Composed Known Fits (shoptNames mode status names : Action α (Int32 × List String)) := by
  induction names generalizing status with
  | nil => exact .ok _
  | cons name rest ih =>
    exact .andThen (composed_shoptName h mode status name) fun first => .andThen (ih first.1) fun _ => .ok _

theorem composed_shopt (args : List String) : Composed Known Fits (shopt.run args : Action α Output) := by
  refine .andThen (.ofExcept _) fun parsed => ?_
  obtain ⟨mode, names⟩ := parsed
  dsimp only
  split
  · exact .stop _ _
  · split
    · split
      · exact .ok _
      · exact .andThen (composed_readListing h _ _ _) fun _ => .ok _
    · exact .andThen (composed_shoptNames h mode 0 names) fun _ => .ok _

theorem composed_unsetOne (name : String) : Composed Known Fits (unsetOne name : Action α Bool) := by
  -- The result of the attempt tells whether the variable is gone.
  refine .andThen (.tryCatch (.andThen (composed_editVars h _) fun _ => ?_) fun error => ?_) fun result => ?_
  · exact .ok (Except.error true)
  · exact .andThen (.diagnose _) fun _ => .ok (Except.error false)
  · cases result <;> exact .ok _

theorem composed_load (name : String) : Composed Known Fits (catalog.load name) := by
  rw [Catalog.load]
  split
  · exact .throw _
  · rename_i ext hFound
    refine .look (fun _ _ => rfl) fun w _ => ?_
    split
    · exact .ok _
    · exact .andThen (.attempt (h.enter name ext hFound)) fun _ => .alter _ (fun _ _ => rfl) fun _ => id

theorem composed_unload (name : String) : Composed Known Fits (catalog.unload name) := by
  refine .look (fun _ _ => rfl) fun w _ => ?_
  split
  · refine .andThen (.alter _ (fun _ _ => rfl) fun _ => id) fun _ => ?_
    split
    · rename_i ext hFound
      exact .update (h.leave name ext hFound)
    · exact .ok _
  · exact .throw _

theorem composed_enable (args : List String) : Composed Known Fits ((enable catalog).run args) := by
  dsimp only [enable]
  split
  · exact .look (fun _ _ => rfl) fun _ _ => .ok _
  · exact .andThen (composed_load h _) fun _ => .ok _
  · exact .andThen (composed_unload h _) fun _ => .ok _
  · exact .throw _

end Steps

theorem composed_localFlags (args : List String) : Composed Known Fits (localFlags.run args : Action α Output) := by
  dsimp only [localFlags]
  split
  · exact .stop _ _
  · refine .look (fun _ _ => rfl) fun w _ => ?_
    split
    · exact .throw _
    · exact .andThen (.alter _ (fun _ _ => rfl) fun _ => id) fun _ => .ok _

theorem composed_env (args : List String) : Composed Known Fits (env.run args : Action α Output) := by
  refine .look (fun _ _ => rfl) fun w _ => ?_
  split
  · exact .ok _
  · exact .ok _
  · exact .throw _

theorem composed_exit (args : List String) : Composed Known Fits (exit.run args : Action α Output) := by
  dsimp only [exit]
  split
  · exact .andThen (.ok _) fun _ => .andThen (.alter _ (fun _ _ => rfl) fun _ => id) fun _ => .ok _
  · split
    · exact .andThen (.ok _) fun _ => .andThen (.alter _ (fun _ _ => rfl) fun _ => id) fun _ => .ok _
    · exact .stop _ _

theorem composed_of_mem (h : catalog.Suits Known Fits) {command : Command α} (hMem : command ∈ all catalog)
    (args : List String) : Composed Known Fits (command.run args) := by
  rw [all, optionCommands] at hMem
  obtain rfl | rfl | rfl | rfl | rfl | rfl | rfl | rfl | rfl | rfl : command = echo ∨ command = success ∨
      command = failure ∨ command = env ∨ command = unset ∨ command = enable catalog ∨ command = exit ∨
      command = Builtin.set ∨ command = shopt ∨ command = localFlags := by simpa using hMem
  · exact .ok _
  · exact .ok _
  · exact .ok _
  · exact composed_env args
  · exact .andThen (.collect fun name => composed_unsetOne h name) fun _ => .ok _
  · exact composed_enable h args
  · exact composed_exit args
  · exact composed_set h args
  · exact composed_shopt h args
  · exact composed_localFlags args

end Builtin

/-! ## The command of the extension -/

namespace Prime

open OptionShell.Action

variable (h : catalog.Suits Known Fits)

include h

theorem composed_editState (f : State → State) : Composed Known Fits (editState f : Action α Unit) :=
  .alter _ (fun _ _ => rfl) fun w => h.host w.options fun host => { host with prime := f host.prime }

theorem composed_showIn (name : String) (n : Int64) : Composed Known Fits (showIn name n : Action α Unit) :=
  Builtin.composed_editVars h _

theorem composed_consider (arg? : Option String) : Composed Known Fits (consider arg? : Action α Output) := by
  rw [consider]
  split
  · exact .throw _
  · exact .andThen (composed_editState h _) fun _ => .andThen (composed_showIn h _ _) fun _ => .ok _

theorem composed_reportDivisor (cells : Cells) : Composed Known Fits (reportDivisor cells : Action α Output) := by
  refine .look (fun _ _ => rfl) fun w _ => .look (fun _ _ => rfl) fun other _ => ?_
  refine .andThen (composed_editState h _) fun _ => .andThen (composed_showIn h _ _) fun _ => ?_
  refine .andThen (composed_showIn h _ _) fun _ => .look (fun _ _ => rfl) fun _ _ => ?_
  exact .andThen (composed_editState h _) fun _ => .ok _

omit h in
theorem composed_test (quiet : Bool) (words : List String) :
    Composed Known Fits (test quiet words : Action α Output) :=
  .look (fun _ _ => rfl) fun _ _ => .ok _

theorem composed_run (cells : Cells) (quiet : Bool) (args : List String) :
    Composed Known Fits (run cells quiet args : Action α Output) := by
  fun_induction run (α := α) cells quiet args
  case case1 => exact composed_test _ []
  case case2 => assumption
  case case3 => exact composed_consider h _
  case case4 => exact composed_reportDivisor h cells
  case case5 => exact composed_test _ _
  case case6 => exact .throw _
  case case7 => exact composed_test _ _

end Prime

end OptionShell
