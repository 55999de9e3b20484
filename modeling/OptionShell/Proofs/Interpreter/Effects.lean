import Mathlib.Logic.Relation
import OptionShell.Builtin.All
import OptionShell.Proofs.Interpreter.Loading
import OptionShell.Proofs.Leads
import OptionShell.Proofs.Registry.Within

/-!
# What builtins do

Every builtin but `exit` is a chain of effects on the workspace, whatever its arguments are and whether it succeeds or
fails: options that a name or a letter leads to are set for a script or read, variables are edited, extensions come
and go, flags are saved and lines are reported.
-/
namespace OptionShell

/-- The edits of variables that commands and hooks make. Read-only variables keep their values. -/
inductive VarEdit (vars : Variables) : Variables → Prop where
  | assign (name value : String) (after : Variables) (hEdit : vars.assign name value = .ok after) : VarEdit vars after
  | unset (name : String) (after : Variables) (hEdit : vars.unset name = .ok after) : VarEdit vars after
  | markExported (name : String) : VarEdit vars (vars.markExported name)

/-- Some name or letter leads to the definition. -/
def Registry.Finds {σ : Type} (r : Registry σ) (d : Definition σ) : Prop :=
  (∃ name, r.findName? name = some d) ∨ ∃ letter, r.findLetter? letter = some d

theorem Options.exists_noted {σ : Type} (d : Definition σ) (why : Access) (s : Options σ) :
    ∃ host, s.noted d why = { s with host } := by
  rw [Options.noted]
  split
  · exact ⟨_, rfl⟩
  · exact ⟨s.host, rfl⟩

variable {α β : Type} {catalog : Catalog α} {w after : Workspace α}

/-- One effect of a builtin on its workspace. -/
inductive Effect (catalog : Catalog α) (w : Workspace α) : Workspace α → Prop where
  | set (d : Definition (Host α)) (why : Access) (value : Int32) (outcome : Outcome) (options : Options (Host α))
      (hFound : w.options.registry.Finds d) (hWhy : why = .flag ∨ why = .setO ∨ why = .shopt)
      (hRun : Update.set d why value w.options = some (outcome, options)) : Effect catalog w { w with options }
  | note (d : Definition (Host α)) (why : Access) (hLive : d ∈ w.options.registry.entries) :
      Effect catalog w { w with options := w.options.noted d why }
  | vars (vars : Variables) (hEdit : VarEdit w.vars vars) :
      Effect catalog w (w.mapHost fun host => { host with vars })
  | load (name : String) (result : Except ShellError Unit) (after : Workspace α)
      (hRun : (catalog.load name).run w = some (result, after)) : Effect catalog w after
  | unload (name : String) (result : Except ShellError Unit) (after : Workspace α)
      (hRun : (catalog.unload name).run w = some (result, after)) : Effect catalog w after
  | saveFlags (frame : Option SavedFlags) (outer : List (Option SavedFlags)) (hScopes : w.scopes = frame :: outer) :
      Effect catalog w { w with scopes := some (frame.getD w.options.savedFlags) :: outer }
  | diagnose (line : String) : Effect catalog w (w.diagnose line)

abbrev Effects (catalog : Catalog α) := Relation.ReflTransGen (Effect catalog)

/-! ## Single actions -/

namespace Action

variable {R : Workspace α → Workspace α → Prop}

theorem leads_update {change : Update (Host α) β}
    (h : ∀ answer after, change w.options = some (answer, after) → R w { w with options := after }) :
    Leads R (update change).run w := by
  intro result after hRun
  rw [run_update] at hRun
  obtain ⟨changed, hChange, hSame⟩ := Option.map_eq_some_iff.mp hRun
  cases hSame
  exact h changed.1 changed.2 hChange

theorem leads_attempt [Std.Refl R] [IsTrans (Workspace α) R] {change : Update (Host α) (Except ShellError β)}
    (h : ∀ answer after, change w.options = some (answer, after) → R w { w with options := after }) :
    Leads R (attempt change).run w := by
  refine .andThen (leads_update h) fun result mid _ => ?_
  cases result with
  | ok answer => exact .ok answer
  | error error => exact .throw error

theorem leads_editVars {edit : Variables → Except VariableError Variables}
    (hEdit : ∀ vars, edit w.vars = .ok vars → VarEdit w.vars vars) : Leads (Effects catalog) (editVars edit).run w := by
  apply Leads.get_andThen
  split
  · rename_i vars hOk
    exact .alter (.single (.vars vars (hEdit vars hOk)))
  · exact .throw _

theorem leads_assign (name value : String) : Leads (Effects catalog) (editVars (·.assign name value)).run w :=
  leads_editVars fun vars hOk => .assign name value vars hOk

theorem leads_diagnose (line : String) : Leads (Effects catalog) (diagnose line).run w :=
  .alter (.single (.diagnose line))

theorem leads_setFound {d : Definition (Host α)} (hFound : w.options.registry.Finds d) {why : Access}
    (hWhy : why = .flag ∨ why = .setO ∨ why = .shopt) (value : Int32) :
    Leads (Effects catalog) (update (Update.set d why value)).run w :=
  leads_update fun outcome options hRun => .single (.set d why value outcome options hFound hWhy hRun)

theorem leads_switchFlag (letter : Char) (on : Bool) :
    Leads (Effects catalog) (update (Update.switchFlag letter on)).run w := by
  have hChange : Leads (fun s after => Effects catalog { w with options := s } { w with options := after })
      (Update.switchFlag letter on) w.options := by
    apply Leads.get_bind
    split
    · intro _ _ hRun
      cases hRun
      exact .refl
    · rename_i d hFound
      intro _ _ hRun
      obtain ⟨⟨outcome, options⟩, hSet, hSame⟩ := Option.bind_eq_some_iff.mp hRun
      cases hSame
      exact .single (.set d .flag _ outcome _ (.inr ⟨letter, hFound⟩) (.inl rfl) hSet)
  exact leads_update fun answer options hRun => hChange answer options hRun

theorem leads_readOne {d : Definition (Host α)} (hLive : d ∈ w.options.registry.entries) {why : Access}
    (answer : Options (Host α) → β) : Leads (Effects catalog) (read fun s => (answer s, s.noted d why)).run w := by
  refine leads_update fun _ options hRun => ?_
  cases hRun
  exact .single (.note d why hLive)

theorem leads_readListing (why : Access) (mask : UInt64) (style : Style) :
    Leads (Effects catalog) (read (Reading.listing why mask style)).run w := by
  refine leads_update fun _ options hRun => ?_
  cases hRun
  have hDefs : ∀ d ∈ w.options.listable why style, d ∈ w.options.registry.entries := fun d hd =>
    List.mem_of_mem_filter (List.mem_of_mem_filter hd)
  generalize w.options.listable why style = defs at hDefs
  induction defs generalizing w with
  | nil => exact .refl
  | cons d rest ih =>
    obtain ⟨hd, hRest⟩ := List.forall_mem_cons.mp hDefs
    refine .head (.note d why hd) (ih fun e he => ?_)
    obtain ⟨host, hHost⟩ := Options.exists_noted d why w.options
    change e ∈ (w.options.noted d why).registry.entries
    rw [hHost]
    exact hRest e he

end Action

/-! ## Extensions -/

namespace Catalog

variable {R : Workspace α → Workspace α → Prop} [Std.Refl R] [IsTrans (Workspace α) R] {name : String}

/-- Loading changes the options and the list of loaded extensions. -/
theorem leads_load (hLoaded : ∀ (w : Workspace α) loaded, R w { w with loaded })
    (hEnter : ∀ ext answer after, catalog.find? name = some ext → ext.enter w.options = some (answer, after) →
      R w { w with options := after }) : Leads R (catalog.load name).run w := by
  rw [load]
  split
  · exact .throw _
  · rename_i ext hFound
    apply Leads.get_andThen
    split
    · exact .ok _
    · refine .andThen (Action.leads_attempt fun answer after => hEnter ext answer after hFound) fun _ mid _ => ?_
      exact .alter (hLoaded mid _)

theorem leads_unload (hLoaded : ∀ (w : Workspace α) loaded, R w { w with loaded })
    (hLeave : ∀ ext w answer after, catalog.find? name = some ext → ext.leave w.options = some (answer, after) →
      R w { w with options := after }) : Leads R (catalog.unload name).run w := by
  rw [unload]
  apply Leads.get_andThen
  split
  · refine .andThen (.alter (hLoaded w _)) fun _ mid _ => ?_
    split
    · rename_i ext hFound
      exact Action.leads_update fun answer after => hLeave ext mid answer after hFound
    · exact .ok _
  · exact .throw _

end Catalog

/-! ## What effects keep -/

/-- The same exit status is asked for. -/
def SameExit (w after : Workspace α) : Prop := after.exit? = w.exit?

instance : Std.Refl (SameExit (α := α)) := ⟨fun _ => rfl⟩

instance : IsTrans (Workspace α) SameExit where
  trans _ _ _ hFirst hSecond := hSecond.trans hFirst

theorem Effect.sameExit (h : Effect catalog w after) : SameExit w after := by
  cases h with
  | load name result after hRun =>
    exact Catalog.leads_load (fun _ _ => rfl) (fun _ _ _ _ _ => rfl) result after hRun
  | unload name result after hRun =>
    exact Catalog.leads_unload (fun _ _ => rfl) (fun _ _ _ _ _ _ => rfl) result after hRun
  | _ => rfl

theorem sameExit_of_effects (h : Effects catalog w after) : SameExit w after := by
  induction h with
  | refl => rfl
  | tail _ hEffect ih => exact hEffect.sameExit.trans ih

/-! ## The builtins that work on options -/

namespace Builtin

open OptionShell.Action

theorem leads_turnNamed (name : String) (on : Bool) : Leads (Effects catalog) (turnNamed name on).run w := by
  apply Leads.get_andThen
  split
  · exact .throw _
  · rename_i d hFound
    refine .andThen (leads_setFound (.inl ⟨name, hFound⟩) (.inr (.inl rfl)) _) fun outcome mid _ => ?_
    split
    · exact .throw _
    · exact .ok _

theorem leads_turnLetters (on : Bool) (letters : List Char) :
    Leads (Effects catalog) (turnLetters on letters).run w := by
  refine .each (fun letter _ w => ?_) w
  refine .andThen (leads_switchFlag letter on) fun result mid _ => ?_
  split
  · exact .ok _
  · exact .throw _

theorem leads_assignArg (arg : String) : Leads (Effects catalog) (assignArg arg).run w := by
  rw [assignArg]
  split
  · exact .throw _
  · refine .andThen (leads_assign _ _) fun _ mid _ => ?_
    apply Leads.get_andThen
    split
    · refine leads_editVars fun vars hOk => ?_
      cases hOk
      exact .markExported _
    · exact .ok _

theorem leads_setArg (arg : String) : Leads (Effects catalog) (setArg arg).run w := by
  rw [setArg]
  split
  · split
    · exact leads_turnLetters _ _
    · exact leads_assignArg arg
  · exact leads_assignArg arg

theorem leads_optionListing (on : Bool) : Leads (Effects catalog) (optionListing on).run w :=
  leads_readListing .setO 0 _

theorem leads_setArgs (args : List String) (w : Workspace α) : Leads (Effects catalog) (setArgs args).run w := by
  fun_induction setArgs args generalizing w
  case case1 => exact .ok _
  case case2 rest => exact .andThen (.each (fun arg _ w => leads_assignArg arg) w) fun _ mid _ => .ok _
  case case3 rest hDashes ih => exact ih w
  case case4 arg hDashes hDash hListing => exact .andThen (leads_optionListing _) fun _ mid _ => .ok _
  case case5 arg hDashes hDash hListing name others hSign ih =>
    exact .andThen (leads_optionListing _) fun _ mid _ => .andThen (ih mid) fun _ last _ => .ok _
  case case6 arg hDashes hDash hListing name others hSign ih =>
    exact .andThen (leads_turnNamed name _) fun _ mid _ => ih mid
  case case7 arg rest hDashes hDash hListing ih =>
    exact .andThen (leads_setArg arg) fun _ mid _ => ih mid

theorem leads_set (args : List String) : Leads (Effects catalog) (set.run args).run w := by
  dsimp only [set]
  split
  · exact .get_andThen (.ok _)
  · exact .andThen (leads_setArgs args w) fun shown mid _ => .ok _

theorem access_shopt (mode : ShoptMode) : mode.access = .flag ∨ mode.access = .setO ∨ mode.access = .shopt := by
  rw [ShoptMode.access]
  split
  · exact .inr (.inl rfl)
  · exact .inr (.inr rfl)

theorem live_after_reading {d : Definition (Host α)} (hLive : d ∈ w.options.registry.entries) {why : Access}
    {answer : Options (Host α) → Bool} {mid : Workspace α} {on : Bool}
    (hRun : (Action.read fun s => (answer s, s.noted d why)).run w = some (.ok on, mid)) :
    d ∈ mid.options.registry.entries := by
  cases hRun
  obtain ⟨host, hHost⟩ := Options.exists_noted d why w.options
  change d ∈ (w.options.noted d why).registry.entries
  rw [hHost]
  exact hLive

theorem leads_shoptName (mode : ShoptMode) (status : Int32) (name : String) :
    Leads (Effects catalog) (shoptName mode status name).run w := by
  apply Leads.get_andThen
  split
  · exact .andThen (leads_diagnose _) fun _ mid _ => .ok _
  · rename_i d hFound
    have hLive := Registry.live_of_findName? hFound
    split
    · refine .andThen (leads_setFound (.inl ⟨name, hFound⟩) (access_shopt mode) _) fun outcome mid _ => ?_
      split
      · exact .ok _
      · exact .andThen (leads_diagnose _) fun _ last _ => .ok _
    · -- The option may be read twice: for the status and for the listing.
      extract_lets showNow
      have hShow : ∀ status mid, d ∈ mid.options.registry.entries →
          Leads (Effects catalog) (showNow status).run mid := by
        intro status mid hLive
        dsimp only [showNow]
        split
        · exact .ok _
        · exact .andThen (leads_readOne hLive _) fun shown last _ => .ok _
      split
      · exact hShow status w hLive
      · refine .andThen (leads_readOne hLive _) fun on mid hRun => ?_
        exact hShow _ mid (live_after_reading hLive hRun)

theorem leads_shoptNames (mode : ShoptMode) (status : Int32) (names : List String) (w : Workspace α) :
    Leads (Effects catalog) (shoptNames mode status names).run w := by
  induction names generalizing status w with
  | nil => exact .ok _
  | cons name rest ih =>
    refine .andThen (leads_shoptName mode status name) fun first mid _ => ?_
    exact .andThen (ih first.1 mid) fun others last _ => .ok _

theorem leads_shopt (args : List String) : Leads (Effects catalog) (shopt.run args).run w := by
  refine .andThen (.ofExcept _) fun parsed mid _ => ?_
  obtain ⟨mode, names⟩ := parsed
  dsimp only
  split
  · exact .andThen (.throw _) nofun
  · split
    · split
      · exact .ok _
      · exact .andThen (leads_readListing _ _ _) fun shown last _ => .ok _
    · exact .andThen (leads_shoptNames mode 0 names mid) fun shown last _ => .ok _

theorem leads_localFlags (args : List String) : Leads (Effects catalog) (localFlags.run args).run w := by
  dsimp only [localFlags]
  split
  · exact .andThen (.throw _) nofun
  · apply Leads.get_andThen
    split
    · exact .throw _
    · rename_i frame outer hScopes
      exact .andThen (.alter (.single (.saveFlags frame outer hScopes))) fun _ mid _ => .ok _

/-! ## The other builtins -/

theorem leads_env (args : List String) : Leads (Effects catalog) (env.run args).run w := by
  apply Leads.get_andThen
  split
  · exact .ok _
  · exact .ok _
  · exact .throw _

theorem leads_unsetOne (name : String) : Leads (Effects catalog) (unsetOne name).run w := by
  have hAttempt : Leads (Effects catalog) (Action.editVars (·.unset name)).run w :=
    leads_editVars fun vars hOk => .unset name vars hOk
  refine .andThen (.tryCatch (.andThen hAttempt fun _ mid _ => ?_) fun error mid => ?_) fun result mid _ => ?_
  · exact .ok (Except.error true)
  · exact .andThen (leads_diagnose _) fun _ last _ => .ok (Except.error false)
  · cases result <;> exact .ok _

theorem leads_unset (args : List String) : Leads (Effects catalog) (unset.run args).run w :=
  .andThen (.collect (fun name _ _ => leads_unsetOne name) w) fun _ _ _ => .ok _

theorem leads_load (name : String) : Leads (Effects catalog) (catalog.load name).run w :=
  fun result after hRun => .single (.load name result after hRun)

theorem leads_unload (name : String) : Leads (Effects catalog) (catalog.unload name).run w :=
  fun result after hRun => .single (.unload name result after hRun)

theorem leads_unloadAll : Leads (Effects catalog) catalog.unloadAll.run w := by
  refine .get_andThen (.each (fun name _ w => ?_) w)
  refine .andThen (.tryCatch (.andThen (leads_unload name) fun _ mid _ => ?_) fun error mid => ?_)
    fun result mid _ => ?_
  · exact .ok (Except.ok ())
  · exact .ok (Except.error ())
  · cases result <;> exact .ok _

theorem leads_enable (args : List String) : Leads (Effects catalog) ((enable catalog).run args).run w := by
  dsimp only [enable]
  split
  · exact .get_andThen (.ok _)
  · exact .andThen (leads_load _) fun _ mid _ => .ok _
  · exact .andThen (leads_unload _) fun _ mid _ => .ok _
  · exact .throw _

/-- Every builtin but `exit` is a chain of effects. -/
theorem eq_exit_or_leads {command : Command α} (h : command ∈ all catalog) :
    command = exit ∨ ∀ args w, Leads (Effects catalog) (command.run args).run w := by
  rw [all, optionCommands] at h
  obtain rfl | rfl | rfl | rfl | rfl | rfl | rfl | rfl | rfl | rfl : command = echo ∨ command = success ∨
      command = failure ∨ command = env ∨ command = unset ∨ command = enable catalog ∨ command = exit ∨
      command = Builtin.set ∨ command = shopt ∨ command = localFlags := by simpa using h
  · exact .inr fun _ _ => .ok _
  · exact .inr fun _ _ => .ok _
  · exact .inr fun _ _ => .ok _
  · exact .inr fun args _ => leads_env args
  · exact .inr fun args _ => leads_unset args
  · exact .inr fun args _ => leads_enable args
  · exact .inl rfl
  · exact .inr fun args _ => leads_set args
  · exact .inr fun args _ => leads_shopt args
  · exact .inr fun args _ => leads_localFlags args

/-- At most the status with which the shell is to stop is changed by `exit`. -/
theorem exists_exit_of_run {args : List String} {result : Except ShellError Output}
    (h : (exit.run args).run w = some (result, after)) : ∃ exit?, after = { w with exit? } := by
  dsimp only [exit] at h
  split at h
  · cases h
    exact ⟨_, rfl⟩
  · split at h
    · cases h
      exact ⟨_, rfl⟩
    · cases h
      exact ⟨w.exit?, rfl⟩

end Builtin

theorem CommandTable.mem_of_find?_addAll {commands : List (Command α)} {table : CommandTable α} {name : String}
    {command : Command α} (h : (addAll commands table).find? name = some command) :
    command ∈ commands ∧ command.name = name ∨ table.find? name = some command := by
  induction commands generalizing table with
  | nil => exact .inr h
  | cons first rest ih =>
    obtain ⟨hMem, hName⟩ | hFound := ih h
    · exact .inl ⟨List.mem_cons_of_mem _ hMem, hName⟩
    · dsimp only [add] at hFound
      rw [Table.find?_insert] at hFound
      split at hFound
      · rename_i hName
        cases hFound
        exact .inl ⟨List.mem_cons_self, hName.symm⟩
      · exact .inr hFound

end OptionShell
