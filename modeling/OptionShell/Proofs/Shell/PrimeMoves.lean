import OptionShell.Proofs.Prime.KeptReport
import OptionShell.Proofs.Shell.Equipped
import OptionShell.Proofs.Shell.PrimeState

/-!
# Moves of the extension

Whatever a shell runs, the state of the extension goes from move to move: reading `is_prime` searches the candidate that
it has, loading considers the first candidate, and the command considers, searches and hands over. Options, scopes and
all other commands pass by it.
-/
namespace OptionShell

namespace Shell

open Execution Interpreter

variable {core : Registry (Host Unit)} {d : Definition (Host Unit)} {w mid after : Workspace Unit} {shell : Shell}

/-- Setting options passes by the state of the extension. -/
theorem setInvariant_prime (p : Prime.State) : SetInvariant Family fun s => Sound s ∧ s.host.prime = p where
  within _ hs := hs.1.within
  set d hd why value s hs := by
    obtain ⟨outcome, options, hRun, hSound⟩ := setInvariant_sound.set d hd why value s hs.1
    have hPrime := prime_eq_of_commutesFrom (fun q => commutesFrom_set q hd why value) hs.1 hRun
    exact ⟨outcome, options, hRun, hSound, hPrime.trans hs.2⟩

theorem prime_refreshAll (s : Options (Host Unit)) : s.refreshAll.host.prime = s.host.prime := by
  have hOne (roster : Roster) (s : Options (Host Unit)) : (s.refresh roster).host.prime = s.host.prime := by
    rw [Options.refresh]
    split <;> rfl
  rw [Options.refreshAll, hOne, hOne]

/-- A shell that starts leaves the extension in the state from which it starts. -/
theorem prime_of_startOptions {config : Config} {arguments : Arguments} {environ : List (String × String)}
    {s : Options (Host Unit)} (hRun : startOptions config arguments (blankOptions environ) = some (.ok (), s)) :
    s.host.prime = {} := by
  obtain ⟨registry, letters?, hAdded, hSound, -⟩ := addTo_blankOptions environ
  refine (((setInvariant_prime {}).startOptions ?_ (fun s hs => ?_) (fun login s hs => ?_) (fun s hs => ?_)
    config arguments).allows _ s hRun rfl).2
  · rw [hAdded]
    exact ⟨rfl, hSound, rfl⟩
  · exact ⟨hs.1.congr rfl rfl, hs.2⟩
  · exact ⟨hs.1.congr rfl rfl, hs.2⟩
  · obtain ⟨f, hf⟩ := Options.refreshAll_eq_mapHost s
    refine ⟨?_, (prime_refreshAll s).trans hs.2⟩
    rw [hf]
    exact hs.1.congr rfl rfl

/-- The state of the extension has made moves. -/
def PrimeMoves (w after : Workspace Unit) : Prop :=
  Prime.State.Moves w.options.host.prime after.options.host.prime

instance : Std.Refl PrimeMoves := ⟨fun _ => .refl⟩

instance : IsTrans (Workspace Unit) PrimeMoves where
  trans _ _ _ hFirst hSecond := Relation.ReflTransGen.trans hFirst hSecond

theorem primeMoves_of_eq (h : after.options.host.prime = w.options.host.prime) : PrimeMoves w after := by
  rw [PrimeMoves, h]

/-! ## Readings, loading and unloading -/

theorem Equipped.note (h : Equipped core w) (hLive : d ∈ w.options.registry.entries) (why : Access) :
    Equipped core { w with options := w.options.noted d why } ∧
      PrimeMoves w { w with options := w.options.noted d why } := by
  have hSound := h.stocked.sound
  obtain hGetter | rfl | rfl := getter?_cases (hSound.within.live d hLive)
  · have hSame : w.options.noted d why = w.options := by rw [Options.noted, hGetter]
    rw [hSame]
    exact ⟨h, .refl⟩
  · exact ⟨h, .refl⟩
  · exact ⟨h.congr (hSound.congr rfl rfl) h.vars rfl rfl, Prime.State.moves_searchIsPrime _ _⟩

/-- Loading the extension considers its first candidate, unless it is loaded already. -/
theorem Equipped.primeMoves_load (h : Equipped core w) {name : String} {result : Except ShellError Unit}
    (hRun : (catalog.load name).run w = some (result, after)) : PrimeMoves w after := by
  cases Catalog.loadResult_of_run hRun with
  | unknown hFound => exact .refl
  | again ext hFound hLoaded => exact .refl
  | failed ext hFound hNew error options hEntered =>
    obtain rfl := name_eq_of_find?_catalog hFound
    cases (run_load h.writable hNew).symm.trans hRun
  | loaded ext hFound hNew options hEntered =>
    obtain rfl := name_eq_of_find?_catalog hFound
    cases (run_load h.writable hNew).symm.trans hRun
    change Prime.State.Moves w.options.host.prime (primeLoaded w).options.host.prime
    rw [prime_primeLoaded]
    exact .single (.consider _)

theorem Equipped.primeMoves_unload (h : Equipped core w) {name : String} {result : Except ShellError Unit}
    (hRun : (catalog.unload name).run w = some (result, after)) : PrimeMoves w after := by
  by_cases hLoaded : name ∈ w.loaded
  · have hPrime := h.stocked.loaded_eq hLoaded
    obtain rfl : name = "prime" := List.mem_singleton.mp (hPrime ▸ hLoaded)
    rw [Catalog.run_unload find?_catalog_prime hLoaded] at hRun
    obtain ⟨left, hLeave, hSame⟩ := Option.map_eq_some_iff.mp hRun
    cases hSame
    exact primeMoves_of_eq (prime_eq_of_commutesFrom commutesFrom_leave h.stocked.sound hLeave)
  · rw [run_unload_of_not_loaded hLoaded] at hRun
    cases hRun
    exact .refl

/-! ## Commands -/

/-- An equipped workspace again, after moves of the extension. -/
structure Carries (core : Registry (Host Unit)) (w after : Workspace Unit) : Prop where
  equipped : Equipped core after
  moves : PrimeMoves w after

theorem Carries.trans (hFirst : Carries core w mid) (hSecond : Carries core mid after) : Carries core w after :=
  ⟨hSecond.equipped, Relation.ReflTransGen.trans hFirst.moves hSecond.moves⟩

theorem Equipped.carries_refl (h : Equipped core w) : Carries core w w := ⟨h, .refl⟩

/-- A workspace with the same options. -/
theorem Equipped.carries_of_options_eq (h : Equipped core w) (hOptions : after.options = w.options)
    (hLoaded : after.loaded = w.loaded) : Carries core w after := by
  refine ⟨h.congr ?_ ?_ (by rw [hOptions]) hLoaded, primeMoves_of_eq (by rw [hOptions])⟩
  · rw [hOptions]
    exact h.stocked.sound
  · rw [Workspace.vars, hOptions]
    exact h.vars

theorem Equipped.carries_effect (h : Equipped core w) (hEffect : Effect catalog w after) : Carries core w after := by
  refine ⟨equipped_of_moves (balanced_of_effect hEffect).moves h, ?_⟩
  have hSound := h.stocked.sound
  cases hEffect with
  | set d why value outcome options hFound hWhy hRun =>
    have hd := mem_family_of_finds hSound.within hFound
    have hKept := (setInvariant_prime w.options.host.prime).set d hd why value w.options ⟨hSound, rfl⟩
    exact primeMoves_of_eq (hKept.allows outcome options hRun).2
  | note d why hLive => exact (h.note hLive why).2
  | vars vars hEdit => exact .refl
  | load name result after hRun => exact h.primeMoves_load hRun
  | unload name result after hRun => exact h.primeMoves_unload hRun
  | saveFlags frame outer hScopes => exact .refl
  | diagnose line => exact .refl

theorem Equipped.carries_effects (h : Equipped core w) (hEffects : Effects catalog w after) :
    Carries core w after := by
  induction hEffects with
  | refl => exact h.carries_refl
  | tail _ hEffect ih => exact ih.trans (ih.equipped.carries_effect hEffect)

section Command

theorem leads_primeMoves_showIn (name : String) (n : Int64) :
    Leads PrimeMoves (Prime.showIn name n : Action Unit Unit).run w := by
  apply Leads.get_andThen
  split
  · exact .alter .refl
  · exact .throw _

theorem leads_primeMoves_consider (arg? : Option String) :
    Leads PrimeMoves (Prime.consider arg? : Action Unit Output).run w := by
  rw [Prime.consider]
  split
  · exact .throw _
  · refine .andThen (.alter (.single (.consider _))) fun _ mid _ => ?_
    exact .andThen (leads_primeMoves_showIn _ _) fun _ last _ => .ok _

/-- The divided state and the state without the report are put in the place of the states that they come from. -/
theorem leads_primeMoves_reportDivisor (cells : Prime.Cells) :
    Leads PrimeMoves (Prime.reportDivisor cells : Action Unit Output).run w := by
  apply Leads.get_andThen
  apply Leads.get_andThen
  refine .andThen (.alter (Prime.State.moves_divide _ _ _)) fun _ mid _ => ?_
  refine .andThen (leads_primeMoves_showIn _ _) fun _ mid _ => ?_
  refine .andThen (leads_primeMoves_showIn _ _) fun _ mid _ => ?_
  apply Leads.get_andThen
  exact .andThen (.alter (.single .handOver)) fun _ last _ => .ok _

theorem leads_primeMoves_run (cells : Prime.Cells) (quiet : Bool) (args : List String) :
    Leads PrimeMoves (Prime.run cells quiet args : Action Unit Output).run w := by
  fun_induction Prime.run (α := Unit) cells quiet args
  case case1 => exact .get_andThen (.ok _)
  case case2 => assumption
  case case3 => exact leads_primeMoves_consider _
  case case4 => exact leads_primeMoves_reportDivisor cells
  case case5 => exact .get_andThen (.ok _)
  case case6 => exact .throw _
  case case7 => exact .get_andThen (.ok _)

end Command

theorem Equipped.carries_command (h : Equipped core w) {name : String} {args : List String} {command : Command Unit}
    {result : Except ShellError Output} (hFound : interpreter.findCommand? w.loaded name = some command)
    (hRun : (command.run args).run w = some (result, after)) : Carries core w after := by
  obtain hMem | ⟨-, rfl⟩ := mem_or_eq_of_findCommand? hFound
  · obtain rfl | hEffects := Builtin.eq_exit_or_leads hMem
    · obtain ⟨exit?, rfl⟩ := Builtin.exists_exit_of_run hRun
      exact h.carries_of_options_eq rfl rfl
    · exact h.carries_effects (hEffects args w result after hRun)
  · exact ⟨equipped_of_moves (leads_prime primeCells false args result after hRun).moves h,
      leads_primeMoves_run primeCells false args result after hRun⟩

/-! ## Lines -/

theorem Equipped.carries_closeScope {s last : Session Unit} (h : Equipped core s.toWorkspace)
    {result : Except ShellError Unit} (hRun : (closeScope : Execution Unit Unit).run s = some (result, last)) :
    Carries core s.toWorkspace last.toWorkspace := by
  match hScopes : s.scopes with
  | [] =>
    obtain ⟨⟨options, loaded, scopes, diagnostics, exit?, stateLetters⟩, lastStatus⟩ := s
    cases hScopes
    cases hRun
    exact h.carries_refl
  | none :: outer =>
    rw [run_closeScope_of_none hScopes] at hRun
    cases hRun
    exact h.carries_of_options_eq rfl rfl
  | some saved :: outer =>
    rw [run_closeScope_of_some hScopes] at hRun
    obtain ⟨⟨count, options⟩, hReinstate, hSame⟩ := Option.map_eq_some_iff.mp hRun
    cases hSame
    have hMove : Move s.toWorkspace _ := .restoreFlags saved outer count options hScopes hReinstate
    have hKept := (setInvariant_prime s.options.host.prime).reinstateFlags saved ⟨h.stocked.sound, rfl⟩
    exact ⟨hMove.equipped h, primeMoves_of_eq (hKept.allows count options hReinstate).2⟩

/-- From equipped workspaces, sessions carry the state of the extension. -/
def SessionCarries (core : Registry (Host Unit)) (s last : Session Unit) : Prop :=
  Equipped core s.toWorkspace → Carries core s.toWorkspace last.toWorkspace

instance (core : Registry (Host Unit)) : Std.Refl (SessionCarries core) := ⟨fun _ h => h.carries_refl⟩

instance (core : Registry (Host Unit)) : IsTrans (Session Unit) (SessionCarries core) where
  trans _ _ _ hFirst hSecond h := (hFirst h).trans (hSecond (hFirst h).equipped)

theorem lineRules_carries (core : Registry (Host Unit)) : LineRules (SessionCarries core) where
  command name args command s hFound result last hRun h := by
    obtain ⟨⟨answer, work⟩, hAction, hSame⟩ := Option.bind_eq_some_iff.mp hRun
    cases hSame
    exact h.carries_command hFound hAction
  scope runLine hLine args s result last hRun h := by
    cases args with
    | nil =>
      cases hRun
      exact h.carries_refl
    | cons arg rest =>
      rw [run_runScope runLine (List.cons_ne_nil arg rest)] at hRun
      obtain ⟨⟨output, mid⟩, hInner, hRest⟩ := Option.bind_eq_some_iff.mp hRun
      obtain ⟨⟨closing, closed⟩, hClose, hSame⟩ := Option.map_eq_some_iff.mp hRest
      cases hSame
      have hOpened : Carries core s.toWorkspace { s.toWorkspace with scopes := none :: s.scopes } :=
        h.carries_of_options_eq rfl rfl
      have hBody := hOpened.trans (hLine _ _ output mid hInner hOpened.equipped)
      exact hBody.trans (hBody.equipped.carries_closeScope hClose)
  aside _ _ _ _ h := h.carries_of_options_eq rfl rfl

/-! ## Shells -/

/-- The extension of a shell has come to its state by moves, from the one in which it starts. -/
theorem Reachable.primeMoves (h : Reachable shell) : ∃ core, Equipped core shell.session.toWorkspace ∧
    Prime.State.Moves {} shell.session.options.host.prime := by
  induction h with
  | start config arguments environ shell hStart =>
    obtain ⟨options, work, hRun, hLoads, hSession⟩ := exists_run_start hStart
    have hFirst : Equipped (standard.addTo (blankOptions environ)).2.registry { options } :=
      ⟨stocked_of_startOptions hRun, (writable_of_startOptions hRun).vars, nofun⟩
    have hCarried := hFirst.carries_effects (leads_loadAll _ _ _ work hLoads)
    have hMoves := hCarried.moves
    rw [PrimeMoves, prime_of_startOptions hRun] at hMoves
    rw [hSession]
    exact ⟨_, hCarried.equipped.congr hCarried.equipped.stocked.sound hCarried.equipped.vars rfl rfl, hMoves⟩
  | submit shell last line result h hSubmit ih =>
    obtain ⟨core, hShell, hMoves⟩ := ih
    obtain ⟨⟨output, session⟩, hRun, hSame⟩ := Option.bind_eq_some_iff.mp hSubmit
    cases hSame
    have hFresh : Carries core shell.session.toWorkspace (shell.freshLine line).toWorkspace :=
      hShell.carries_of_options_eq rfl rfl
    have hLine := (lineRules_carries core).leads_execute scopeDepth line _ output session hRun hFresh.equipped
    exact ⟨core, hLine.equipped, hMoves.trans (hFresh.trans hLine).moves⟩
  | close shell last h hClose ih =>
    obtain ⟨core, hShell, hMoves⟩ := ih
    obtain ⟨⟨result, work⟩, hRun, hSame⟩ := Option.bind_eq_some_iff.mp hClose
    cases hSame
    have hClosed := hShell.carries_effects (Builtin.leads_unloadAll result work hRun)
    exact ⟨core, hClosed.equipped, hMoves.trans hClosed.moves⟩

end Shell

end OptionShell
