import OptionShell.Proofs.Shell.Loading

/-!
# The moves of a shell

Everything that commands and lines do to a shell is a chain of moves: options that a name or a letter leads to are set
for a script, variables and the state of the extension are edited, extensions come and go, and scopes open, save flags
and close. Commands and lines close exactly the scopes that they open.
-/
namespace OptionShell

namespace Shell

/-- One move of a shell on its workspace. -/
inductive Move (w : Workspace Unit) : Workspace Unit → Prop where
  | set (d : Definition (Host Unit)) (why : Access) (value : Int32) (outcome : Outcome)
      (options : Options (Host Unit)) (hFound : w.options.registry.Finds d)
      (hWhy : why = .flag ∨ why = .setO ∨ why = .shopt)
      (hRun : Update.set d why value w.options = some (outcome, options)) : Move w { w with options }
  | note (d : Definition (Host Unit)) (why : Access) (hLive : d ∈ w.options.registry.entries) :
      Move w { w with options := w.options.noted d why }
  | prime (f : Prime.State → Prime.State) : Move w (w.mapHost fun host => { host with prime := f host.prime })
  | vars (vars : Variables) (hEdit : VarEdit w.vars vars) : Move w (w.mapHost fun host => { host with vars })
  | load (name : String) (result : Except ShellError Unit) (after : Workspace Unit)
      (hRun : (catalog.load name).run w = some (result, after)) : Move w after
  | unload (name : String) (result : Except ShellError Unit) (after : Workspace Unit)
      (hRun : (catalog.unload name).run w = some (result, after)) : Move w after
  | openScope : Move w { w with scopes := none :: w.scopes }
  | saveFlags (frame : Option SavedFlags) (outer : List (Option SavedFlags)) (hScopes : w.scopes = frame :: outer) :
      Move w { w with scopes := some (frame.getD w.options.savedFlags) :: outer }
  | closeScope (outer : List (Option SavedFlags)) (hScopes : w.scopes = none :: outer) :
      Move w { w with scopes := outer }
  | restoreFlags (saved : SavedFlags) (outer : List (Option SavedFlags)) (count : Nat)
      (options : Options (Host Unit)) (hScopes : w.scopes = some saved :: outer)
      (hRun : Update.reinstateFlags saved w.options = some (count, options)) :
      Move w { w with options, scopes := outer }
  | aside (diagnostics : List String) (exit? : Option Int32) : Move w { w with diagnostics, exit? }

abbrev Moves := Relation.ReflTransGen Move

open Relation

variable {w after : Workspace Unit} {α : Type}

/-! ## Frames -/

/-- At most the innermost frame has changed: it has saved its flags. A frame that has saved keeps what it saved. -/
def FramesKept (before after : List (Option SavedFlags)) : Prop :=
  after = before ∨ ∃ saved outer, before = none :: outer ∧ after = some saved :: outer

theorem FramesKept.trans {before mid after : List (Option SavedFlags)} (hFirst : FramesKept before mid)
    (hSecond : FramesKept mid after) : FramesKept before after := by
  obtain rfl | ⟨saved, outer, rfl, rfl⟩ := hFirst
  · exact hSecond
  · obtain rfl | ⟨other, rest, hNone, -⟩ := hSecond
    · exact .inr ⟨saved, outer, rfl, rfl⟩
    · cases hNone

theorem FramesKept.eq_of_saved {saved : SavedFlags} {outer after : List (Option SavedFlags)}
    (h : FramesKept (some saved :: outer) after) : after = some saved :: outer := by
  obtain hSame | ⟨other, rest, hNone, -⟩ := h
  · exact hSame
  · cases hNone

/-- A chain of moves that closes the scopes it opens and no others. -/
structure BalancedMoves (w after : Workspace Unit) : Prop where
  moves : Moves w after
  frames : FramesKept w.scopes after.scopes

theorem BalancedMoves.single (h : Move w after) (hScopes : after.scopes = w.scopes) : BalancedMoves w after :=
  ⟨.single h, .inl hScopes⟩

theorem BalancedMoves.refl : BalancedMoves w w := ⟨.refl, .inl rfl⟩

instance : Std.Refl BalancedMoves := ⟨fun _ => .refl⟩

instance : IsTrans (Workspace Unit) BalancedMoves where
  trans _ _ _ hFirst hSecond := ⟨hFirst.moves.trans hSecond.moves, hFirst.frames.trans hSecond.frames⟩

/-! ## Effects of builtins -/

theorem balanced_of_effect (h : Effect catalog w after) : BalancedMoves w after := by
  cases h with
  | set d why value outcome options hFound hWhy hRun =>
    exact .single (.set d why value outcome options hFound hWhy hRun) rfl
  | note d why hLive => exact .single (.note d why hLive) rfl
  | vars vars hEdit => exact .single (.vars vars hEdit) rfl
  | load name result after hRun =>
    exact .single (.load name result after hRun) (loads_load name w result after hRun).scopes_eq
  | unload name result after hRun =>
    exact .single (.unload name result after hRun) (loads_unload name w result after hRun).scopes_eq
  | saveFlags frame outer hScopes =>
    refine ⟨.single (.saveFlags frame outer hScopes), ?_⟩
    rw [hScopes]
    cases frame with
    | none => exact .inr ⟨_, outer, rfl, rfl⟩
    | some saved => exact .inl rfl
  | diagnose line => exact .single (.aside _ w.exit?) rfl

theorem balanced_of_effects (h : Effects catalog w after) : BalancedMoves w after := by
  induction h with
  | refl => exact .refl
  | tail _ hEffect ih => exact IsTrans.trans (r := BalancedMoves) _ _ _ ih (balanced_of_effect hEffect)

theorem leads_of_effects {action : Action Unit α} (h : Leads (Effects catalog) action.run w) :
    Leads BalancedMoves action.run w :=
  h.mono fun _ => balanced_of_effects

/-! ## What moves keep -/

theorem setInvariant_sound : SetInvariant Family Sound where
  within _ hs := hs.within
  set _ hd why value _ hs := (ensures_set hd why value hs.nesting).mono fun _ _ hResult => hs.setResult hResult

theorem mem_family_of_finds {r : Registry (Host Unit)} (h : r.Within Family) {d : Definition (Host Unit)}
    (hFound : r.Finds d) : d ∈ Family := by
  obtain ⟨name, hName⟩ | ⟨letter, hLetter⟩ := hFound
  · exact h.named hName
  · exact h.lettered letter d hLetter

theorem Move.sound (h : Move w after) (hs : Sound w.options) : Sound after.options := by
  cases h with
  | set d why value outcome options hFound hWhy hRun =>
    exact (setInvariant_sound.set d (mem_family_of_finds hs.within hFound) why value _ hs).allows outcome options hRun
  | note d why hLive =>
    obtain ⟨host, hHost⟩ := Options.exists_noted d why w.options
    change Sound (w.options.noted d why)
    rw [hHost]
    exact hs.congr rfl rfl
  | prime f => exact hs.congr rfl rfl
  | vars vars hEdit => exact hs.congr rfl rfl
  | load name result after hRun => exact sound_of_loadSteps (loads_load name w result after hRun).1 hs
  | unload name result after hRun => exact sound_of_loadSteps (loads_unload name w result after hRun).1 hs
  | openScope => exact hs
  | saveFlags frame outer hScopes => exact hs
  | closeScope outer hScopes => exact hs
  | restoreFlags saved outer count options hScopes hRun =>
    exact (setInvariant_sound.reinstateFlags saved hs).allows count options hRun
  | aside diagnostics exit? => exact hs

theorem sound_of_moves (h : Moves w after) (hs : Sound w.options) : Sound after.options := by
  induction h with
  | refl => exact hs
  | tail _ hMove ih => exact hMove.sound ih

end Shell

end OptionShell
