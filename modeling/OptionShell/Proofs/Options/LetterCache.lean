import Mathlib.Data.Set.Insert
import OptionShell.Proofs.Options.Policy
import OptionShell.Proofs.Options.Requests
import OptionShell.Proofs.Registry.Letters
import OptionShell.Variables

/-!
# Current letters

However calls add, remove, change and ask, the cached letters are those that the registry holds. Custom setters may add
and remove options and ask for the letters as well, to any depth: a cache outlives only what leaves the letters alone.
-/
namespace OptionShell

variable {σ α : Type}

namespace Registry

variable {r : Registry σ} {d : Definition σ}

theorem letters_remove (hLetter : (r.byLetter.values.any fun other => other.id = d.id) = false) :
    (r.remove d).letters = r.letters := by
  refine congrArg (List.map _) (List.filter_eq_self.mpr fun entry hEntry => ?_)
  have hOther := List.any_eq_false.mp hLetter entry.2 (List.mem_map_of_mem hEntry)
  simpa using hOther

/-- A definition that is accepted brings a new letter or none. -/
theorem letters_add (h : r.Consistent) (hd : ∀ e ∈ r.entries, e.id = d.id → e = d)
    (hKept : ¬((r.add d).1 = .ok ∧ r.letterState d = .free)) : (r.add d).2.letters = r.letters := by
  have hAddition := addition_add h hd
  generalize r.add d = result at hAddition hKept
  cases hAddition with
  | badLetter hLetter => rfl
  | clash hLetter e he hId hShared => rfl
  | known hLetter hLive => rfl
  | fresh hLetter hFresh =>
    cases hOwn : d.letter? with
    | none => rw [letters, byLetter_insert, hOwn, letters]
    | some letter =>
      have hUnused : r.findLetter? letter = none := by
        rw [h.findLetter?_eq_none_iff]
        intro e he heLetter
        have hShared : d.sharesKey e = true := Definition.sharesKey_iff.mpr (.inr ⟨letter, hOwn, heLetter⟩)
        rw [(hFresh e he).2] at hShared
        cases hShared
      refine absurd ⟨rfl, ?_⟩ hKept
      rw [letterState, hOwn]
      dsimp only
      rw [hUnused]
      rfl

end Registry

namespace Options

variable {defs : Set (Definition σ)} {d : Definition σ} {s after : Options σ}

theorem exists_readLetters_eq (s : Options σ) : ∃ letters?, s.readLetters.2 = { s with letters? } := by
  rw [readLetters]
  split
  · exact ⟨s.letters?, rfl⟩
  · exact ⟨some s.registry.letters, rfl⟩

/-- The options are well kept, and letters that are cached are those of the registry. -/
structure Current (defs : Set (Definition σ)) (s : Options σ) : Prop extends s.WellKept defs where
  cached : ∀ letters, s.letters? = some letters → letters = s.registry.letters

namespace Current

theorem readLetters_eq (h : s.Current defs) : s.readLetters.1 = s.registry.letters := by
  rw [Options.readLetters]
  split
  · rename_i letters hCached
    exact h.cached letters hCached
  · rfl

theorem readLetters (h : s.Current defs) : s.readLetters.2.Current defs := by
  rw [Options.readLetters]
  split
  · exact h
  · refine ⟨⟨h.registry, h.held⟩, fun letters hCached => ?_⟩
    cases hCached
    rfl

/-- The cached answers are those that are computed anew. -/
theorem readFlagString_eq (h : s.Current defs) (stateLetters : String) :
    (s.readFlagString stateLetters).1 = s.flagString stateLetters := by
  obtain ⟨letters?, hAfter⟩ := exists_readLetters_eq s
  rw [Options.readFlagString, flagString, flagsOn, ← h.readLetters_eq]
  dsimp only
  rw [hAfter]
  rfl

theorem readSavedFlags_eq (h : s.Current defs) : s.readSavedFlags.1 = s.savedFlags := by
  obtain ⟨letters?, hAfter⟩ := exists_readLetters_eq s
  rw [Options.readSavedFlags, savedFlags, ← h.readLetters_eq]
  dsimp only
  rw [hAfter]
  rfl

/-- A cache that is not dropped is right as long as the letters are the same. -/
theorem keep (h : s.Current defs) (hWellKept : after.WellKept defs) {dropped : Prop} [Decidable dropped]
    (hCache : after.letters? = if dropped then none else s.letters?)
    (hKept : ¬dropped → after.registry.letters = s.registry.letters) : after.Current defs := by
  refine ⟨hWellKept, fun letters hCached => ?_⟩
  rw [hCache] at hCached
  split at hCached
  · cases hCached
  · rename_i hSame
    rw [hKept hSame]
    exact h.cached letters hCached

theorem add (h : s.Current defs) (hDefs : Identified defs) (hd : d ∈ defs) : (s.add d).2.Current defs :=
  h.keep ⟨h.registry.add hDefs hd, h.held⟩ rfl
    (Registry.letters_add h.registry.consistent fun e he => hDefs e (h.registry.within.live e he) d hd)

theorem takeOut (h : s.Current defs) (d : Definition σ) : (s.takeOut d).Current defs :=
  h.keep ⟨h.registry.remove d, h.held⟩ rfl fun hLetter => Registry.letters_remove (Bool.eq_false_iff.mpr hLetter)

/-- Nothing but the registry, the handles and the cache matters. -/
theorem replace (h : s.Current defs) (storage : Storage) (host : σ) (attached : Bool) :
    { s with storage, host, attached }.Current defs :=
  ⟨⟨h.registry, h.held⟩, h.cached⟩

end Current

/-- Options with current letters stay such options. -/
def KeepsCurrent (defs : Set (Definition σ)) (s after : Options σ) : Prop := s.Current defs → after.Current defs

namespace KeepsCurrent

instance : Std.Refl (KeepsCurrent defs) := ⟨fun _ => id⟩

instance : IsTrans (Options σ) (KeepsCurrent defs) := ⟨fun _ _ _ hFirst hSecond hs => hSecond (hFirst hs)⟩

theorem writeCell (cell : CellId) (value : Int32) (s : Options σ) : KeepsCurrent defs s (s.writeCell cell value) :=
  fun hs => hs.replace (s.storage.write cell value) s.host s.attached

theorem requestRules (hDefs : Identified defs) : RequestRules defs (KeepsCurrent defs) where
  guarded h hs := h hs.toWellKept hs
  mapHost f s hs := hs.replace s.storage (f s.host) s.attached
  attached attached s hs := hs.replace s.storage s.host attached
  readLetters _ hs := hs.readLetters
  add _ hd _ hs := hs.add hDefs hd
  takeOut d _ hs := hs.takeOut d

variable [HostVariables σ]

theorem applyPolicy (d : Definition σ) (why : Access) (value : Int32) (s : Options σ) :
    KeepsCurrent defs s (s.applyPolicy d why value).2 := by
  have hResult := Options.setResult_applyPolicy d why value s
  generalize s.applyPolicy d why value = result at hResult ⊢
  obtain ⟨storage, host, hAfter⟩ := hResult.exists_eq
  rw [hAfter]
  exact fun hs => hs.replace storage host s.attached

/-- Setting an option leads to current letters again, whatever setters do on the way. -/
theorem leads_setWithin (hDefs : Identified defs) (depth : Nat) (d : Definition σ) (why : Access) (value : Int32)
    (s : Options σ) : Leads (KeepsCurrent defs) (Update.setWithin depth d why value) s := by
  have hRules := requestRules hDefs
  refine hRules.setWithin (fun _ _ => True) (fun e why _ => applyPolicy e why) ?_ depth d why trivial value s
  intro e why _ setter _ set hSet value s
  have hOnly := (setter why value).only_true
  refine hRules.run (fun cell _ => writeCell cell) (fun request _ => ?_) (setter why value) hOnly s
  exact hRules.perform (fun e _ _ why => hSet e why trivial) fun e _ _ cell _ => writeCell cell

theorem leads_set (hDefs : Identified defs) (d : Definition σ) (why : Access) (value : Int32) (s : Options σ) :
    Leads (KeepsCurrent defs) (Update.set d why value) s :=
  .get_bind (leads_setWithin hDefs _ d why value s)

theorem leads_reinstateFlags (hDefs : Identified defs) (saved : SavedFlags) (s : Options σ) :
    Leads (KeepsCurrent defs) (Update.reinstateFlags saved) s :=
  (requestRules hDefs).reinstateFlags (fun flag _ e _ _ => leads_set hDefs e .scopeEnd flag.2) s

end KeepsCurrent

end Options

theorem Operation.keepsCurrent_run [HostVariables σ] {defs : Set (Definition σ)} (hDefs : Identified defs)
    (op : Operation σ) (hOp : ∀ d, op.added? = some d → d ∈ defs) (s : Options σ) :
    Leads (Options.KeepsCurrent defs) op.run s :=
  (Options.KeepsCurrent.requestRules hDefs).operate op hOp
    (fun e _ why _ => Options.KeepsCurrent.leads_set hDefs e why) (fun _ => Options.KeepsCurrent.writeCell) s

/-! ## Runs of calls -/

/-- A call on options that cache their letters. -/
inductive CachedCall (σ : Type) where
  | operate (op : Operation σ)
  /-- The program writes cells and its own state as it likes. -/
  | replace (storage : Storage) (host : σ)
  | letters
  | flagString (stateLetters : String)
  | savedFlags

namespace CachedCall

/-- The definition that the call adds. -/
def added? : CachedCall σ → Option (Definition σ)
  | operate op => op.added?
  | _ => none

variable [HostVariables σ]

def run : CachedCall σ → Options σ → Option (Options σ)
  | operate op, s => (op.run s).map (·.2)
  | replace storage host, s => some { s with storage, host }
  | letters, s => some s.readLetters.2
  | flagString stateLetters, s => some (s.readFlagString stateLetters).2
  | savedFlags, s => some s.readSavedFlags.2

def runAll (calls : List (CachedCall σ)) (s : Options σ) : Option (Options σ) :=
  calls.foldlM (fun s call => call.run s) s

variable {defs : Set (Definition σ)} {s after : Options σ}

theorem current_run (call : CachedCall σ) (hDefs : Identified defs) (hCall : ∀ d, call.added? = some d → d ∈ defs)
    (h : s.Current defs) (hRun : call.run s = some after) : after.Current defs := by
  cases call with
  | operate op =>
    obtain ⟨⟨answer, changed⟩, hResult, rfl⟩ := Option.map_eq_some_iff.mp hRun
    exact op.keepsCurrent_run hDefs hCall s answer changed hResult h
  | replace storage host =>
    cases hRun
    exact h.replace storage host s.attached
  | letters =>
    cases hRun
    exact h.readLetters
  | flagString stateLetters =>
    cases hRun
    exact h.readLetters
  | savedFlags =>
    cases hRun
    exact h.readLetters

theorem current_runAll (hDefs : Identified defs) {calls : List (CachedCall σ)}
    (hCalls : ∀ call ∈ calls, ∀ d, call.added? = some d → d ∈ defs) (h : s.Current defs)
    (hRun : runAll calls s = some after) : after.Current defs := by
  induction calls generalizing s with
  | nil =>
    cases hRun
    exact h
  | cons call rest ih =>
    obtain ⟨hCall, hRest⟩ := List.forall_mem_cons.mp hCalls
    obtain ⟨mid, hFirst, hRun⟩ := Option.bind_eq_some_iff.mp hRun
    exact ih hRest (call.current_run hDefs hCall h hFirst) hRun

omit [HostVariables σ] in
theorem current_of_empty (hEmpty : s.registry = .empty) (hUnasked : s.letters? = none)
    (hHeld : ∀ handle d, s.held.find? handle = some d → d ∈ defs) : s.Current defs := by
  refine ⟨⟨hEmpty ▸ Registry.wellKept_empty defs, hHeld⟩, fun letters hCached => ?_⟩
  rw [hUnasked] at hCached
  cases hCached

/-- After any calls on an empty registry the letters that are answered are those of the live definitions in strictly
ascending order, and `$-` lists those of the visible definitions that are on. Custom setters may take part with requests
of any kind, for the definitions that they hold too. -/
theorem letters_current_after_calls (hDefs : Identified defs) (calls : List (CachedCall σ))
    (hCalls : ∀ call ∈ calls, ∀ d, call.added? = some d → d ∈ defs) (start s : Options σ)
    (hEmpty : start.registry = .empty) (hUnasked : start.letters? = none)
    (hHeld : ∀ handle d, start.held.find? handle = some d → d ∈ defs) (hRun : runAll calls start = some s) :
    s.readLetters.1.Pairwise (· < ·) ∧ s.readLetters.1 = Registry.lettersOf s.registry.entries ∧
      ∀ stateLetters, (s.readFlagString stateLetters).1 = String.ofList
        (Registry.lettersOf ((s.registry.visible .flag).filter fun d => s.isOn d .flag)) ++ stateLetters := by
  have hCurrent := current_runAll hDefs hCalls (current_of_empty hEmpty hUnasked hHeld) hRun
  have hConsistent := hCurrent.registry.consistent
  rw [hCurrent.readLetters_eq]
  refine ⟨s.registry.pairwise_letters, hConsistent.letters_eq, fun stateLetters => ?_⟩
  rw [Registry.lettersOf_visible_flag, ← hConsistent.filter_letters]
  exact hCurrent.readFlagString_eq stateLetters

/-- The setter of `quiet` removes one letter, asks for the letters, and adds another option by its handle. -/
theorem letters_current_after_exchange_by_setter :
    let errexit : Definition Variables := { id := 0, name? := some "errexit", letter? := some 'e', cell? := some 0 }
    let xtrace : Definition Variables := { id := 1, name? := some "xtrace", letter? := some 'x', cell? := some 1 }
    let verbose : Definition Variables := { id := 3, name? := some "verbose", letter? := some 'v', cell? := some 3 }
    let setter : Setter Variables := fun why value => do
      let _ ← Script.remove "xtrace"
      let letters : List Char ← Script.request .letters
      let _ ← Script.request (.add 3)
      let _ ← Script.request (.set 3 why value)
      Script.store 2 value
      return if letters = ['e', 'q'] then .ok else .badValue
    let quiet : Definition Variables := { id := 2, letter? := some 'q', cell? := some 2, setter? := some setter }
    let defs : Set (Definition Variables) := {d | d ∈ [errexit, xtrace, quiet, verbose]}
    let calls := [operate (.add xtrace), operate (.add errexit), letters, operate (.add quiet), flagString "",
      operate (.setNamed "errexit" .setO 1), operate (.turnFlag 'q' '-')]
    let start : Options Variables := { held := .ofList [errexit, xtrace, quiet, verbose], host := .empty }
    Identified defs ∧ (∀ call ∈ calls, ∀ d, call.added? = some d → d ∈ defs) ∧
      (∀ handle d, start.held.find? handle = some d → d ∈ defs) ∧
      ∃ s, runAll calls start = some s ∧ Registry.lettersOf s.registry.entries = ['e', 'q', 'v'] ∧
        (s.readFlagString "s").1 = String.ofList
          (Registry.lettersOf ((s.registry.visible .flag).filter fun d => s.isOn d .flag)) ++ "s" := by
  intro errexit xtrace verbose setter quiet defs calls start
  have hDefs : Identified defs := identified_of_nodup (by decide)
  have hCalls : ∀ call ∈ calls, ∀ d, call.added? = some d → d ∈ defs := by
    simp [calls, defs, added?, Operation.added?]
  have hHeld : ∀ handle d, start.held.find? handle = some d → d ∈ defs :=
    fun handle d hFound => Handles.mem_of_find?_ofList hFound
  have hRuns : (runAll calls start).any (fun s => decide (s.readLetters.1 = ['e', 'q', 'v'])) = true := by
    decide +kernel
  obtain ⟨s, hRun, hLetters⟩ := (Option.any_eq_true _ _).mp hRuns
  obtain ⟨-, hLive, hFlags⟩ := letters_current_after_calls hDefs calls hCalls start s rfl rfl hHeld hRun
  rw [of_decide_eq_true hLetters] at hLive
  exact ⟨hDefs, hCalls, hHeld, s, hRun, hLive.symm, hFlags "s"⟩

end CachedCall

end OptionShell
