import OptionShell.Proofs.Options.LetterCache
import OptionShell.Proofs.Options.SavedFlags

/-!
# Restored flags

Flags that were saved are put back in a later state, whatever options came and went in between. Each saved letter that
still leads to an option gives it the saved value, and no other option changes. Doing it again finds nothing to do.
-/
namespace OptionShell

variable {σ : Type}

namespace Registry

/-- The live definitions are plain, and the end of a scope may write those with a letter. They can be fixed after the
start. -/
structure Restorable (r : Registry σ) : Prop extends Plain {d | d ∈ r.entries} where
  writable : ∀ d ∈ r.entries, d.letter?.isSome → d.readonly = false ∧ d.dropsChanges = false

variable {r : Registry σ} {d : Definition σ}

theorem Restorable.yieldsTo (h : r.Restorable) (hLive : d ∈ r.entries) (hLetter : d.letter?.isSome) :
    d.yieldsTo .scopeEnd = true := by
  obtain ⟨hReadonly, hDrops⟩ := h.writable d hLive hLetter
  rw [Definition.yieldsTo, hReadonly, hDrops]
  exact Bool.or_true _

/-- It is enough that the definitions of the family are of this kind. -/
theorem Within.restorable {defs : Set (Definition σ)} (h : r.Within defs) (hPlain : Plain defs)
    (hWritable : ∀ d ∈ defs, d.letter?.isSome → d.readonly = false ∧ d.dropsChanges = false) : r.Restorable where
  toPlain := hPlain.subset h.live
  writable d hLive := hWritable d (h.live d hLive)

/-- For whatever reason a live definition is read, its value is that of its cell. -/
theorem Restorable.exists_cell (h : r.Restorable) (hLive : d ∈ r.entries) :
    ∃ cell, d.cell? = some cell ∧ ∀ (s : Options σ) why, s.get d why = some (s.storage.read cell) := by
  obtain ⟨cell, hCell⟩ := Option.isSome_iff_exists.mp (h.stored d hLive)
  exact ⟨cell, hCell, Options.get_eq_read (h.noGetter d hLive) hCell⟩

end Registry

namespace Options

/-- Whether the letter leads to an option that does not have the saved value. -/
def differs (s : Options σ) (flag : Char × Int32) : Bool :=
  (s.registry.findLetter? flag.1).any fun d => s.get d .scopeEnd ≠ some flag.2

/-- What putting saved flags back in `s` does. -/
structure Reinstates (flags : List (Char × Int32)) (s : Options σ) (count : Nat) (after : Options σ) : Prop where
  registry : after.registry = s.registry
  /-- A saved letter that leads to an option gives it the saved value. -/
  set : ∀ flag ∈ flags, ∀ d, s.registry.findLetter? flag.1 = some d → ∀ why, after.get d why = some flag.2
  kept : ∀ d ∈ s.registry.entries, (∀ flag ∈ flags, d.letter? ≠ some flag.1) → ∀ why, after.get d why = s.get d why
  /-- Cells that belong to no live definition are kept as well. -/
  cells : ∀ cell, (∀ d ∈ s.registry.entries, d.cell? = some cell → ∀ flag ∈ flags, d.letter? ≠ some flag.1) →
    after.storage.read cell = s.storage.read cell
  count : count = flags.countP s.differs

variable {s mid after : Options σ} {flag : Char × Int32} {flags : List (Char × Int32)} {count more : Nat}

namespace Reinstates

theorem nil (s : Options σ) : Reinstates [] s 0 s where
  registry := rfl
  set _ hFlag := nomatch hFlag
  kept _ _ _ _ := rfl
  cells _ _ := rfl
  count := rfl

/-- Nothing is to be done for a flag that does not differ. -/
theorem unchanged (hConsistent : s.registry.Consistent) (h : s.registry.Restorable) (hSame : s.differs flag = false) :
    Reinstates [flag] s 0 s where
  registry := rfl
  set := by
    refine List.forall_mem_singleton.mpr fun d hFound why => ?_
    obtain ⟨cell, -, hGet⟩ := h.exists_cell ((hConsistent.lettered flag.1 d).mp hFound).1
    rw [differs, hFound, Option.any_some, decide_eq_false_iff_not, not_not, hGet] at hSame
    rw [hGet, hSame]
  kept _ _ _ _ := rfl
  cells _ _ := rfl
  count := by rw [List.countP_singleton, hSame]; rfl

/-- Nothing is left to do after flags were put back. -/
theorem countP_differs (h : Reinstates flags s count after) : flags.countP after.differs = 0 := by
  rw [List.countP_eq_zero]
  intro flag hFlag hDiffers
  rw [differs, h.registry] at hDiffers
  obtain ⟨d, hFound, hOther⟩ := (Option.any_eq_true _ _).mp hDiffers
  exact of_decide_eq_true hOther (h.set flag hFlag d hFound .scopeEnd)

/-- One flag after the other, if the letters are different ones. -/
theorem cons (hConsistent : s.registry.Consistent) (hApart : ∀ other ∈ flags, other.1 ≠ flag.1)
    (hFirst : Reinstates [flag] s count mid) (hRest : Reinstates flags mid more after) :
    Reinstates (flag :: flags) s (count + more) after where
  registry := hRest.registry.trans hFirst.registry
  set := by
    have hOthers := hFirst.registry ▸ hRest.set
    refine List.forall_mem_cons.mpr ⟨fun d hFound why => ?_, hOthers⟩
    obtain ⟨hLive, hLetter⟩ := (hConsistent.lettered flag.1 d).mp hFound
    rw [hRest.kept d (hFirst.registry ▸ hLive)]
    · exact hFirst.set flag List.mem_cons_self d hFound why
    · intro other hOther hShared
      exact hApart other hOther (Option.some.inj (hShared.symm.trans hLetter))
  kept d hLive hLetters why := by
    obtain ⟨hLetter, hLetters⟩ := List.forall_mem_cons.mp hLetters
    rw [hRest.kept d (hFirst.registry ▸ hLive) hLetters]
    exact hFirst.kept d hLive (by simpa using hLetter) why
  cells cell hCell := by
    have hOthers := hRest.cells cell
    rw [hFirst.registry] at hOthers
    rw [hOthers fun d hLive hOwn => (List.forall_mem_cons.mp (hCell d hLive hOwn)).2]
    apply hFirst.cells cell
    intro d hLive hOwn
    simpa using (List.forall_mem_cons.mp (hCell d hLive hOwn)).1
  count := by
    -- The first flag leaves the options of the other letters as they are.
    have hSame : ∀ other ∈ flags, mid.differs other = s.differs other := by
      intro other hOther
      rw [differs, differs, hFirst.registry]
      cases hFound : s.registry.findLetter? other.1 with
      | none => rfl
      | some d =>
        obtain ⟨hLive, hLetter⟩ := (hConsistent.lettered other.1 d).mp hFound
        rw [Option.any_some, Option.any_some, hFirst.kept d hLive]
        simpa [hLetter] using hApart other hOther
    have hMore : more = flags.countP s.differs := by
      rw [hRest.count]
      exact List.countP_congr fun other hOther => by rw [hSame other hOther]
    rw [hFirst.count, hMore]
    change _ = ([flag] ++ flags).countP s.differs
    rw [List.countP_append]

end Reinstates

theorem pairwise_savedFlags (s : Options σ) : s.savedFlags.values.Pairwise fun flag other => flag.1 < other.1 := by
  rw [savedFlags, valuesOf, List.pairwise_filterMap]
  refine s.registry.pairwise_letters.imp ?_
  intro letter other hAscending flag hFlag next hNext
  simp only [Option.bind_eq_some_iff, Option.map_eq_some_iff] at hFlag hNext
  obtain ⟨d, -, value, -, rfl⟩ := hFlag
  obtain ⟨e, -, later, -, rfl⟩ := hNext
  exact hAscending

/-- If the letters are those from before, all flags have their saved values. -/
theorem Reinstates.savedFlags_eq {t : Options σ} (h : Reinstates s.savedFlags.values t count after)
    (hStored : ∀ letter d, s.registry.findLetter? letter = some d → ∃ value, s.get d .scopeEnd = some value)
    (hLetters : t.registry.letters = s.registry.letters) : after.savedFlags = s.savedFlags := by
  rw [savedFlags, savedFlags, valuesOf, valuesOf, h.registry, hLetters]
  congr 1
  apply List.filterMap_congr
  intro letter hLetter
  obtain ⟨d, hFound⟩ := Registry.mem_letters_iff.mp hLetter
  obtain ⟨e, hLater⟩ := Registry.mem_letters_iff.mp (hLetters ▸ hLetter)
  obtain ⟨value, hValue⟩ := hStored letter d hFound
  have hSaved : (letter, value) ∈ s.savedFlags.values := by
    rw [mem_savedFlags_iff, valueLettered, hFound]
    exact hValue
  rw [hFound, hLater, Option.bind_some, Option.bind_some, h.set _ hSaved e hLater, hValue]

variable [HostVariables σ]

/-- Putting one flag back sets the option that its letter leads to, if it leads to one. -/
theorem ensures_reinstateFlag (hConsistent : s.registry.Consistent) (h : s.registry.Restorable)
    (flag : Char × Int32) :
    Ensures (Update.reinstateFlag flag.1 flag.2) s fun changed after =>
      Reinstates [flag] s (if changed then 1 else 0) after := by
  apply Ensures.get_bind
  split
  · rename_i hNone
    exact .pure (.unchanged hConsistent h (by rw [differs, hNone]; rfl))
  · rename_i d hFound
    split
    · rename_i hSame
      exact .pure (.unchanged hConsistent h (by simp [differs, hFound, hSame]))
    · rename_i hOther
      obtain ⟨hLive, hLetter⟩ := (hConsistent.lettered flag.1 d).mp hFound
      obtain ⟨cell, hCell, hGet⟩ := h.exists_cell hLive
      have hYields := h.yieldsTo hLive (hLetter ▸ rfl)
      refine (ensures_set_of_yieldsTo (h.noSetter d hLive) hYields hCell flag.2 s).bind ?_
      rintro outcome after ⟨rfl, hResult⟩
      obtain ⟨storage, host, hAfter⟩ := hResult.exists_eq
      refine .pure ⟨hAfter ▸ rfl, ?_, fun e he hApart why => ?_, fun own hApart => ?_, ?_⟩
      · refine List.forall_mem_singleton.mpr fun e hOwn why => ?_
        cases hFound.symm.trans hOwn
        rw [hGet, hResult.read_own hCell]
      · obtain ⟨own, hOwn, hGetOther⟩ := h.exists_cell he
        have hCells : d.cell? ≠ some own := by
          intro hShared
          obtain rfl := h.ownCells d hLive e he (hShared.trans hOwn.symm)
          exact hApart flag List.mem_cons_self hLetter
        rw [hGetOther, hGetOther, hResult.read_of_ne hCells]
      · exact hResult.read_of_ne fun hOwn => hApart d hLive hOwn flag List.mem_cons_self hLetter
      · simp [differs, hFound, hOther]

theorem ensures_reinstateFlags (hConsistent : s.registry.Consistent) (h : s.registry.Restorable)
    {saved : SavedFlags} (hLetters : saved.values.Pairwise fun flag other => flag.1 < other.1) :
    Ensures (Update.reinstateFlags saved) s fun count after => Reinstates saved.values s count after := by
  obtain ⟨flags⟩ := saved
  have hFolded : ∀ done, Ensures (flags.foldlM (fun count flag =>
      return if ← Update.reinstateFlag flag.1 flag.2 then count + 1 else count) done) s fun total after =>
      ∃ count, total = done + count ∧ Reinstates flags s count after := by
    induction flags generalizing s with
    | nil => exact fun done => .pure ⟨0, rfl, .nil s⟩
    | cons flag rest ih =>
      intro done
      obtain ⟨hFlag, hRest⟩ := List.pairwise_cons.mp hLetters
      rw [List.foldlM_cons, bind_assoc]
      refine (ensures_reinstateFlag hConsistent h flag).bind fun changed mid hFirst => ?_
      rw [pure_bind]
      refine (ih (hFirst.registry ▸ hConsistent) (hFirst.registry ▸ h) hRest _).mono ?_
      rintro total after ⟨count, rfl, hAfter⟩
      refine ⟨_, ?_, hFirst.cons hConsistent (fun other hOther => (hFlag other hOther).ne') hAfter⟩
      cases changed
      · simp
      · simp [Nat.add_assoc]
  refine (hFolded 0).mono ?_
  rintro total after ⟨count, rfl, hAfter⟩
  rw [Nat.zero_add]
  exact hAfter

end Options

namespace CachedCall

variable [HostVariables σ] {defs : Set (Definition σ)}

/-- Flags are saved in a state that calls on an empty registry led to, and put back after any others. What is registered
in both states is plain, with letters for definitions that can be written only. Then each saved letter that still leads
to an option sets it, nothing else changes, a second time nothing is left to do, and between equal letters the flags
are those that were saved. -/
theorem flags_restored_after_calls (hDefs : Identified defs) (before later : List (CachedCall σ))
    (hBefore : ∀ call ∈ before, ∀ d, call.added? = some d → d ∈ defs)
    (hLater : ∀ call ∈ later, ∀ d, call.added? = some d → d ∈ defs) (start s t : Options σ)
    (hEmpty : start.registry = .empty) (hUnasked : start.letters? = none)
    (hHeld : ∀ handle d, start.held.find? handle = some d → d ∈ defs) (hFirst : runAll before start = some s)
    (hSecond : runAll later s.readSavedFlags.2 = some t) (hs : s.registry.Restorable) (ht : t.registry.Restorable) :
    ∃ count after, Update.reinstateFlags s.readSavedFlags.1 t = some (count, after) ∧
      Options.Reinstates s.readSavedFlags.1.values t count after ∧
      (∃ final, Update.reinstateFlags s.readSavedFlags.1 after = some (0, final)) ∧
      (t.readLetters.1 = s.readLetters.1 → after.readSavedFlags.1 = s.readSavedFlags.1) := by
  have hSaving := current_runAll hDefs hBefore (current_of_empty hEmpty hUnasked hHeld) hFirst
  have hRestoring := current_runAll hDefs hLater hSaving.readLetters hSecond
  have hConsistent := hRestoring.registry.consistent
  rw [hSaving.readSavedFlags_eq, hSaving.readLetters_eq, hRestoring.readLetters_eq]
  have hAscending := s.pairwise_savedFlags
  obtain ⟨count, after, hRun, hAfter⟩ := Options.ensures_reinstateFlags hConsistent ht hAscending
  have hRegistry := hAfter.registry
  obtain ⟨again, final, hAgain, hFinal⟩ :=
    Options.ensures_reinstateFlags (hRegistry ▸ hConsistent) (hRegistry ▸ ht) hAscending
  obtain rfl : again = 0 := hFinal.count.trans hAfter.countP_differs
  refine ⟨count, after, hRun, hAfter, ⟨final, hAgain⟩, fun hLetters => ?_⟩
  rw [(Options.KeepsCurrent.leads_reinstateFlags hDefs _ t count after hRun hRestoring).readSavedFlags_eq]
  refine hAfter.savedFlags_eq (fun letter d hFound => ?_) hLetters
  obtain ⟨cell, -, hGet⟩ := hs.exists_cell ((hSaving.registry.consistent.lettered letter d).mp hFound).1
  exact ⟨_, hGet s .scopeEnd⟩

/-- One letter goes, another one comes to lead to a different option, and a third one is new. -/
theorem flags_restored_after_rebinding :
    let errexit : Definition Variables :=
      { id := 0, name? := some "errexit", letter? := some 'e', cell? := some 0, fixedAfterStart := true }
    let xtrace : Definition Variables := { id := 1, name? := some "xtrace", letter? := some 'x', cell? := some 1 }
    let nounset : Definition Variables := { id := 2, name? := some "nounset", letter? := some 'u', cell? := some 2 }
    let execute : Definition Variables := { id := 3, name? := some "execute", letter? := some 'x', cell? := some 3 }
    let verbose : Definition Variables := { id := 4, name? := some "verbose", letter? := some 'v', cell? := some 4 }
    let defs : Set (Definition Variables) := {d | d ∈ [errexit, xtrace, nounset, execute, verbose]}
    let before := [operate (.add errexit), operate (.add xtrace), operate (.add nounset),
      operate (.setNamed "errexit" .arguments 1), operate (.turnFlag 'x' '-'), operate (.turnFlag 'u' '-')]
    let later := [operate (.remove xtrace), operate (.add execute), operate (.remove nounset), operate (.add verbose),
      replace (.ofList [0, 7, 8, 0, 9]) .empty]
    let start : Options Variables := { host := .empty }
    Identified defs ∧ (∀ call ∈ before, ∀ d, call.added? = some d → d ∈ defs) ∧
      (∀ call ∈ later, ∀ d, call.added? = some d → d ∈ defs) ∧
      (∀ handle d, start.held.find? handle = some d → d ∈ defs) ∧
      ∃ s t after, runAll before start = some s ∧ s.readSavedFlags.1.values = [('e', 1), ('u', 1), ('x', 1)] ∧
      runAll later s.readSavedFlags.2 = some t ∧ s.registry.Restorable ∧ t.registry.Restorable ∧
      Update.reinstateFlags s.readSavedFlags.1 t = some (2, after) ∧
      Options.Reinstates [('e', 1), ('u', 1), ('x', 1)] t 2 after ∧
      ∃ final, Update.reinstateFlags s.readSavedFlags.1 after = some (0, final) := by
  intro errexit xtrace nounset execute verbose defs before later start
  have hPlain : Plain defs :=
    plain_of_nodup (by decide) (by decide) (by simp [errexit, xtrace, nounset, execute, verbose])
  have hWritable : ∀ d ∈ defs, d.letter?.isSome → d.readonly = false ∧ d.dropsChanges = false := by
    simp [defs, errexit, xtrace, nounset, execute, verbose]
  have hBefore : ∀ call ∈ before, ∀ d, call.added? = some d → d ∈ defs := by
    simp [before, defs, added?, Operation.added?]
  have hLater : ∀ call ∈ later, ∀ d, call.added? = some d → d ∈ defs := by
    simp [later, defs, added?, Operation.added?]
  have hHeld : ∀ handle d, start.held.find? handle = some d → d ∈ defs := by simp [start, Handles.none]
  have hRuns : (runAll before start).any (fun s => decide (s.readSavedFlags.1.values = [('e', 1), ('u', 1), ('x', 1)]) &&
      (runAll later s.readSavedFlags.2).any fun t =>
        decide (s.readSavedFlags.1.values.countP t.differs = 2)) = true := by decide +kernel
  obtain ⟨s, hFirst, hRuns⟩ := (Option.any_eq_true _ _).mp hRuns
  obtain ⟨hSaved, hRuns⟩ := Bool.and_eq_true_iff.mp hRuns
  obtain ⟨t, hSecond, hCount⟩ := (Option.any_eq_true _ _).mp hRuns
  have hSaving := current_runAll hPlain.identified hBefore (current_of_empty rfl rfl hHeld) hFirst
  have hRestoring := current_runAll hPlain.identified hLater hSaving.readLetters hSecond
  have hs := hSaving.registry.within.restorable hPlain hWritable
  have ht := hRestoring.registry.within.restorable hPlain hWritable
  obtain ⟨count, after, hRun, hAfter, hAgain, -⟩ := flags_restored_after_calls hPlain.identified before later hBefore
    hLater start s t rfl rfl hHeld hFirst hSecond hs ht
  obtain rfl : count = 2 := hAfter.count.trans (of_decide_eq_true hCount)
  have hValues := of_decide_eq_true hSaved
  rw [hValues] at hAfter
  exact ⟨hPlain.identified, hBefore, hLater, hHeld, s, t, after, hFirst, hValues, hSecond, hs, ht, hRun, hAfter, hAgain⟩

end CachedCall

end OptionShell
