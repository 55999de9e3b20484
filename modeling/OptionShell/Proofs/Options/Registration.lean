import OptionShell.Proofs.Options.LetterCache

/-!
# All or nothing

Adding a definition to a registry that calls have led to puts it under all of its keys, or changes nothing at all.
Removing it again brings back the order and the letters from before.
-/
namespace OptionShell

variable {σ : Type}

namespace Registry

variable {r : Registry σ} {d : Definition σ}

/-- Some live definition other than `d` has its name or its letter. -/
def Clashes (r : Registry σ) (d : Definition σ) : Prop :=
  ∃ e ∈ r.entries, e ≠ d ∧
    ((∃ name, d.name? = some name ∧ e.name? = some name) ∨ ∃ letter, d.letter? = some letter ∧ e.letter? = some letter)

/-- The letter of the definition is none that an option can have. -/
def Mislettered (d : Definition σ) : Prop := ∃ letter, d.letter? = some letter ∧ ¬('!' ≤ letter ∧ letter ≤ '~')

theorem not_mislettered (hLetter : ∀ letter, d.letter? = some letter → isOptionLetter letter = true) :
    ¬Mislettered d := by
  rintro ⟨letter, hSome, hOut⟩
  exact hOut (by simpa [isOptionLetter] using hLetter letter hSome)

theorem not_clashes_of_live (h : r.Consistent) (hLive : d ∈ r.entries) : ¬r.Clashes d := by
  rintro ⟨e, he, hne, ⟨name, hdName, heName⟩ | ⟨letter, hdLetter, heLetter⟩⟩
  · exact hne (eq_of_name?_eq he hLive heName hdName)
  · have hFound := (h.lettered letter e).mpr ⟨he, heLetter⟩
    rw [(h.lettered letter d).mpr ⟨hLive, hdLetter⟩] at hFound
    exact hne (Option.some.inj hFound).symm

/-- The outcome of adding says how the definition stands to the live ones. -/
structure Classified (r : Registry σ) (d : Definition σ) (outcome : Outcome) : Prop where
  badValue : outcome = .badValue ↔ Mislettered d
  duplicate : outcome = .duplicate ↔ ¬Mislettered d ∧ r.Clashes d
  unchanged : outcome = .unchanged ↔ ¬Mislettered d ∧ ¬r.Clashes d ∧ d ∈ r.entries
  ok : outcome = .ok ↔ ¬Mislettered d ∧ ¬r.Clashes d ∧ d ∉ r.entries

theorem classified_add (h : r.Consistent) (hd : ∀ e ∈ r.entries, e.id = d.id → e = d) :
    r.Classified d (r.add d).1 := by
  have hAddition := addition_add h hd
  generalize r.add d = result at hAddition
  cases hAddition with
  | badLetter hLetter =>
    obtain ⟨letter, hSome, hBad⟩ := hLetter
    have hMislettered : Mislettered d := ⟨letter, hSome, by simpa [isOptionLetter] using hBad⟩
    constructor <;> simp [hMislettered]
  | clash hLetter e he hId hShared =>
    have hClash : r.Clashes d := ⟨e, he, fun hSame => hId (hSame ▸ rfl), Definition.sharesKey_iff.mp hShared⟩
    constructor <;> simp [not_mislettered hLetter, hClash]
  | known hLetter hLive =>
    constructor <;> simp [not_mislettered hLetter, not_clashes_of_live h hLive, hLive]
  | fresh hLetter hFresh =>
    have hUnclashed : ¬r.Clashes d := by
      rintro ⟨e, he, -, hShared⟩
      rw [← Definition.sharesKey_iff, (hFresh e he).2] at hShared
      cases hShared
    have hNew : d ∉ r.entries := fun hLive => (hFresh d hLive).1 rfl
    constructor <;> simp [not_mislettered hLetter, hUnclashed, hNew]

theorem fresh_of_ok (h : r.Consistent) (hd : ∀ e ∈ r.entries, e.id = d.id → e = d) (hOk : (r.add d).1 = .ok) :
    (r.add d).2 = r.insert d ∧ ∀ e ∈ r.entries, e.id ≠ d.id ∧ d.sharesKey e = false := by
  have hAddition := addition_add h hd
  generalize r.add d = result at hAddition hOk
  cases hAddition with
  | badLetter hLetter => cases hOk
  | clash hLetter e he hId hShared => cases hOk
  | known hLetter hLive => cases hOk
  | fresh hLetter hFresh => exact ⟨rfl, hFresh⟩

/-- Nothing of an added definition stays behind when it is removed. -/
theorem remove_add (h : r.Consistent) (hd : ∀ e ∈ r.entries, e.id = d.id → e = d) (hOk : (r.add d).1 = .ok) :
    (r.add d).2.remove d = r := by
  have hNew : r.holds d = false := by
    rw [Bool.eq_false_iff]
    intro hHeld
    obtain ⟨e, he, hId⟩ := (holds_iff h).mp hHeld
    exact ((fresh_of_ok h hd hOk).2 e he).1 hId
  exact (removeEach_addEach [d] r).trans (remove_of_not_holds hNew)

theorem holds_add (h : r.Consistent) (hd : ∀ e ∈ r.entries, e.id = d.id → e = d) (hOk : (r.add d).1 = .ok) :
    (r.add d).2.holds d = true := by
  have hLive : d ∈ (r.add d).2.entries := (mem_entries_add_iff h hd).mpr (.inr ⟨rfl, by rw [hOk]; rfl⟩)
  rw [holds, List.any_eq_true]
  exact ⟨d, List.mem_append_left _ hLive, decide_eq_true rfl⟩

end Registry

namespace Options

variable [HostVariables σ] {defs : Set (Definition σ)} {d : Definition σ} {s : Options σ}

/-- An option that was just added can be removed, and then the registry is the one from before. -/
theorem Current.remove_add (h : s.Current defs) (hDefs : Identified defs) (hd : d ∈ defs) (hOk : (s.add d).1 = .ok) :
    ((s.add d).2.remove d).1 = .ok ∧ ((s.add d).2.remove d).2.registry = s.registry := by
  have hId : ∀ e ∈ s.registry.entries, e.id = d.id → e = d := fun e he => hDefs e (h.registry.within.live e he) d hd
  have hLive : (s.add d).2.registry.holds d = true := Registry.holds_add h.registry.consistent hId hOk
  obtain ⟨host, hRemoved⟩ := exists_remove_eq d (s.add d).2
  constructor
  · rw [Options.remove, if_pos hLive]
  · rw [hRemoved]
    exact Registry.remove_add h.registry.consistent hId hOk

end Options

namespace CachedCall

variable [HostVariables σ] {defs : Set (Definition σ)} {d : Definition σ}

/-- In whatever state calls on an empty registry have led to: a definition with a bad letter is refused, and so is one
whose name or letter another live definition has. A live one is left as it is. In all of these cases nothing changes,
not even the cached letters. Any other definition is found by its keys from then on, every other lookup stays the same,
and removing it brings back the registry and the letters. -/
theorem added_whole_or_not_at_all (hDefs : Identified defs) (calls : List (CachedCall σ))
    (hCalls : ∀ call ∈ calls, ∀ d, call.added? = some d → d ∈ defs) (start s : Options σ)
    (hEmpty : start.registry = .empty) (hUnasked : start.letters? = none)
    (hHeld : ∀ handle d, start.held.find? handle = some d → d ∈ defs) (hRun : runAll calls start = some s)
    (hd : d ∈ defs) :
    s.registry.Classified d (s.add d).1 ∧ ((s.add d).1 ≠ .ok → (s.add d).2 = s) ∧
      ((s.add d).1 = .ok →
        (∀ name, (s.add d).2.registry.findName? name =
          if d.name? = some name then some d else s.registry.findName? name) ∧
        (∀ letter, (s.add d).2.registry.findLetter? letter =
          if d.letter? = some letter then some d else s.registry.findLetter? letter) ∧
        ((s.add d).2.remove d).1 = .ok ∧ ((s.add d).2.remove d).2.registry = s.registry ∧
        ((s.add d).2.remove d).2.readLetters.1 = s.readLetters.1) := by
  have hCurrent := current_runAll hDefs hCalls (current_of_empty hEmpty hUnasked hHeld) hRun
  have hConsistent := hCurrent.registry.consistent
  have hId : ∀ e ∈ s.registry.entries, e.id = d.id → e = d :=
    fun e he => hDefs e (hCurrent.registry.within.live e he) d hd
  refine ⟨Registry.classified_add hConsistent hId, Options.add_of_ne_ok, fun hOk => ?_⟩
  obtain ⟨hInserted, hFresh⟩ := Registry.fresh_of_ok hConsistent hId hOk
  replace hInserted : (s.add d).2.registry = s.registry.insert d := hInserted
  obtain ⟨hRemoved, hRegistry⟩ := hCurrent.remove_add hDefs hd hOk
  have hRules := Options.KeepsCurrent.requestRules hDefs
  have hLetters := (hRules.remove d _ (hCurrent.add hDefs hd)).readLetters_eq
  rw [hInserted]
  have hKeys : ∀ e ∈ s.registry.entries, d.sharesKey e = false := fun e he => (hFresh e he).2
  refine ⟨Registry.findName?_insert hKeys, s.registry.findLetter?_insert d, hRemoved, hRegistry, ?_⟩
  rw [hLetters, hRegistry, hCurrent.readLetters_eq]

/-- A name that is free does not help if the letter is taken. -/
theorem added_whole_or_not_at_all_under_taken_letter :
    let posix : Definition Variables := { id := 0, name? := some "posix", letter? := some 'p' }
    let pipe : Definition Variables := { id := 1, name? := some "pipe", letter? := some 'p' }
    let unnamed : Definition Variables := { id := 2, letter? := some 'u' }
    let defs : Set (Definition Variables) := {d | d ∈ [posix, pipe, unnamed]}
    let calls := [operate (.add posix), letters]
    let start : Options Variables := { host := .empty }
    Identified defs ∧ (∀ call ∈ calls, ∀ d, call.added? = some d → d ∈ defs) ∧
      (∀ handle d, start.held.find? handle = some d → d ∈ defs) ∧
      ∃ s, runAll calls start = some s ∧ (s.add pipe).1 = .duplicate ∧ s.registry.Clashes pipe ∧ (s.add pipe).2 = s ∧
        (s.add unnamed).1 = .ok ∧ ((s.add unnamed).2.remove unnamed).2.registry = s.registry := by
  intro posix pipe unnamed defs calls start
  have hDefs : Identified defs := identified_of_nodup (by decide)
  have hCalls : ∀ call ∈ calls, ∀ d, call.added? = some d → d ∈ defs := by
    simp [calls, defs, added?, Operation.added?]
  have hHeld : ∀ handle d, start.held.find? handle = some d → d ∈ defs := by simp [start, Handles.none]
  have hRuns : (runAll calls start).any (fun s =>
      decide ((s.add pipe).1 = .duplicate ∧ (s.add unnamed).1 = .ok)) = true := by decide +kernel
  obtain ⟨s, hRun, hOutcomes⟩ := (Option.any_eq_true _ _).mp hRuns
  obtain ⟨hDuplicate, hOk⟩ := of_decide_eq_true hOutcomes
  obtain ⟨hClassified, hSame, -⟩ := added_whole_or_not_at_all (d := pipe) hDefs calls hCalls start s rfl rfl hHeld hRun
    (by simp [defs])
  obtain ⟨-, -, hAdded⟩ := added_whole_or_not_at_all (d := unnamed) hDefs calls hCalls start s rfl rfl hHeld hRun
    (by simp [defs])
  refine ⟨hDefs, hCalls, hHeld, s, hRun, hDuplicate, (hClassified.duplicate.mp hDuplicate).2, hSame ?_, hOk,
    (hAdded hOk).2.2.2.1⟩
  rw [hDuplicate]
  decide

end CachedCall

end OptionShell
