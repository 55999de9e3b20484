import OptionShell.Options.Setter
import OptionShell.Proofs.Registry.Consistency

/-!
# Adding definitions and removing them again

Removing definitions leaves what a test on definitions selects, and a selection does not notice that definitions which
it drops were added. So adding some and removing them again leaves what removing them would have left: the registry as
it was, if none of them was registered before. Nothing here needs the registry to be consistent.
-/
namespace OptionShell

variable {σ : Type}

namespace Registry

variable {r : Registry σ} {d e : Definition σ} {defs : List (Definition σ)} {p : Definition σ → Bool}

/-- Adds definitions in order, and goes on after those that are refused. -/
def addEach (defs : List (Definition σ)) (r : Registry σ) : Registry σ := defs.foldl (fun r d => (r.add d).2) r

def removeEach (defs : List (Definition σ)) (r : Registry σ) : Registry σ := defs.foldl (fun r d => r.remove d) r

/-- The definitions that are accepted when they are added in order, up to the first that is refused. -/
def accepted : List (Definition σ) → Registry σ → List (Definition σ)
  | [], _ => []
  | d :: rest, r => if (r.add d).1.isAccepted then d :: accepted rest (r.add d).2 else []

/-! ## What adding changes -/

theorem add_cases (r : Registry σ) (d : Definition σ) :
    (r.add d).2 = r ∨ ∃ placed, (placed = r ∨ r.placeState d = .free ∧ placed = r.addPlace d) ∧
      ((r.add d).2 = placed ∨ r.letterState d = .free ∧ (r.add d).2 = placed.addLetter d) := by
  rw [add]
  split
  · exact .inl rfl
  · dsimp only
    split
    · exact .inl rfl
    · split
      · exact .inl rfl
      · refine .inr ⟨if r.placeState d = .free then r.addPlace d else r, ?_, ?_⟩
        · split
          · rename_i hFree
            exact .inr ⟨hFree, rfl⟩
          · exact .inl rfl
        · split
          · rename_i hFree
            exact .inr ⟨hFree, rfl⟩
          · exact .inl rfl

theorem add_of_ne_ok (h : (r.add d).1 ≠ .ok) : (r.add d).2 = r := by
  rw [add] at h ⊢
  split
  · rfl
  · rename_i hLetter
    rw [if_neg hLetter] at h
    dsimp only at h ⊢
    split
    · rfl
    · rename_i hTaken
      rw [if_neg hTaken] at h
      split
      · rfl
      · rename_i hHeld
        rw [if_neg hHeld] at h
        exact absurd rfl h

theorem eq_none_of_keyState_free {occupant? : Option (Definition σ)} (h : keyState d occupant? = .free) :
    occupant? = none := by
  unfold keyState at h
  split at h
  · rfl
  · split at h <;> cases h

theorem findName?_eq_none_of_free (hFree : r.placeState d = .free) {name : String} (hName : d.name? = some name) :
    r.findName? name = none := by
  rw [placeState, hName] at hFree
  exact eq_none_of_keyState_free hFree

/-! ## Selections -/

theorem named_eq_countP (r : Registry σ) : r.named = r.entries.countP fun d => d.name?.isSome := by
  have hFront : (r.entries.take r.named).countP (fun d => d.name?.isSome) = r.named := by
    rw [List.countP_eq_length.mpr r.arranged.isSome, r.arranged.length_take]
  have hBack : (r.entries.drop r.named).countP (fun d => d.name?.isSome) = 0 := by
    rw [List.countP_eq_zero]
    intro d hd
    rw [r.arranged.isNone d hd]
    exact Bool.false_ne_true
  have hParts := List.take_append_drop r.named r.entries
  rw [← hParts, List.countP_append, hFront, hBack, Nat.add_zero]

/-- The sequence and the letters make a registry. -/
theorem eq_of_entries_eq {other : Registry σ} (hEntries : r.entries = other.entries)
    (hLetters : r.byLetter = other.byLetter) : r = other := by
  have hNamed : r.named = other.named := by rw [named_eq_countP, named_eq_countP, hEntries]
  obtain ⟨entries, named, byLetter, arranged⟩ := r
  obtain ⟨others, count, letters, order⟩ := other
  cases hEntries
  cases hLetters
  cases hNamed
  rfl

theorem select_select (p q : Definition σ → Bool) (r : Registry σ) :
    (r.select p).select q = r.select fun d => p d && q d := by
  refine eq_of_entries_eq ?_ (Table.eq_of_entries_eq ?_)
  · exact List.filter_filter.trans (by simp only [Bool.and_comm]; rfl)
  · simp only [select, Table.filter, List.filter_filter, Bool.and_comm]

theorem select_eq_self_iff : r.select p = r ↔ ∀ d ∈ r.entries ++ r.byLetter.values, p d = true := by
  rw [List.forall_mem_append, Table.values, List.forall_mem_map, ← List.filter_eq_self, ← List.filter_eq_self]
  constructor
  · intro hSame
    exact ⟨congrArg entries hSame, congrArg (fun r => r.byLetter.entries) hSame⟩
  · rintro ⟨hEntries, hLetters⟩
    exact eq_of_entries_eq hEntries (Table.eq_of_entries_eq hLetters)

theorem select_addPlace (hFree : r.placeState d = .free) (hd : p d = false) :
    (r.addPlace d).select p = r.select p := by
  obtain ⟨front, back, hEntries, hAdded⟩ := exists_entries_addPlace fun _ => findName?_eq_none_of_free hFree
  refine eq_of_entries_eq ?_ ?_
  · change (r.addPlace d).entries.filter p = r.entries.filter p
    rw [hEntries, hAdded, List.filter_append, List.filter_append, List.filter_cons, hd, if_neg Bool.false_ne_true]
  · change (r.addPlace d).byLetter.filter (fun _ e => p e) = r.byLetter.filter fun _ e => p e
    rw [byLetter_addPlace]

theorem select_addLetter (placed : Registry σ) (hFree : placed.letterState d = .free) (hd : p d = false) :
    (placed.addLetter d).select p = placed.select p := by
  rw [addLetter]
  split
  · rename_i letter hLetter
    have hUnused : placed.byLetter.find? letter = none := by
      rw [letterState, hLetter] at hFree
      exact eq_none_of_keyState_free hFree
    simp only [select, Table.filter_insert (p := fun _ d => p d) hUnused hd]
  · rfl

theorem select_add (hd : p d = false) : (r.add d).2.select p = r.select p := by
  obtain hSame | ⟨placed, hPlaced, hLettered⟩ := add_cases r d
  · rw [hSame]
  · have hPlace : placed.select p = r.select p := by
      obtain rfl | ⟨hFree, rfl⟩ := hPlaced
      · rfl
      · exact select_addPlace hFree hd
    have hLetters : placed.letterState d = r.letterState d := by
      obtain rfl | ⟨-, rfl⟩ := hPlaced
      · rfl
      · simp only [letterState, findLetter?, byLetter_addPlace]
    obtain hSame | ⟨hFree, hSame⟩ := hLettered
    · rw [hSame, hPlace]
    · rw [hSame, select_addLetter placed (hLetters.trans hFree) hd, hPlace]

theorem select_addEach (hDefs : ∀ d ∈ defs, p d = false) : (r.addEach defs).select p = r.select p := by
  induction defs generalizing r with
  | nil => rfl
  | cons d rest ih =>
    obtain ⟨hd, hRest⟩ := List.forall_mem_cons.mp hDefs
    exact (ih hRest).trans (select_add hd)

/-! ## Additions -/

/-- Definitions that are all accepted are live afterwards, beside those that were. -/
theorem consistent_addEach {family : Set (Definition σ)} (hFamily : Identified family) (h : r.Consistent)
    (hLive : ∀ e ∈ r.entries, e ∈ family) (hDefs : ∀ d ∈ defs, d ∈ family) (hAccepted : r.accepted defs = defs) :
    (r.addEach defs).Consistent ∧ ∀ e, e ∈ (r.addEach defs).entries ↔ e ∈ r.entries ∨ e ∈ defs := by
  induction defs generalizing r with
  | nil => exact ⟨h, fun e => by simp [addEach]⟩
  | cons d rest ih =>
    obtain ⟨hd, hRest⟩ := List.forall_mem_cons.mp hDefs
    have hId : ∀ e ∈ r.entries, e.id = d.id → e = d := fun e he => hFamily e (hLive e he) d hd
    have hFirst : (r.add d).1.isAccepted = true ∧ (r.add d).2.accepted rest = rest := by
      rw [accepted] at hAccepted
      split at hAccepted
      · rename_i hOk
        exact ⟨hOk, (List.cons.inj hAccepted).2⟩
      · cases hAccepted
    have hMem : ∀ e, e ∈ (r.add d).2.entries ↔ e ∈ r.entries ∨ e = d := fun e => by
      rw [mem_entries_add_iff h hId, hFirst.1, and_iff_left rfl]
    have hAdded : ∀ e ∈ (r.add d).2.entries, e ∈ family := fun e he =>
      ((hMem e).mp he).elim (hLive e) fun hSame => hSame ▸ hd
    obtain ⟨hConsistent, hEntries⟩ := ih (h.add hId) hAdded hRest hFirst.2
    refine ⟨hConsistent, fun e => ?_⟩
    rw [addEach, List.foldl_cons]
    exact (hEntries e).trans (by rw [hMem, List.mem_cons, or_assoc])

/-- A new definition that is accepted has a name of its own. -/
theorem name?_ne_of_accepted {family : Set (Definition σ)} (hFamily : Identified family) (h : r.Consistent)
    (hLive : ∀ e ∈ r.entries, e ∈ family) (hDefs : ∀ d ∈ defs, d ∈ family) (hAccepted : r.accepted defs = defs)
    (hd : d ∈ defs) (hNew : d ∉ r.entries) {name : String} (hName : d.name? = some name) (he : e ∈ r.entries) :
    e.name? ≠ some name := by
  obtain ⟨hAdded, hEntries⟩ := consistent_addEach hFamily h hLive hDefs hAccepted
  intro heName
  have hSame := Registry.eq_of_name?_eq ((hEntries d).mpr (.inr hd)) ((hEntries e).mpr (.inl he)) hName heName
  exact hNew (hSame ▸ he)

/-! ## Removals -/

theorem removeEach_eq_select (defs : List (Definition σ)) (r : Registry σ) :
    r.removeEach defs = r.select fun e => defs.all fun d => e.id ≠ d.id := by
  induction defs generalizing r with
  | nil => exact (select_eq_self_iff.mpr fun _ _ => rfl).symm
  | cons d rest ih => exact (ih (r.remove d)).trans (select_select _ _ r)

/-- Removing definitions leaves nothing of their additions. -/
theorem removeEach_addEach (defs : List (Definition σ)) (r : Registry σ) :
    (r.addEach defs).removeEach defs = r.removeEach defs := by
  rw [removeEach_eq_select, removeEach_eq_select]
  refine select_addEach fun d hd => ?_
  rw [List.all_eq_false]
  exact ⟨d, hd, by simp⟩

theorem removeEach_eq_self_iff : r.removeEach defs = r ↔ ∀ d ∈ defs, r.holds d = false := by
  rw [removeEach_eq_select, select_eq_self_iff]
  simp only [List.all_eq_true, decide_eq_true_eq, holds, List.any_eq_false]
  exact ⟨fun h d hd e he => h e he d hd, fun h e he d hd => h d hd e he⟩

theorem remove_of_not_holds (h : r.holds d = false) : r.remove d = r := by
  have hSame : r.removeEach [d] = r := removeEach_eq_self_iff.mpr fun e he => List.mem_singleton.mp he ▸ h
  exact hSame

end Registry

namespace Options

theorem add_of_ne_ok {d : Definition σ} {s : Options σ} (h : (s.add d).1 ≠ .ok) : (s.add d).2 = s := by
  have hOutcome : (s.registry.add d).1 ≠ .ok := h
  have hKept : ¬((s.registry.add d).1 = .ok ∧ s.registry.letterState d = .free) := fun hBoth => hOutcome hBoth.1
  rw [add]
  dsimp only
  rw [Registry.add_of_ne_ok hOutcome, if_neg hKept]

theorem takeOut_of_not_holds {d : Definition σ} {s : Options σ} (h : s.registry.holds d = false) : s.takeOut d = s := by
  have hLetter : (s.registry.byLetter.values.any fun other => other.id = d.id) = false := by
    rw [Registry.holds, List.any_append, Bool.or_eq_false_iff] at h
    exact h.2
  rw [takeOut, Registry.remove_of_not_holds h, if_neg (by rw [hLetter]; decide)]

/-- A removal takes the definition out and changes the host, and nothing else. -/
theorem exists_remove_eq [HostVariables σ] (d : Definition σ) (s : Options σ) :
    ∃ host, (s.remove d).2 = { s.takeOut d with host } := by
  obtain ⟨f, hf⟩ := remove_eq_mapHost d s
  rw [hf]
  split
  · exact ⟨_, rfl⟩
  · rename_i hOut
    rw [takeOut_of_not_holds (Bool.eq_false_iff.mpr hOut)]
    exact ⟨_, rfl⟩

end Options

end OptionShell
