import OptionShell.Proofs.Registry.Selection

/-!
# Registered definitions of a family

Which definitions keys can lead to, and which parts of a registry adding and removing leave as they are. This does not
need the registry to be consistent; a well-kept one is.
-/
namespace OptionShell

variable {σ : Type}

namespace Registry

/-- The definitions that a name or a letter can lead to. -/
structure Within (defs : Set (Definition σ)) (r : Registry σ) : Prop where
  live : ∀ d ∈ r.entries, d ∈ defs
  lettered : ∀ letter d, r.findLetter? letter = some d → d ∈ defs

variable {r : Registry σ} {d : Definition σ} {defs : Set (Definition σ)}

theorem live_of_findName? {name : String} (hFound : r.findName? name = some d) : d ∈ r.entries :=
  ((r.findName?_eq_some_iff name).mp hFound).1

theorem within_empty (defs : Set (Definition σ)) : (empty : Registry σ).Within defs :=
  ⟨fun _ hd => (nomatch hd), fun _ _ hd => nomatch hd⟩

theorem Within.named (h : r.Within defs) {name : String} (hFound : r.findName? name = some d) : d ∈ defs :=
  h.live d (live_of_findName? hFound)

theorem filter_entries_add {p : Definition σ → Bool} (hd : p d = false) :
    (r.add d).2.entries.filter p = r.entries.filter p := by
  exact congrArg entries (select_add hd)

theorem filter_entries_remove {p : Definition σ → Bool} (hd : ∀ e ∈ r.entries, e.id = d.id → p e = false) :
    (r.remove d).entries.filter p = r.entries.filter p := by
  rw [entries_remove, List.filter_filter]
  refine List.filter_congr fun e he => ?_
  by_cases hId : e.id = d.id
  · simp [hd e he hId]
  · simp [hId]

theorem Within.addPlace (h : r.Within defs) (hFree : r.placeState d = .free) (hd : d ∈ defs) :
    (r.addPlace d).Within defs := by
  obtain ⟨front, back, hEntries, hAdded⟩ := exists_entries_addPlace fun _ => findName?_eq_none_of_free hFree
  refine ⟨fun e he => ?_, fun letter e he => h.lettered letter e ?_⟩
  · have hLive := h.live e
    rw [hEntries, List.mem_append] at hLive
    rw [hAdded, List.mem_append, List.mem_cons] at he
    obtain he | rfl | he := he
    · exact hLive (.inl he)
    · exact hd
    · exact hLive (.inr he)
  · rwa [findLetter?, byLetter_addPlace] at he

theorem Within.addLetter (h : r.Within defs) (hd : d ∈ defs) : (r.addLetter d).Within defs := by
  refine ⟨fun e he => h.live e (entries_addLetter r d ▸ he), fun letter e he => ?_⟩
  rw [Registry.addLetter] at he
  split at he
  · rw [findLetter?, Table.find?_insert] at he
    split at he
    · cases he
      exact hd
    · exact h.lettered letter e he
  · exact h.lettered letter e he

theorem Within.add (h : r.Within defs) (hd : d ∈ defs) : (r.add d).2.Within defs := by
  obtain hSame | ⟨placed, hPlaced, hLettered⟩ := add_cases r d
  · rw [hSame]
    exact h
  · have hPlace : placed.Within defs := by
      obtain rfl | ⟨hFree, rfl⟩ := hPlaced
      · exact h
      · exact h.addPlace hFree hd
    obtain hSame | ⟨-, hSame⟩ := hLettered
    · exact hSame ▸ hPlace
    · exact hSame ▸ hPlace.addLetter hd

theorem Within.addEach (h : r.Within defs) {items : List (Definition σ)} (hItems : ∀ d ∈ items, d ∈ defs) :
    (r.addEach items).Within defs := by
  induction items generalizing r with
  | nil => exact h
  | cons d rest ih =>
    obtain ⟨hd, hRest⟩ := List.forall_mem_cons.mp hItems
    exact ih (h.add hd) hRest

theorem Within.consistent_addEach (h : r.Within defs) (hDefs : Identified defs) (hConsistent : r.Consistent)
    {items : List (Definition σ)} (hItems : ∀ d ∈ items, d ∈ defs) : (r.addEach items).Consistent := by
  induction items generalizing r with
  | nil => exact hConsistent
  | cons d rest ih =>
    obtain ⟨hd, hRest⟩ := List.forall_mem_cons.mp hItems
    exact ih (h.add hd) (hConsistent.add fun e he => hDefs e (h.live e he) d hd) hRest

theorem Within.remove (h : r.Within defs) (d : Definition σ) : (r.remove d).Within defs := by
  refine ⟨fun e he => h.live e (mem_entries_remove_iff.mp he).1, fun letter e he => ?_⟩
  exact h.lettered letter e (findLetter?_remove_eq_some_iff letter |>.mp he).1

/-- Keys lead to definitions of the family only, and speak of the same ones. -/
structure WellKept (defs : Set (Definition σ)) (r : Registry σ) : Prop where
  within : r.Within defs
  consistent : r.Consistent

theorem wellKept_empty (defs : Set (Definition σ)) : (empty : Registry σ).WellKept defs :=
  ⟨within_empty defs, consistent_empty⟩

theorem WellKept.add (h : r.WellKept defs) (hDefs : Identified defs) (hd : d ∈ defs) : (r.add d).2.WellKept defs :=
  ⟨h.within.add hd, h.consistent.add fun e he => hDefs e (h.within.live e he) d hd⟩

theorem WellKept.addEach (h : r.WellKept defs) (hDefs : Identified defs) {items : List (Definition σ)}
    (hItems : ∀ d ∈ items, d ∈ defs) : (r.addEach items).WellKept defs :=
  ⟨h.within.addEach hItems, h.within.consistent_addEach hDefs h.consistent hItems⟩

theorem wellKept_addEach {items : List (Definition σ)} (hIds : Identified {d | d ∈ items}) :
    (empty.addEach items).WellKept {d | d ∈ items} :=
  (wellKept_empty _).addEach hIds fun _ hd => hd

theorem WellKept.remove (h : r.WellKept defs) (d : Definition σ) : (r.remove d).WellKept defs :=
  ⟨h.within.remove d, h.consistent.remove d⟩

end Registry

end OptionShell
