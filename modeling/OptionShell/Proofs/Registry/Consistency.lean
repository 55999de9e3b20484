import Mathlib.Data.List.Nodup
import Mathlib.Data.Set.Defs
import OptionShell.Options.Registry

/-!
# Consistent registries

The search for a name finds the live definition that has it. Letters are kept apart from the sequence of the live
definitions: in a consistent registry both speak of the same ones. Adding and removing keep a registry consistent, and
adding to a consistent one leaves it alone or puts the definition under all of its keys.
-/
namespace OptionShell

variable {σ : Type}

/-- Definitions that their identities tell apart. -/
def Identified (defs : Set (Definition σ)) : Prop := ∀ d ∈ defs, ∀ e ∈ defs, d.id = e.id → d = e

theorem identified_of_nodup {items : List (Definition σ)} (hIds : (items.map (·.id)).Nodup) :
    Identified {d | d ∈ items} :=
  fun _ hd _ he hId => List.inj_on_of_nodup_map hIds hd he hId

namespace Definition

/-- Whether two definitions claim the same name or the same letter. -/
def sharesKey (d e : Definition σ) : Bool :=
  (d.name?.any fun name => e.name? = some name) || d.letter?.any fun letter => e.letter? = some letter

theorem sharesKey_iff {d e : Definition σ} :
    d.sharesKey e = true ↔ (∃ name, d.name? = some name ∧ e.name? = some name) ∨
      ∃ letter, d.letter? = some letter ∧ e.letter? = some letter := by
  simp only [sharesKey, Bool.or_eq_true, Option.any_eq_true, decide_eq_true_eq]

end Definition

namespace Registry

structure Consistent (r : Registry σ) : Prop where
  lettered : ∀ letter d, r.findLetter? letter = some d ↔ d ∈ r.entries ∧ d.letter? = some letter
  distinct : (r.entries.map (·.id)).Nodup

variable {r : Registry σ} {d e : Definition σ}

/-! ## Names -/

theorem mem_take_named_iff : d ∈ r.entries.take r.named ↔ d ∈ r.entries ∧ d.name?.isSome := by
  constructor
  · exact fun hd => ⟨List.mem_of_mem_take hd, r.arranged.isSome d hd⟩
  · rintro ⟨hd, hSome⟩
    rw [← List.take_append_drop r.named r.entries] at hd
    refine (List.mem_append.mp hd).resolve_right fun hUnnamed => ?_
    rw [r.arranged.isNone d hUnnamed] at hSome
    cases hSome

theorem mem_unnamed_iff : d ∈ r.unnamed ↔ d ∈ r.entries ∧ d.name? = none := by
  constructor
  · exact fun hd => ⟨List.mem_of_mem_drop hd, r.arranged.isNone d hd⟩
  · rintro ⟨hd, hNone⟩
    rw [← List.take_append_drop r.named r.entries] at hd
    refine (List.mem_append.mp hd).resolve_left fun hNamed => ?_
    have hSome := r.arranged.isSome d hNamed
    rw [hNone] at hSome
    cases hSome

theorem unnamed_eq_filter (r : Registry σ) : r.unnamed = r.entries.filter fun d => d.name?.isNone := by
  have hFront : (r.entries.take r.named).filter (fun d => d.name?.isNone) = [] := by
    rw [List.filter_eq_nil_iff]
    intro d hd hNone
    have hSome := r.arranged.isSome d hd
    rw [Option.isNone_iff_eq_none.mp hNone] at hSome
    cases hSome
  have hBack : (r.entries.drop r.named).filter (fun d => d.name?.isNone) = r.entries.drop r.named :=
    List.filter_eq_self.mpr fun d hd => Option.isNone_iff_eq_none.mpr (r.arranged.isNone d hd)
  rw [unnamed, ← hBack, ← List.nil_append (List.filter _ _), ← hFront, ← List.filter_append, List.take_append_drop]

theorem compare_sortName_eq_iff {name : String} (hSome : d.name?.isSome) :
    compare d.sortName name = .eq ↔ d.name? = some name := by
  obtain ⟨own, hName⟩ := Option.isSome_iff_exists.mp hSome
  rw [Definition.sortName, hName, Option.getD_some, Std.LawfulEqCmp.compare_eq_iff_eq, Option.some.injEq]

theorem search_ne_error (hd : d ∈ r.entries) {name : String} (hName : d.name? = some name) (index : Nat) :
    r.search name ≠ .error index := by
  have hSome : d.name?.isSome := by rw [hName]; rfl
  exact OptionShell.search_ne_error (r.arranged.searchable name) (mem_take_named_iff.mpr ⟨hd, hSome⟩)
    ((compare_sortName_eq_iff hSome).mpr hName)

/-- No two live definitions have one name. -/
theorem eq_of_name?_eq (hd : d ∈ r.entries) (he : e ∈ r.entries) {name : String} (hName : d.name? = some name)
    (heName : e.name? = some name) : d = e := by
  have hSame : d.sortName = e.sortName := by rw [Definition.sortName, Definition.sortName, hName, heName]
  have hNodup : ((r.entries.take r.named).map Definition.sortName).Nodup := by
    refine List.pairwise_map.mpr (r.arranged.ascending.imp fun {first second} hLess hEq => ?_)
    have hEqual : compare first.sortName second.sortName = .eq := Std.LawfulEqCmp.compare_eq_iff_eq.mpr hEq
    rw [hLess] at hEqual
    cases hEqual
  exact List.inj_on_of_nodup_map hNodup (mem_take_named_iff.mpr ⟨hd, by rw [hName]; rfl⟩)
    (mem_take_named_iff.mpr ⟨he, by rw [heName]; rfl⟩) hSame

theorem pairwise_named (r : Registry σ) : (r.entries.take r.named).Pairwise fun d e =>
    ∃ first second, d.name? = some first ∧ e.name? = some second ∧ first < second := by
  refine r.arranged.ascending.imp_of_mem fun {d e} hd he hLess => ?_
  obtain ⟨first, hFirst⟩ := Option.isSome_iff_exists.mp (r.arranged.isSome d hd)
  obtain ⟨second, hSecond⟩ := Option.isSome_iff_exists.mp (r.arranged.isSome e he)
  rw [Definition.sortName, Definition.sortName, hFirst, hSecond] at hLess
  exact ⟨first, second, hFirst, hSecond, compareOfLessAndEq_eq_lt.mp hLess⟩

theorem exists_of_search_eq_ok {name : String} {index : Nat} (h : r.search name = .ok index) :
    ∃ e, r.entries[index]? = some e ∧ e ∈ r.entries ∧ e.name? = some name := by
  obtain ⟨e, hFound, hOrder⟩ := getElem?_of_search_eq_ok h
  have hFront := List.mem_of_getElem? hFound
  rw [List.getElem?_take] at hFound
  split at hFound
  · obtain ⟨he, hSome⟩ := mem_take_named_iff.mp hFront
    exact ⟨e, hFound, he, (compare_sortName_eq_iff hSome).mp hOrder⟩
  · cases hFound

/-- The search for a name finds the live definition that has it. -/
theorem findName?_eq_some_iff (r : Registry σ) (name : String) :
    r.findName? name = some d ↔ d ∈ r.entries ∧ d.name? = some name := by
  rw [findName?]
  constructor
  · intro hFound
    split at hFound
    · rename_i index hSearch
      obtain ⟨e, hAt, he, heName⟩ := exists_of_search_eq_ok hSearch
      cases hAt.symm.trans hFound
      exact ⟨he, heName⟩
    · cases hFound
  · rintro ⟨hd, hName⟩
    split
    · rename_i index hSearch
      obtain ⟨e, hAt, he, heName⟩ := exists_of_search_eq_ok hSearch
      rw [hAt, eq_of_name?_eq he hd heName hName]
    · rename_i index hSearch
      exact absurd hSearch (search_ne_error hd hName index)

theorem findName?_eq_none_iff (r : Registry σ) (name : String) :
    r.findName? name = none ↔ ∀ d ∈ r.entries, d.name? ≠ some name := by
  rw [Option.eq_none_iff_forall_ne_some]
  constructor
  · intro hNone d hd hName
    exact hNone d ((r.findName?_eq_some_iff name).mpr ⟨hd, hName⟩)
  · intro hAll d hFound
    obtain ⟨hd, hName⟩ := (r.findName?_eq_some_iff name).mp hFound
    exact hAll d hd hName

/-! ## Consistency -/

theorem consistent_empty : (empty : Registry σ).Consistent where
  lettered letter d := by
    constructor
    · intro h
      cases h
    · rintro ⟨h, -⟩
      cases h
  distinct := .nil

namespace Consistent

theorem findLetter?_eq_none_iff (h : r.Consistent) (letter : Char) :
    r.findLetter? letter = none ↔ ∀ d ∈ r.entries, d.letter? ≠ some letter := by
  rw [Option.eq_none_iff_forall_ne_some]
  constructor
  · intro hNone d hd hLetter
    exact hNone d ((h.lettered letter d).mpr ⟨hd, hLetter⟩)
  · intro hAll d hFound
    obtain ⟨hd, hLetter⟩ := (h.lettered letter d).mp hFound
    exact hAll d hd hLetter

end Consistent

/-! ## What adding does -/

/-- The registry with a definition under all of its keys. -/
def insert (d : Definition σ) (r : Registry σ) : Registry σ := (r.addPlace d).addLetter d

section KeyState

variable {κ : Type} {key : Definition σ → Option κ} {k : κ} {occupant? : Option (Definition σ)}

theorem keyState_eq_held_iff (hFind : ∀ e, occupant? = some e ↔ e ∈ r.entries ∧ key e = some k)
    (hKey : key d = some k) (hd : ∀ e ∈ r.entries, e.id = d.id → e = d) :
    keyState d occupant? = .held ↔ d ∈ r.entries := by
  constructor
  · intro hState
    unfold keyState at hState
    split at hState
    · cases hState
    · rename_i e
      split at hState
      · rename_i hId
        obtain ⟨he, -⟩ := (hFind e).mp rfl
        exact hd e he hId ▸ he
      · cases hState
  · intro hLive
    rw [(hFind d).mpr ⟨hLive, hKey⟩]
    exact if_pos rfl

theorem keyState_eq_taken_iff (hFind : ∀ e, occupant? = some e ↔ e ∈ r.entries ∧ key e = some k)
    (hKey : key d = some k) :
    keyState d occupant? = .taken ↔ ∃ e ∈ r.entries, e.id ≠ d.id ∧ ∃ k, key d = some k ∧ key e = some k := by
  constructor
  · intro hState
    unfold keyState at hState
    split at hState
    · cases hState
    · rename_i e
      split at hState
      · cases hState
      · rename_i hId
        obtain ⟨he, heKey⟩ := (hFind e).mp rfl
        exact ⟨e, he, hId, k, hKey, heKey⟩
  · rintro ⟨e, he, hId, other, hOther, heKey⟩
    have hSame : k = other := Option.some.inj (hKey.symm.trans hOther)
    rw [(hFind e).mpr ⟨he, hSame ▸ heKey⟩]
    exact if_neg hId

end KeyState

theorem placeState_eq_held_iff (hd : ∀ e ∈ r.entries, e.id = d.id → e = d) :
    r.placeState d = .held ↔ d ∈ r.entries := by
  rw [placeState]
  split
  · rename_i name hName
    exact keyState_eq_held_iff (fun e => r.findName?_eq_some_iff name) hName hd
  · rename_i hName
    constructor
    · intro hState
      split at hState
      · rename_i hAny
        obtain ⟨e, he, hId⟩ := List.any_eq_true.mp hAny
        have hLive := (mem_unnamed_iff.mp he).1
        exact hd e hLive (of_decide_eq_true hId) ▸ hLive
      · cases hState
    · intro hLive
      exact if_pos (List.any_eq_true.mpr ⟨d, mem_unnamed_iff.mpr ⟨hLive, hName⟩, decide_eq_true rfl⟩)

theorem placeState_eq_taken_iff :
    r.placeState d = .taken ↔
      ∃ e ∈ r.entries, e.id ≠ d.id ∧ ∃ name, d.name? = some name ∧ e.name? = some name := by
  rw [placeState]
  split
  · rename_i name hName
    exact keyState_eq_taken_iff (fun e => r.findName?_eq_some_iff name) hName
  · rename_i hName
    constructor
    · intro hState
      split at hState <;> cases hState
    · rintro ⟨e, -, -, name, hSome, -⟩
      rw [hName] at hSome
      cases hSome

theorem letterState_eq_held_iff (h : r.Consistent) (hd : ∀ e ∈ r.entries, e.id = d.id → e = d) :
    r.letterState d = .held ↔ d ∈ r.entries ∧ d.letter?.isSome := by
  rw [letterState]
  split
  · rename_i letter hLetter
    rw [keyState_eq_held_iff (h.lettered letter) hLetter hd, hLetter]
    exact (and_iff_left rfl).symm
  · rename_i hLetter
    rw [hLetter]
    constructor
    · intro hState
      cases hState
    · rintro ⟨-, hSome⟩
      cases hSome

theorem letterState_eq_taken_iff (h : r.Consistent) :
    r.letterState d = .taken ↔
      ∃ e ∈ r.entries, e.id ≠ d.id ∧ ∃ letter, d.letter? = some letter ∧ e.letter? = some letter := by
  rw [letterState]
  split
  · rename_i letter hLetter
    exact keyState_eq_taken_iff (h.lettered letter) hLetter
  · rename_i hLetter
    constructor
    · intro hState
      cases hState
    · rintro ⟨e, -, -, letter, hSome, -⟩
      rw [hLetter] at hSome
      cases hSome

/-- The ways in which adding a definition to a consistent registry can end. -/
inductive Addition (d : Definition σ) (r : Registry σ) : Outcome × Registry σ → Prop where
  | badLetter (hLetter : ∃ letter, d.letter? = some letter ∧ isOptionLetter letter = false) :
      Addition d r (.badValue, r)
  | clash (hLetter : ∀ letter, d.letter? = some letter → isOptionLetter letter = true) (e : Definition σ)
      (he : e ∈ r.entries) (hId : e.id ≠ d.id) (hShared : d.sharesKey e = true) : Addition d r (.duplicate, r)
  | known (hLetter : ∀ letter, d.letter? = some letter → isOptionLetter letter = true)
      (hLive : d ∈ r.entries) : Addition d r (.unchanged, r)
  | fresh (hLetter : ∀ letter, d.letter? = some letter → isOptionLetter letter = true)
      (hFresh : ∀ e ∈ r.entries, e.id ≠ d.id ∧ d.sharesKey e = false) : Addition d r (.ok, r.insert d)

theorem taken_iff (h : r.Consistent) :
    (r.placeState d = .taken ∨ r.letterState d = .taken) ↔
      ∃ e ∈ r.entries, e.id ≠ d.id ∧ d.sharesKey e = true := by
  rw [placeState_eq_taken_iff, letterState_eq_taken_iff h]
  constructor
  · rintro (⟨e, he, hId, hName⟩ | ⟨e, he, hId, hLetter⟩)
    · exact ⟨e, he, hId, Definition.sharesKey_iff.mpr (.inl hName)⟩
    · exact ⟨e, he, hId, Definition.sharesKey_iff.mpr (.inr hLetter)⟩
  · rintro ⟨e, he, hId, hShared⟩
    rcases Definition.sharesKey_iff.mp hShared with hName | hLetter
    · exact .inl ⟨e, he, hId, hName⟩
    · exact .inr ⟨e, he, hId, hLetter⟩

theorem placeState_ne_unused : r.placeState d ≠ .unused := by
  rw [placeState]
  split
  · unfold keyState
    split
    · decide
    · split <;> decide
  · split <;> decide

theorem addLetter_of_unused (r : Registry σ) (h : r.letterState d = .unused) (other : Registry σ) :
    other.addLetter d = other := by
  rw [letterState] at h
  split at h
  · unfold keyState at h
    split at h
    · cases h
    · split at h <;> cases h
  · rename_i hLetter
    rw [addLetter, hLetter]

theorem add_of_known (h : r.Consistent) (hd : ∀ e ∈ r.entries, e.id = d.id → e = d) (hLive : d ∈ r.entries) :
    r.placeState d ≠ .free ∧ r.letterState d ≠ .free := by
  rw [(placeState_eq_held_iff hd).mpr hLive]
  refine ⟨by decide, ?_⟩
  intro hFree
  cases hLetter : d.letter? with
  | none =>
    rw [letterState, hLetter] at hFree
    cases hFree
  | some letter =>
    have hHeld := (letterState_eq_held_iff h hd).mpr ⟨hLive, by rw [hLetter]; rfl⟩
    rw [hHeld] at hFree
    cases hFree

/-- No definition gets registered under one of its keys only: a definition that is not live has no key in use. -/
theorem add_of_fresh (h : r.Consistent) (hd : ∀ e ∈ r.entries, e.id = d.id → e = d) (hFresh : d ∉ r.entries)
    (hPlace : r.placeState d ≠ .taken) (hLetter : r.letterState d ≠ .taken) :
    r.placeState d = .free ∧
      (if r.letterState d = .free then (r.addPlace d).addLetter d else r.addPlace d) = r.insert d := by
  constructor
  · cases hState : r.placeState d with
    | unused => exact absurd hState placeState_ne_unused
    | free => rfl
    | held => exact absurd ((placeState_eq_held_iff hd).mp hState) hFresh
    | taken => exact absurd hState hPlace
  · cases hState : r.letterState d with
    | unused => exact (addLetter_of_unused r hState _).symm
    | free => rfl
    | held => exact absurd ((letterState_eq_held_iff h hd).mp hState).1 hFresh
    | taken => exact absurd hState hLetter

theorem addition_add (h : r.Consistent) (hd : ∀ e ∈ r.entries, e.id = d.id → e = d) :
    Addition d r (r.add d) := by
  rw [add]
  split
  · rename_i hBad
    obtain ⟨letter, hLetter, hRange⟩ := (Option.any_eq_true _ _).mp hBad
    exact .badLetter ⟨letter, hLetter, by simpa using hRange⟩
  · rename_i hGood
    have hLetter : ∀ letter, d.letter? = some letter → isOptionLetter letter = true := by
      intro letter hSome
      rw [hSome] at hGood
      simpa using hGood
    dsimp only
    split
    · rename_i hTaken
      obtain ⟨e, he, hId, hShared⟩ := (taken_iff h).mp hTaken
      exact .clash hLetter e he hId hShared
    · rename_i hTaken
      obtain ⟨hPlace, hLetterState⟩ := not_or.mp hTaken
      by_cases hLive : d ∈ r.entries
      · rw [if_pos (add_of_known h hd hLive)]
        exact .known hLetter hLive
      · obtain ⟨hFree, hInsert⟩ := add_of_fresh h hd hLive hPlace hLetterState
        rw [if_neg (fun hBoth => hBoth.1 hFree), if_pos hFree, hInsert]
        refine .fresh hLetter fun e he => ?_
        have hId : e.id ≠ d.id := fun hId => hLive (hd e he hId ▸ he)
        refine ⟨hId, Bool.eq_false_iff.mpr fun hShared => hTaken ?_⟩
        exact (taken_iff h).mpr ⟨e, he, hId, hShared⟩

/-! ## Insertion and removal -/

theorem findName?_eq_none_of_fresh (hFresh : ∀ e ∈ r.entries, d.sharesKey e = false) {name : String}
    (hName : d.name? = some name) : r.findName? name = none := by
  rw [r.findName?_eq_none_iff]
  intro e he heName
  have hShared : d.sharesKey e = true := Definition.sharesKey_iff.mpr (.inl ⟨name, hName, heName⟩)
  rw [hFresh e he] at hShared
  cases hShared

/-- A definition whose name is new goes into the sequence somewhere, and the others keep their order. -/
theorem exists_entries_addPlace (hNew : ∀ name, d.name? = some name → r.findName? name = none) :
    ∃ front back, r.entries = front ++ back ∧ (r.addPlace d).entries = front ++ d :: back := by
  rw [addPlace]
  split
  · rename_i name hName
    split
    · rename_i index hSearch
      obtain ⟨e, hAt, -, -⟩ := exists_of_search_eq_ok hSearch
      have hUnused := hNew name hName
      rw [findName?, hSearch] at hUnused
      cases hAt.symm.trans hUnused
    · rename_i index hSearch
      exact ⟨r.entries.take index, r.entries.drop index, (List.take_append_drop index r.entries).symm, rfl⟩
  · exact ⟨r.entries, [], (List.append_nil _).symm, rfl⟩

/-- Only a definition without a name joins those without one, as the last of them. -/
theorem unnamed_addPlace (r : Registry σ) (d : Definition σ) :
    (r.addPlace d).unnamed = if d.name?.isNone then r.unnamed ++ [d] else r.unnamed := by
  cases hName : d.name? with
  | none =>
    have hEntries : (r.addPlace d).entries = r.entries ++ [d] ∧ (r.addPlace d).named = r.named := by
      unfold addPlace
      split
      · rename_i name hSome
        rw [hName] at hSome
        cases hSome
      · exact ⟨rfl, rfl⟩
    rw [unnamed, hEntries.1, hEntries.2]
    exact List.drop_append_of_le_length r.arranged.bound
  | some name =>
    rw [unnamed_eq_filter, unnamed_eq_filter]
    unfold addPlace
    split
    · split
      · rfl
      · rename_i index hSearch
        have hOut : d.name?.isNone = false := by rw [hName]; rfl
        dsimp only
        rw [List.filter_append, List.filter_cons, hOut, if_neg Bool.false_ne_true, ← List.filter_append,
          List.take_append_drop]
        rfl
    · rename_i hNone
      rw [hName] at hNone
      cases hNone

theorem byLetter_addPlace (r : Registry σ) (d : Definition σ) : (r.addPlace d).byLetter = r.byLetter := by
  rw [addPlace]
  split
  · split <;> rfl
  · rfl

theorem entries_addLetter (r : Registry σ) (d : Definition σ) : (r.addLetter d).entries = r.entries := by
  rw [addLetter]
  split <;> rfl

theorem entries_insert_perm (hFresh : ∀ e ∈ r.entries, d.sharesKey e = false) :
    (r.insert d).entries.Perm (d :: r.entries) := by
  obtain ⟨front, back, hEntries, hAdded⟩ :=
    exists_entries_addPlace fun name hName => findName?_eq_none_of_fresh hFresh hName
  rw [insert, entries_addLetter, hAdded, hEntries]
  exact List.perm_middle

theorem mem_entries_insert_iff (hFresh : ∀ e ∈ r.entries, d.sharesKey e = false) :
    e ∈ (r.insert d).entries ↔ e = d ∨ e ∈ r.entries := by
  rw [(entries_insert_perm hFresh).mem_iff, List.mem_cons]

theorem findName?_insert (hFresh : ∀ e ∈ r.entries, d.sharesKey e = false) (name : String) :
    (r.insert d).findName? name = if d.name? = some name then some d else r.findName? name := by
  apply Option.ext
  intro e
  rw [findName?_eq_some_iff, mem_entries_insert_iff hFresh]
  split
  · rename_i hName
    rw [Option.some.injEq]
    constructor
    · rintro ⟨rfl | he, heName⟩
      · rfl
      · have hShared : d.sharesKey e = true := Definition.sharesKey_iff.mpr (.inl ⟨name, hName, heName⟩)
        rw [hFresh e he] at hShared
        cases hShared
    · rintro rfl
      exact ⟨.inl rfl, hName⟩
  · rename_i hName
    rw [findName?_eq_some_iff]
    exact and_congr_left fun heName => or_iff_right fun hSame => hName (hSame ▸ heName)

theorem unnamed_insert (r : Registry σ) (d : Definition σ) :
    (r.insert d).unnamed = if d.name?.isNone then r.unnamed ++ [d] else r.unnamed := by
  rw [insert, ← unnamed_addPlace, addLetter]
  split <;> rfl

theorem byLetter_insert (r : Registry σ) (d : Definition σ) :
    (r.insert d).byLetter = match d.letter? with
      | some letter => r.byLetter.insert letter d
      | none => r.byLetter := by
  rw [insert, addLetter, ← byLetter_addPlace r d]
  cases d.letter? <;> rfl

theorem findLetter?_insert (r : Registry σ) (d : Definition σ) (letter : Char) :
    (r.insert d).findLetter? letter = if d.letter? = some letter then some d else r.findLetter? letter := by
  rw [findLetter?, byLetter_insert]
  cases hLetter : d.letter? with
  | none => rfl
  | some own =>
    simp only [Table.find?_insert, Option.some.injEq, @eq_comm _ own letter]
    rfl

theorem Consistent.insert (h : r.Consistent) (hFresh : ∀ e ∈ r.entries, e.id ≠ d.id ∧ d.sharesKey e = false) :
    (r.insert d).Consistent := by
  have hKeys : ∀ e ∈ r.entries, d.sharesKey e = false := fun e he => (hFresh e he).2
  refine ⟨?_, ?_⟩
  · intro letter e
    rw [findLetter?_insert, mem_entries_insert_iff hKeys]
    split
    · rename_i hLetter
      constructor
      · intro hSame
        cases hSame
        exact ⟨.inl rfl, hLetter⟩
      · rintro ⟨rfl | he, heLetter⟩
        · rfl
        · have hShared : d.sharesKey e = true :=
            Definition.sharesKey_iff.mpr (.inr ⟨letter, hLetter, heLetter⟩)
          rw [hKeys e he] at hShared
          cases hShared
    · rename_i hLetter
      rw [h.lettered]
      constructor
      · rintro ⟨he, heLetter⟩
        exact ⟨.inr he, heLetter⟩
      · rintro ⟨rfl | he, heLetter⟩
        · exact absurd heLetter hLetter
        · exact ⟨he, heLetter⟩
  · rw [((entries_insert_perm hKeys).map _).nodup_iff, List.map_cons, List.nodup_cons]
    refine ⟨?_, h.distinct⟩
    intro hMem
    obtain ⟨e, he, hId⟩ := List.mem_map.mp hMem
    exact (hFresh e he).1 hId

theorem entries_remove (r : Registry σ) (d : Definition σ) :
    (r.remove d).entries = r.entries.filter fun e => e.id ≠ d.id := rfl

theorem mem_entries_remove_iff : e ∈ (r.remove d).entries ↔ e ∈ r.entries ∧ e.id ≠ d.id := by
  rw [entries_remove, List.mem_filter, decide_eq_true_eq]

theorem findLetter?_remove_eq_some_iff (letter : Char) :
    (r.remove d).findLetter? letter = some e ↔ r.findLetter? letter = some e ∧ e.id ≠ d.id := by
  rw [findLetter?, findLetter?, Table.find?_eq_some_iff, Table.find?_eq_some_iff]
  exact List.mem_filter.trans (and_congr_right' decide_eq_true_iff)

theorem Consistent.remove (h : r.Consistent) (d : Definition σ) : (r.remove d).Consistent where
  lettered letter e := by
    rw [findLetter?_remove_eq_some_iff, h.lettered, mem_entries_remove_iff]
    exact and_right_comm
  distinct := by
    rw [entries_remove]
    exact h.distinct.sublist (List.filter_sublist.map _)

theorem holds_iff (h : r.Consistent) : r.holds d = true ↔ ∃ e ∈ r.entries, e.id = d.id := by
  rw [holds, List.any_eq_true]
  constructor
  · rintro ⟨e, he, hId⟩
    rcases List.mem_append.mp he with he | he
    · exact ⟨e, he, of_decide_eq_true hId⟩
    · obtain ⟨⟨letter, other⟩, hEntry, rfl⟩ := List.mem_map.mp he
      have hFound := (Table.find?_eq_some_iff r.byLetter letter other).mpr hEntry
      exact ⟨other, ((h.lettered letter other).mp hFound).1, of_decide_eq_true hId⟩
  · rintro ⟨e, he, hId⟩
    exact ⟨e, List.mem_append_left _ he, decide_eq_true hId⟩

/-! ## Adding -/

theorem Consistent.add (h : r.Consistent) (hd : ∀ e ∈ r.entries, e.id = d.id → e = d) : (r.add d).2.Consistent := by
  have hAddition := addition_add h hd
  generalize r.add d = result at hAddition
  cases hAddition with
  | badLetter hLetter => exact h
  | clash hLetter e he hId hShared => exact h
  | known hLetter hLive => exact h
  | fresh hLetter hFresh => exact h.insert hFresh

/-- Beside the definitions that were live, an accepted one is live afterwards. -/
theorem mem_entries_add_iff (h : r.Consistent) (hd : ∀ e ∈ r.entries, e.id = d.id → e = d) :
    e ∈ (r.add d).2.entries ↔ e ∈ r.entries ∨ e = d ∧ (r.add d).1.isAccepted = true := by
  have hAddition := addition_add h hd
  generalize r.add d = result at hAddition
  cases hAddition with
  | badLetter hLetter => exact (or_iff_left fun hAccepted => nomatch hAccepted.2).symm
  | clash hLetter e he hId hShared => exact (or_iff_left fun hAccepted => nomatch hAccepted.2).symm
  | known hLetter hLive => exact (or_iff_left_of_imp fun hAccepted => hAccepted.1 ▸ hLive).symm
  | fresh hLetter hFresh =>
    rw [mem_entries_insert_iff fun e he => (hFresh e he).2, or_comm]
    exact or_congr_right (and_iff_left rfl).symm

end Registry

end OptionShell
