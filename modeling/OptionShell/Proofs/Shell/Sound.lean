import OptionShell.Proofs.Shell.Family

/-!
# Sound options

The options of a shell are sound while the registry is consistent and holds all standard options, and others of the
family at most. The start makes them so, and setting, adding and removing keep them so.
-/
namespace OptionShell

namespace Shell

variable {s t : Options (Host Unit)} {d : Definition (Host Unit)} {r : Registry (Host Unit)}

structure Sound (s : Options (Host Unit)) : Prop where
  consistent : s.registry.Consistent
  within : s.registry.Within Family
  complete : ∀ d ∈ standardOptions, d ∈ s.registry.entries
  /-- The setter of `privileged` can run. -/
  nesting : 0 < s.nesting

namespace Sound

theorem congr (h : Sound s) (hRegistry : t.registry = s.registry) (hNesting : t.nesting = s.nesting) : Sound t := by
  refine ⟨?_, ?_, ?_, ?_⟩
  · rw [hRegistry]
    exact h.consistent
  · rw [hRegistry]
    exact h.within
  · rw [hRegistry]
    exact h.complete
  · rw [hNesting]
    exact h.nesting

theorem findName?_eq (h : Sound s) (hd : d ∈ standardOptions) {name : String} (hName : d.name? = some name) :
    s.registry.findName? name = some d :=
  (Registry.findName?_eq_some_iff _ name).mpr ⟨h.complete d hd, hName⟩

theorem findLetter?_eq (h : Sound s) (hd : d ∈ standardOptions) {letter : Char}
    (hLetter : d.letter? = some letter) : s.registry.findLetter? letter = some d :=
  (h.consistent.lettered letter d).mpr ⟨h.complete d hd, hLetter⟩

theorem setResult (h : Sound s) {admitted : Bool} {value : Int32} {outcome : Outcome}
    (hResult : Options.SetResult d admitted value s (outcome, t)) : Sound t := by
  obtain ⟨storage, host, rfl⟩ := hResult.exists_eq
  exact h.congr rfl rfl

theorem eq_of_id_eq (h : Sound s) (hd : d ∈ Family) :
    ∀ e ∈ s.registry.entries, e.id = d.id → e = d :=
  fun e he hId => identified_family e (h.within.live e he) d hd hId

theorem valueNamed_eq_read (h : Sound s) (hd : d ∈ standardOptions) {name : String} (hName : d.name? = some name)
    {cell : CellId} (hCell : d.cell? = some cell) (why : Access) :
    s.valueNamed name why = some (s.storage.read cell) := by
  rw [Options.valueNamed, h.findName?_eq hd hName]
  exact get_eq_read hd hCell s why

theorem add (h : Sound s) (hd : d ∈ Family) : Sound (s.add d).2 := by
  have hId := h.eq_of_id_eq hd
  refine ⟨h.consistent.add hId, h.within.add hd, fun e he => ?_, h.nesting⟩
  exact (Registry.mem_entries_add_iff h.consistent hId).mpr (.inl (h.complete e he))

theorem remove (h : Sound s) (hd : d ∈ primeOptions) : Sound (s.remove d).2 := by
  obtain ⟨host, hRemoved⟩ := Options.exists_remove_eq d s
  rw [hRemoved]
  refine ⟨h.consistent.remove d, h.within.remove d, fun e he => ?_, h.nesting⟩
  refine Registry.mem_entries_remove_iff.mpr ⟨h.complete e he, fun hId => ?_⟩
  have hLow := id_lt_size he
  have hHigh := size_le_id hd
  omega

end Sound

/-! ## The standard options of a new shell -/

theorem isAccepted_add (h : r.Consistent) (hWithin : r.Within Family) (hd : d ∈ Family) :
    (r.add d).1.isAccepted = true := by
  have hLetters : ∀ d ∈ family, d.letter?.all isOptionLetter := by decide
  have hAddition := Registry.addition_add h fun e he hId => identified_family e (hWithin.live e he) d hd hId
  generalize r.add d = result at hAddition
  cases hAddition with
  | badLetter hLetter =>
    obtain ⟨letter, hSome, hBad⟩ := hLetter
    have hGood := hLetters d hd
    rw [hSome, Option.all_some, hBad] at hGood
    cases hGood
  | clash hLetter e he hId hShared =>
    rw [sharesKey_eq_false hd (hWithin.live e he) fun hSame => hId (hSame ▸ rfl)] at hShared
    cases hShared
  | known hLetter hLive => rfl
  | fresh hLetter hOthers => rfl

theorem add_eq_insert (h : r.Consistent) (hWithin : r.Within Family) (hd : d ∈ Family) (hFresh : d ∉ r.entries) :
    r.add d = (.ok, r.insert d) := by
  have hAccepted := isAccepted_add h hWithin hd
  have hAddition := Registry.addition_add h fun e he hId => identified_family e (hWithin.live e he) d hd hId
  generalize r.add d = result at hAccepted hAddition
  cases hAddition with
  | badLetter hLetter => cases hAccepted
  | clash hLetter e he hId hShared => cases hAccepted
  | known hLetter hLive => exact absurd hLive hFresh
  | fresh hLetter hOthers => rfl

theorem addAll_eq_ok (rest : List (Definition (Host Unit))) (hRest : ∀ d ∈ rest, d ∈ Family)
    (hNodup : (rest.map (·.id)).Nodup) (s : Options (Host Unit)) (hConsistent : s.registry.Consistent)
    (hWithin : s.registry.Within Family) (hFresh : ∀ d ∈ rest, d ∉ s.registry.entries) :
    ∃ registry letters?, StandardOptions.addAll rest s = (.ok (), { s with registry, letters? }) ∧
      registry.Consistent ∧ registry.Within Family ∧ ∀ d, d ∈ registry.entries ↔ d ∈ rest ∨ d ∈ s.registry.entries := by
  induction rest generalizing s with
  | nil => exact ⟨s.registry, s.letters?, rfl, hConsistent, hWithin, fun d => by simp⟩
  | cons d rest ih =>
    obtain ⟨hd, hRest⟩ := List.forall_mem_cons.mp hRest
    obtain ⟨hdFresh, hOthers⟩ := List.forall_mem_cons.mp hFresh
    obtain ⟨hdOut, hNodup⟩ := List.nodup_cons.mp hNodup
    have hAdd := add_eq_insert hConsistent hWithin hd hdFresh
    have hKeys : ∀ e ∈ s.registry.entries, d.sharesKey e = false := fun e he =>
      sharesKey_eq_false hd (hWithin.live e he) fun hSame => hdFresh (hSame ▸ he)
    have hMem : ∀ e, e ∈ (s.registry.insert d).entries ↔ e = d ∨ e ∈ s.registry.entries := fun e =>
      Registry.mem_entries_insert_iff hKeys
    have hInserted : (s.registry.insert d).Consistent ∧ (s.registry.insert d).Within Family := by
      have hAdded := hConsistent.add fun e he hId => identified_family e (hWithin.live e he) d hd hId
      have hFamily := hWithin.add hd
      rw [hAdd] at hAdded hFamily
      exact ⟨hAdded, hFamily⟩
    have hRegistry : (s.add d).2.registry = s.registry.insert d := congrArg Prod.snd hAdd
    have hOutcome : (s.add d).1 = .ok := congrArg Prod.fst hAdd
    rw [← hRegistry] at hInserted hMem
    obtain ⟨registry, letters?, hRun, hAfter, hFamily, hEntries⟩ :=
      ih hRest hNodup (s.add d).2 hInserted.1 hInserted.2 fun e he hMember => by
        obtain rfl | hOld := (hMem e).mp hMember
        · exact hdOut (List.mem_map.mpr ⟨e, he, rfl⟩)
        · exact hOthers e he hOld
    refine ⟨registry, letters?, ?_, hAfter, hFamily, fun e => ?_⟩
    · rw [StandardOptions.addAll]
      dsimp only
      rw [hOutcome]
      exact hRun
    · rw [hEntries, hMem, List.mem_cons]
      tauto

/-- Adding the standard options to an empty registry succeeds and touches the registry only. -/
theorem addTo_of_empty (hEmpty : s.registry = .empty) (hNesting : 0 < s.nesting) :
    ∃ registry letters?, standard.addTo s = (.ok (), { s with registry, letters? }) ∧
      Sound { s with registry, letters? } ∧ ∀ d ∈ registry.entries, d ∈ standardOptions := by
  have hNodup : (standardOptions.map (·.id)).Nodup := by decide
  have hNone : ∀ d, d ∉ s.registry.entries := fun d hd => by
    rw [hEmpty] at hd
    cases hd
  have hConsistent : s.registry.Consistent := hEmpty ▸ Registry.consistent_empty
  have hWithin : s.registry.Within Family := by
    rw [hEmpty]
    constructor
    · intro d hd
      cases hd
    · intro letter d hd
      cases hd
  obtain ⟨registry, letters?, hRun, hConsistent, hFamily, hEntries⟩ := addAll_eq_ok standardOptions
    (fun d hd => mem_family_of_standard hd) hNodup s hConsistent hWithin fun d _ => hNone d
  have hComplete : ∀ d ∈ standardOptions, d ∈ registry.entries := fun d hd => (hEntries d).mpr (.inl hd)
  refine ⟨registry, letters?, hRun, ⟨hConsistent, hFamily, hComplete, hNesting⟩, fun d hd => ?_⟩
  exact ((hEntries d).mp hd).resolve_right (hNone d)

theorem addTo_blankOptions (environ : List (String × String)) :
    ∃ registry letters?, standard.addTo (blankOptions environ) =
        (.ok (), { blankOptions environ with registry, letters? }) ∧
      Sound { blankOptions environ with registry, letters? } ∧ ∀ d ∈ registry.entries, d ∈ standardOptions :=
  addTo_of_empty rfl (Nat.zero_lt_succ 99999)

end Shell

end OptionShell
