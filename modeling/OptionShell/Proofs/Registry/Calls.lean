import Mathlib.Data.Set.Insert
import OptionShell.Options.Setter
import OptionShell.Proofs.Registry.Consistency
import OptionShell.Variables

/-!
# Registration histories

Calls add and remove definitions in any order. A list of the live definitions can be kept beside them without a
registry: a call adds a definition if its letter may serve as one and no live definition is the same or has one of its
keys, and removes it wherever it is. The registry after any history holds exactly that list.
-/
namespace OptionShell

variable {σ : Type}

/-- A call that adds or removes a definition. -/
inductive RegistryCall (σ : Type) where
  | add (d : Definition σ)
  | remove (d : Definition σ)

namespace RegistryCall

def subject : RegistryCall σ → Definition σ
  | add d | remove d => d

/-- Whether a definition can join the live ones. -/
def admits (live : List (Definition σ)) (d : Definition σ) : Bool :=
  d.letter?.all isOptionLetter && live.all fun e => e.id ≠ d.id && !d.sharesKey e

/-- The live definitions after a call, oldest first. -/
def live (defs : List (Definition σ)) : RegistryCall σ → List (Definition σ)
  | add d => if admits defs d then defs ++ [d] else defs
  | remove d => defs.filter fun e => e.id ≠ d.id

/-- The live definitions after calls on an empty registry, oldest first. -/
def liveAfter (calls : List (RegistryCall σ)) : List (Definition σ) := calls.foldl live []

def run [HostVariables σ] (s : Options σ) : RegistryCall σ → Options σ
  | add d => (s.add d).2
  | remove d => (s.remove d).2

def runAll [HostVariables σ] (calls : List (RegistryCall σ)) (s : Options σ) : Options σ := calls.foldl run s

end RegistryCall

namespace Registry

/-- A consistent registry that holds the listed definitions, with the unnamed ones in the order of the list. -/
structure Holds (r : Registry σ) (defs : List (Definition σ)) : Prop where
  consistent : r.Consistent
  live : r.entries.Perm defs
  suffix : r.unnamed = defs.filter fun d => d.name?.isNone

theorem holds_empty : (empty : Registry σ).Holds [] := ⟨consistent_empty, .refl _, rfl⟩

variable {r : Registry σ} {defs : List (Definition σ)} {d : Definition σ}

theorem admits_iff :
    RegistryCall.admits defs d = true ↔ (∀ letter, d.letter? = some letter → isOptionLetter letter = true) ∧
      ∀ e ∈ defs, e.id ≠ d.id ∧ d.sharesKey e = false := by
  rw [RegistryCall.admits, Bool.and_eq_true, Option.all_eq_true, List.all_eq_true]
  refine and_congr_right' (forall₂_congr fun e _ => ?_)
  rw [Bool.and_eq_true, decide_eq_true_eq, Bool.not_eq_true']

theorem Holds.add (h : r.Holds defs) (hd : ∀ e ∈ defs, e.id = d.id → e = d) :
    (r.add d).2.Holds (RegistryCall.live defs (.add d)) := by
  have hMem : ∀ {e}, e ∈ r.entries ↔ e ∈ defs := h.live.mem_iff
  have hAddition := addition_add h.consistent fun e he => hd e (hMem.mp he)
  rw [RegistryCall.live]
  generalize r.add d = result at hAddition
  cases hAddition with
  | badLetter hLetter =>
    obtain ⟨letter, hSome, hBad⟩ := hLetter
    rw [if_neg]
    · exact h
    · intro hAdmits
      rw [(admits_iff.mp hAdmits).1 letter hSome] at hBad
      cases hBad
  | clash hLetter e he hId hShared =>
    rw [if_neg]
    · exact h
    · intro hAdmits
      rw [((admits_iff.mp hAdmits).2 e (hMem.mp he)).2] at hShared
      cases hShared
  | known hLetter hLive =>
    rw [if_neg]
    · exact h
    · intro hAdmits
      exact ((admits_iff.mp hAdmits).2 d (hMem.mp hLive)).1 rfl
  | fresh hLetter hFresh =>
    rw [if_pos (admits_iff.mpr ⟨hLetter, fun e he => hFresh e (hMem.mpr he)⟩)]
    refine ⟨h.consistent.insert hFresh, ?_, ?_⟩
    · have hKeys : ∀ e ∈ r.entries, d.sharesKey e = false := fun e he => (hFresh e he).2
      exact (entries_insert_perm hKeys).trans
        ((h.live.cons d).trans (List.perm_append_singleton d defs).symm)
    · rw [unnamed_insert, List.filter_append, ← h.suffix]
      cases hName : d.name? with
      | none => simp [hName]
      | some name => simp [hName]

theorem Holds.remove (h : r.Holds defs) (d : Definition σ) :
    (r.remove d).Holds (RegistryCall.live defs (.remove d)) := by
  refine ⟨h.consistent.remove d, ?_, ?_⟩
  · rw [entries_remove]
    exact h.live.filter _
  · have hOthers := congrArg (List.filter fun e => decide (e.id ≠ d.id)) h.suffix
    rw [unnamed_eq_filter, List.filter_filter, List.filter_filter] at hOthers
    rw [unnamed_eq_filter, entries_remove, RegistryCall.live, List.filter_filter, List.filter_filter]
    simpa only [Bool.and_comm] using hOthers

theorem Holds.live_remove_of_not_holds (h : r.Holds defs) (hOut : r.holds d = false) :
    RegistryCall.live defs (.remove d) = defs := by
  rw [RegistryCall.live, List.filter_eq_self]
  intro e he
  rw [decide_eq_true_eq]
  intro hId
  have hHolds : r.holds d = true := (holds_iff h.consistent).mpr ⟨e, h.live.mem_iff.mpr he, hId⟩
  rw [hOut] at hHolds
  cases hHolds

/-- The order of the live definitions: named ones by name, then unnamed ones as listed. -/
theorem Holds.exists_entries_eq (h : r.Holds defs) :
    ∃ named, r.entries = named ++ defs.filter (fun d => d.name?.isNone) ∧ (∀ d ∈ named, d.name?.isSome) ∧
      named.Pairwise fun d e => ∃ first second, d.name? = some first ∧ e.name? = some second ∧ first < second := by
  refine ⟨r.entries.take r.named, ?_, r.arranged.isSome, r.pairwise_named⟩
  rw [← h.suffix]
  exact (List.take_append_drop r.named r.entries).symm

end Registry

namespace RegistryCall

variable [HostVariables σ] {defs : Set (Definition σ)} {live : List (Definition σ)} {s : Options σ}

theorem registry_remove (s : Options σ) (d : Definition σ) :
    (s.remove d).2.registry = if s.registry.holds d then s.registry.remove d else s.registry := by
  obtain ⟨f, hf⟩ := Options.remove_eq_mapHost d s
  rw [hf]
  split <;> rfl

theorem holds_run (hDefs : Identified defs) (h : s.registry.Holds live) (hLive : ∀ d ∈ live, d ∈ defs)
    (call : RegistryCall σ) (hCall : call.subject ∈ defs) : (run s call).registry.Holds (call.live live) := by
  cases call with
  | add d => exact h.add fun e he hId => hDefs e (hLive e he) d hCall hId
  | remove d =>
    change (s.remove d).2.registry.Holds _
    rw [registry_remove]
    split
    · exact h.remove d
    · rename_i hOut
      rw [h.live_remove_of_not_holds (Bool.eq_false_iff.mpr hOut)]
      exact h

omit [HostVariables σ] in
theorem live_subset (call : RegistryCall σ) (hCall : call.subject ∈ defs) (hLive : ∀ d ∈ live, d ∈ defs) :
    ∀ d ∈ call.live live, d ∈ defs := by
  intro d hd
  cases call with
  | add e =>
    rw [RegistryCall.live] at hd
    split at hd
    · rcases List.mem_append.mp hd with hd | hd
      · exact hLive d hd
      · exact List.mem_singleton.mp hd ▸ hCall
    · exact hLive d hd
  | remove e => exact hLive d (List.mem_of_mem_filter hd)

theorem holds_foldl (hDefs : Identified defs) (calls : List (RegistryCall σ))
    (hCalls : ∀ call ∈ calls, call.subject ∈ defs) (h : s.registry.Holds live) (hLive : ∀ d ∈ live, d ∈ defs) :
    (runAll calls s).registry.Holds (calls.foldl RegistryCall.live live) := by
  induction calls generalizing s live with
  | nil => exact h
  | cons call rest ih =>
    obtain ⟨hCall, hRest⟩ := List.forall_mem_cons.mp hCalls
    exact ih hRest (holds_run hDefs h hLive call hCall) (live_subset call hCall hLive)

/-- After any calls on an empty registry the order, the names and the letters agree with the list of the live
definitions. Strings are ordered by code points, that is, by their bytes. -/
theorem lookups_after_calls (hDefs : Identified defs) (calls : List (RegistryCall σ))
    (hCalls : ∀ call ∈ calls, call.subject ∈ defs) (s : Options σ) (hEmpty : s.registry = .empty) :
    let r := (runAll calls s).registry
    r.entries.Perm (liveAfter calls) ∧
      (∃ named, r.entries = named ++ (liveAfter calls).filter (fun d => d.name?.isNone) ∧
        (∀ d ∈ named, d.name?.isSome) ∧
        named.Pairwise fun d e => ∃ first second, d.name? = some first ∧ e.name? = some second ∧ first < second) ∧
      (r.entries.map (·.id)).Nodup ∧
      (∀ name d, r.findName? name = some d ↔ d ∈ r.entries ∧ d.name? = some name) ∧
      (∀ name, r.findName? name = none ↔ ∀ d ∈ r.entries, d.name? ≠ some name) ∧
      (∀ letter d, r.findLetter? letter = some d ↔ d ∈ r.entries ∧ d.letter? = some letter) ∧
      ∀ letter, r.findLetter? letter = none ↔ ∀ d ∈ r.entries, d.letter? ≠ some letter := by
  have hStart : s.registry.Holds [] := hEmpty ▸ Registry.holds_empty
  have h := holds_foldl hDefs calls hCalls hStart (by simp)
  have hConsistent := h.consistent
  exact ⟨h.live, h.exists_entries_eq, hConsistent.distinct, fun name d => Registry.findName?_eq_some_iff _ name,
    Registry.findName?_eq_none_iff _, hConsistent.lettered, hConsistent.findLetter?_eq_none_iff⟩

/-- A definition that was refused because of its name can join once the holder of the name is gone. -/
theorem lookups_after_calls_of_refused_name :
    let first : Definition Variables := { id := 0, name? := some "posix", letter? := some 'p' }
    let second : Definition Variables := { id := 1, name? := some "posix" }
    let third : Definition Variables := { id := 2, letter? := some 'q' }
    let calls := [add first, add third, add second, remove first, add second]
    Identified {first, second, third} ∧ (∀ call ∈ calls, call.subject ∈ ({first, second, third} : Set _)) ∧
      (runAll calls { host := .empty }).registry.findName? "posix" = some second ∧
      (runAll calls { host := .empty }).registry.findLetter? 'p' = none := by
  intro first second third calls
  have hDefs : Identified {first, second, third} := by
    rintro d (rfl | rfl | rfl) e (rfl | rfl | rfl) hId
    all_goals first | rfl | cases hId
  have hCalls : ∀ call ∈ calls, call.subject ∈ ({first, second, third} : Set _) := by
    simp [calls, subject]
  obtain ⟨hLive, -, -, hName, -, -, hLetter⟩ := lookups_after_calls hDefs calls hCalls { host := .empty } rfl
  have hAfter : liveAfter calls = [third, second] := rfl
  rw [hAfter] at hLive
  refine ⟨hDefs, hCalls, (hName _ _).mpr ⟨hLive.mem_iff.mpr (by simp), rfl⟩, (hLetter _).mpr ?_⟩
  intro d hd
  rcases List.mem_pair.mp (hLive.mem_iff.mp hd) with rfl | rfl
  · decide
  · decide

end RegistryCall

end OptionShell
