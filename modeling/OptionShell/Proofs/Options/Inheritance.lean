import OptionShell.Proofs.Options.Operation
import OptionShell.Proofs.Options.Policy
import OptionShell.Proofs.Options.RosterText

/-!
# Inheriting options

Inheriting a roster turns on the options that its text names, that it lists, and that admit the change in this context;
the other cells stay as they are, and so does the variable of the other roster. The text of a roster names what was
joined into it.
-/
namespace OptionShell

variable {σ : Type}

/-! ## Names and texts -/

/-- The pieces of a text between colons. -/
def colonPieces (text : String) : List String := (text.toList.splitOn ':').map String.ofList

theorem listedNames_eq_filter (text : String) :
    listedNames text = (colonPieces text).filter fun name => name ≠ "" := by
  rw [listedNames, colonPieces, List.filter_map]
  refine congrArg _ (List.filter_congr fun piece _ => ?_)
  cases piece with
  | nil => rfl
  | cons c rest => simp [String.ofList_eq_empty_iff]

/-- A text that was joined from pieces without colons has these pieces. -/
theorem colonPieces_intercalate {pieces : List String} (hNonempty : pieces ≠ [])
    (h : ∀ piece ∈ pieces, ':' ∉ piece.toList) : colonPieces (":".intercalate pieces) = pieces := by
  rw [colonPieces, String.toList_intercalate]
  change (([':'].intercalate (pieces.map String.toList)).splitOn ':').map String.ofList = pieces
  rw [List.splitOn_intercalate ':' (by simpa using h) (by simpa using hNonempty), List.map_map]
  have hBack : String.ofList ∘ String.toList = id := funext fun piece => String.ofList_toList
  rw [hBack, List.map_id]

/-- The text of names without colons holds the names, except for empty ones. -/
theorem listedNames_intercalate {names : List String} (h : ∀ name ∈ names, ':' ∉ name.toList) :
    listedNames (":".intercalate names) = names.filter fun name => name ≠ "" := by
  cases names with
  | nil => rfl
  | cons name rest => rw [listedNames_eq_filter, colonPieces_intercalate (List.cons_ne_nil name rest) h]

theorem Options.mem_rosterNames_of_inherited [HostVariables σ] {s : Options σ} {roster : Roster} (h : s.Shows roster)
    (hColons : ∀ d ∈ s.registry.entries, ∀ name, d.name? = some name → ':' ∉ name.toList) {name : String}
    (hName : name ∈ s.inheritedNames roster) : name ∈ s.rosterNames roster := by
  rw [inheritedNames] at hName
  split at hName
  · split at hName
    · rename_i binding hBinding
      split at hName
      · have hText : binding.value = s.rosterText roster := by
          rw [Shows, rosterValue?, hBinding] at h
          exact Option.some.inj h
        rw [hText, rosterText, listedNames_intercalate] at hName
        · exact List.mem_of_mem_filter hName
        · intro name hListed
          obtain ⟨d, hd, -, hOwn⟩ := mem_rosterNames_iff.mp hListed
          exact hColons d hd name hOwn
      · cases hName
    · cases hName
  · cases hName

/-! ## What inheriting does -/

variable [HostVariables σ]

/-- A name is passed over, or the one option that has it is set. -/
theorem ensures_inheritName {roster : Roster} {why : Access} {name : String} {s : Options σ}
    {Q : Option Refusal → Options σ → Prop}
    (hPassed : (∀ d ∈ s.registry.entries, d.name? = some name → (roster.mirrors d && !why.hides d) = false) → Q none s)
    (hSet : ∀ d ∈ s.registry.entries, d.name? = some name → roster.mirrors d = true → why.hides d = false →
      Ensures (Update.set d why 1) s fun outcome after =>
        Q (if outcome.isRefused then some ⟨name, outcome⟩ else none) after) :
    Ensures (Update.inheritName roster why name) s Q := by
  apply Ensures.get_bind
  split
  · rename_i hFound
    refine .pure (hPassed fun d hd hName => ?_)
    exact absurd hName ((Registry.findName?_eq_none_iff _ name).mp hFound d hd)
  · rename_i d hFound
    obtain ⟨hd, hName⟩ := (Registry.findName?_eq_some_iff _ name).mp hFound
    split
    · rename_i hHidden
      refine .pure (hPassed fun e he heName => ?_)
      rw [Registry.eq_of_name?_eq he hd heName hName, Roster.mirrors, ← Bool.not_or, hHidden]
      rfl
    · rename_i hShown
      rw [Bool.or_eq_true, not_or, Bool.not_eq_true, Bool.not_eq_true] at hShown
      have hMirrored : roster.mirrors d = true := by
        rw [Roster.mirrors, hShown.1]
        rfl
      exact (hSet d hd hName hMirrored hShown.2).bind fun outcome after hAfter => .pure hAfter

/-- A property of the options under which setting one of `defs` has the usual results, with the changes that `admits`
tells, and keeps the property. -/
structure SetRules (defs : Set (Definition σ)) (admits : Definition σ → Access → Int32 → Bool)
    (I : Options σ → Prop) : Prop where
  within : ∀ s, I s → s.registry.Within defs
  consistent : ∀ s, I s → s.registry.Consistent
  cells : ∀ d ∈ defs, ∀ e ∈ defs, ∀ cell, d.cell? = some cell → e.cell? = some cell → d = e
  set : ∀ d ∈ defs, ∀ why value s, I s → Ensures (Update.set d why value) s fun outcome after =>
    Options.SetResult d (admits d why value) value s (outcome, after) ∧ I after

theorem SetRules.setInvariant {defs : Set (Definition σ)} {admits : Definition σ → Access → Int32 → Bool}
    {I : Options σ → Prop} (h : SetRules defs admits I) : SetInvariant defs I where
  within := h.within
  set d hd why value s hs := (h.set d hd why value s hs).mono fun _ _ hAfter => hAfter.2

/-- Whether inheriting the roster in this context can turn the option on. -/
def Inheritable (admits : Definition σ → Access → Int32 → Bool) (roster : Roster) (why : Access)
    (d : Definition σ) : Bool :=
  roster.mirrors d && !why.hides d && admits d why 1

/-- The options after some names were inherited. -/
structure Inherited (admits : Definition σ → Access → Int32 → Bool) (roster : Roster) (why : Access) (s : Options σ)
    (names : List String) (after : Options σ) : Prop where
  registry : after.registry = s.registry
  values : ∀ d ∈ s.registry.entries, ∀ cell, d.cell? = some cell → after.storage.read cell =
    if Inheritable admits roster why d && d.name?.any (· ∈ names) then 1 else s.storage.read cell
  others : ∀ other : Roster, (∀ d ∈ s.registry.entries, roster.mirrors d = true → other.mirrors d = false) →
    HostVariables.lookup after.host other.varName = HostVariables.lookup s.host other.varName

namespace Inherited

variable {defs : Set (Definition σ)} {admits : Definition σ → Access → Int32 → Bool} {I : Options σ → Prop}
  {roster : Roster} {why : Access} {s mid after : Options σ} {names : List String} {d : Definition σ}

omit [HostVariables σ] in
theorem any_append (d : Definition σ) (names : List String) (name : String) :
    d.name?.any (· ∈ names ++ [name]) = (d.name?.any (· ∈ names) || decide (d.name? = some name)) := by
  cases d.name? with
  | none => rfl
  | some own => simp

theorem append (h : Inherited admits roster why s names mid) {name : String}
    (hName : ∀ d ∈ s.registry.entries, d.name? = some name → Inheritable admits roster why d = false) :
    Inherited admits roster why s (names ++ [name]) mid := by
  refine ⟨h.registry, fun d hd cell hCell => ?_, h.others⟩
  rw [h.values d hd cell hCell, any_append]
  by_cases hOwn : d.name? = some name
  · rw [hName d hd hOwn, Bool.false_and, Bool.false_and]
  · rw [decide_eq_false hOwn, Bool.or_false]

theorem setResult [LawfulHostVariables σ] (hRules : SetRules defs admits I) (hI : I s)
    (h : Inherited admits roster why s names mid) (hd : d ∈ s.registry.entries) {name : String}
    (hName : d.name? = some name) (hMirrored : roster.mirrors d = true) (hVisible : why.hides d = false)
    {outcome : Outcome} (hResult : Options.SetResult d (admits d why 1) 1 mid (outcome, after)) :
    Inherited admits roster why s (names ++ [name]) after := by
  have hMem : ∀ {e}, e ∈ s.registry.entries → e ∈ defs := fun {e} he => (hRules.within s hI).live e he
  have hOwner : ∀ e ∈ s.registry.entries, e.name? = some name → e = d := fun e he heName =>
    Registry.eq_of_name?_eq he hd heName hName
  have hCanInherit : Inheritable admits roster why d = admits d why 1 := by
    rw [Inheritable, hMirrored, hVisible]
    rfl
  cases hAdmits : admits d why 1 with
  | false =>
    rw [hAdmits] at hResult
    rw [hResult.eq_of_not_admitted]
    exact h.append fun e he heName => by rw [hOwner e he heName, hCanInherit, hAdmits]
  | true =>
    rw [hAdmits] at hResult
    refine ⟨?_, fun e he cell hCell => ?_, fun other hOther => ?_⟩
    · obtain ⟨storage, host, rfl⟩ := hResult.exists_eq
      exact h.registry
    · rw [any_append]
      by_cases hSame : e = d
      · rw [hSame] at hCell ⊢
        rw [hResult.read_own hCell, hCanInherit, hAdmits, decide_eq_true hName, Bool.or_true]
        rfl
      · rw [hResult.read_of_ne fun hShared => hSame (hRules.cells e (hMem he) d (hMem hd) cell hCell hShared),
          h.values e he cell hCell, decide_eq_false fun heName => hSame (hOwner e he heName), Bool.or_false]
    · refine Eq.trans ?_ (h.others other hOther)
      cases hResult with
      | kept outcome hOutcome hKept => rfl
      | same cell hAdmitted hCell hValue => rfl
      | changed cell hAdmitted hCell hValue => exact Options.lookup_refreshFor (hOther d hd hMirrored) _

theorem inheritName [LawfulHostVariables σ] (hRules : SetRules defs admits I) (hI : I s) (name : String)
    (h : Inherited admits roster why s names mid) (hMid : I mid) :
    Ensures (Update.inheritName roster why name) mid fun _ after =>
      Inherited admits roster why s (names ++ [name]) after ∧ I after := by
  refine ensures_inheritName (fun hPassed => ⟨h.append fun d hd hName => ?_, hMid⟩) ?_
  · rw [Inheritable, hPassed d (h.registry ▸ hd) hName, Bool.false_and]
  · intro d hd hName hMirrored hVisible
    refine (hRules.set d ((hRules.within mid hMid).live d hd) why 1 mid hMid).mono fun outcome after hAfter => ?_
    exact ⟨h.setResult hRules hI (h.registry ▸ hd) hName hMirrored hVisible hAfter.1, hAfter.2⟩

end Inherited

theorem ensures_inherit [LawfulHostVariables σ] {defs : Set (Definition σ)}
    {admits : Definition σ → Access → Int32 → Bool} {I : Options σ → Prop} (hRules : SetRules defs admits I)
    (roster : Roster) (why : Access) (quiet : Bool) {s : Options σ} (hs : I s) :
    Ensures (Update.inherit roster why quiet) s fun _ after =>
      Inherited admits roster why s (s.inheritedNames roster) after ∧ I after := by
  have hStart : Inherited admits roster why s [] s := by
    refine ⟨rfl, fun d _ cell _ => ?_, fun _ _ => rfl⟩
    cases d.name? <;> simp
  have hNames : Ensures ((s.inheritedNames roster).filterMapM (Update.inheritName roster why)) s fun _ after =>
      Inherited admits roster why s ([] ++ s.inheritedNames roster) after ∧ I after :=
    .filterMapM (I := fun names after => Inherited admits roster why s names after ∧ I after) []
      (fun names name mid hMid => hMid.1.inheritName hRules hs name hMid.2) ⟨hStart, hs⟩
  exact .get_bind (hNames.bind fun _ _ hAfter => .pure hAfter)

end OptionShell
