import Mathlib.Data.List.Perm.Subperm
import Mathlib.Data.Nat.Find
import OptionShell.Proofs.Options.Policy
import OptionShell.Proofs.Registry.Within
import OptionShell.Variables

/-!
# Setters that mirror into a partner

A mirroring setter leaves a cell that holds the value already as it is. Otherwise it writes its cell and sets a partner
to the same value. The path of partners can end, run into a loop, or come back to where it began. Setting follows it to
the first option that holds the value, and comes to an end since it writes each cell at most once.
-/
namespace OptionShell

variable {σ : Type}

def Setter.mirror (cell : CellId) (partner : String) : Setter σ := fun why value => do
  if (← Script.load cell) = value then return .unchanged
  Script.store cell value
  let _ ← Script.set partner why value
  return .ok

/-- Options that mirror into each other, or into names that are not registered. -/
structure MirrorFamily (partner : Definition σ → String) (r : Registry σ) (defs : Set (Definition σ)) : Prop where
  mirrors : ∀ d ∈ defs, ∃ cell, d.cell? = some cell ∧ d.setter? = some (Setter.mirror cell (partner d))
  closed : ∀ d ∈ defs, ∀ e, r.findName? (partner d) = some e → e ∈ defs

namespace Registry

/-- The option that the path of partners from `d` comes to after `n` steps, if it does not end before. -/
def partnerAfter (r : Registry σ) (partner : Definition σ → String) (d : Definition σ) : Nat → Option (Definition σ)
  | 0 => some d
  | n + 1 => (r.partnerAfter partner d n).bind fun e => r.findName? (partner e)

/-- Whether the cell belongs to one of the first `n` options on the path. -/
def passes (r : Registry σ) (partner : Definition σ → String) (d : Definition σ) (n : Nat) (cell : CellId) : Bool :=
  (List.range n).any fun i => (r.partnerAfter partner d i).any fun e => e.cell? = some cell

end Registry

namespace Options

/-- The value of a cell when the first `n` options on the path have got the value. -/
def spread (partner : Definition σ → String) (d : Definition σ) (value : Int32) (s : Options σ) (n : Nat)
    (cell : CellId) : Int32 :=
  if s.registry.passes partner d n cell then value else s.storage.read cell

/-- Whether the path has ended after `n` steps, or has come to an option that holds the value by then. -/
def stops (partner : Definition σ → String) (d : Definition σ) (value : Int32) (s : Options σ) (n : Nat) : Bool :=
  (s.registry.partnerAfter partner d n).all fun e => e.cell?.all fun cell => s.spread partner d value n cell = value

/-- What setting `d` has done if the first stop on its path is after `stop` steps. -/
structure Spread (partner : Definition σ → String) (d : Definition σ) (value : Int32) (s : Options σ) (stop : Nat)
    (outcome : Outcome) (after : Options σ) : Prop where
  stopped : s.stops partner d value stop = true
  passed : ∀ n < stop, s.stops partner d value n = false
  cells : ∀ cell, after.storage.read cell = s.spread partner d value stop cell
  changes : ∀ cell, after.storage.read cell ≠ s.storage.read cell ↔ s.registry.passes partner d stop cell = true
  outcome : ∃ cell, d.cell? = some cell ∧ outcome = if s.storage.read cell = value then .unchanged else .ok
  kept : after = { s with storage := after.storage, host := after.host }

variable {partner : Definition σ → String} {d e : Definition σ} {value : Int32} {s : Options σ} {n : Nat}
  {cell : CellId} {defs : Set (Definition σ)}

/-! ## The path of partners -/

theorem partnerAfter_succ {r : Registry σ} (hAt : r.partnerAfter partner d n = some e) :
    r.partnerAfter partner d (n + 1) = r.findName? (partner e) := by
  rw [Registry.partnerAfter, hAt, Option.bind_some]

theorem passes_iff {r : Registry σ} : r.passes partner d n cell = true ↔
    ∃ i < n, ∃ e, r.partnerAfter partner d i = some e ∧ e.cell? = some cell := by
  simp [Registry.passes, Option.any_eq_true]

theorem passes_succ {r : Registry σ} (hAt : r.partnerAfter partner d n = some e) (cell : CellId) :
    r.passes partner d (n + 1) cell = (r.passes partner d n cell || decide (e.cell? = some cell)) := by
  simp [Registry.passes, List.range_succ, hAt]

theorem spread_succ {own : CellId} (hAt : s.registry.partnerAfter partner d n = some e) (hOwn : e.cell? = some own)
    (cell : CellId) :
    s.spread partner d value (n + 1) cell = if cell = own then value else s.spread partner d value n cell := by
  rw [spread, passes_succ hAt, hOwn, spread]
  by_cases hc : cell = own
  · simp [hc]
  · have hne : own ≠ cell := Ne.symm hc
    simp [hc, hne]

theorem stops_eq (hAt : s.registry.partnerAfter partner d n = some e) (hCell : e.cell? = some cell) :
    s.stops partner d value n = decide (s.spread partner d value n cell = value) := by
  rw [stops, hAt, Option.all_some, hCell, Option.all_some]

theorem stops_of_ended (h : s.registry.partnerAfter partner d n = none) : s.stops partner d value n = true := by
  rw [stops, h, Option.all_none]

theorem exists_of_stops_eq_false (h : s.stops partner d value n = false) :
    ∃ e cell, s.registry.partnerAfter partner d n = some e ∧ e.cell? = some cell ∧
      s.registry.passes partner d n cell = false ∧ s.storage.read cell ≠ value := by
  rw [stops, Option.all_eq_false] at h
  obtain ⟨e, hAt, hCell⟩ := h
  rw [Option.all_eq_false] at hCell
  obtain ⟨cell, hOwn, hValue⟩ := hCell
  rw [decide_eq_false_iff_not, spread] at hValue
  split at hValue
  · exact absurd rfl hValue
  · rename_i hPassed
    exact ⟨e, cell, hAt, hOwn, Bool.eq_false_iff.mpr hPassed, hValue⟩

theorem live_of_partnerAfter_succ {r : Registry σ} (hAt : r.partnerAfter partner d (n + 1) = some e) :
    e ∈ r.entries := by
  obtain ⟨before, -, hFound⟩ := Option.bind_eq_some_iff.mp hAt
  exact Registry.live_of_findName? hFound

theorem mem_of_partnerAfter (hFamily : MirrorFamily partner s.registry defs) (hd : d ∈ defs)
    (hAt : s.registry.partnerAfter partner d n = some e) : e ∈ defs := by
  induction n generalizing e with
  | zero => exact Option.some.inj hAt ▸ hd
  | succ n ih =>
    obtain ⟨before, hBefore, hFound⟩ := Option.bind_eq_some_iff.mp hAt
    exact hFamily.closed before (ih hBefore) e hFound

/-- As long as the path does not stop, it comes to different options. All but the first of them are registered. -/
theorem exists_path (h : ∀ i < n + 1, s.stops partner d value i = false) :
    ∃ path : List (Definition σ), path.length = n ∧ path.Nodup ∧
      ∀ e ∈ path, e ∈ s.registry.entries ∧ ∃ i < n + 1, s.registry.partnerAfter partner d i = some e := by
  induction n with
  | zero => exact ⟨[], rfl, List.nodup_nil, fun _ he => nomatch he⟩
  | succ n ih =>
    obtain ⟨path, hLength, hNodup, hPath⟩ := ih fun i hi => h i (Nat.lt_succ_of_lt hi)
    obtain ⟨e, cell, hAt, hCell, hPassed, -⟩ := exists_of_stops_eq_false (h (n + 1) (Nat.lt_succ_self _))
    -- The cell is untouched, so no option before has it.
    have hNew : e ∉ path := by
      intro he
      obtain ⟨i, hi, hEarlier⟩ := (hPath e he).2
      exact Bool.false_ne_true (hPassed.symm.trans (passes_iff.mpr ⟨i, hi, e, hEarlier, hCell⟩))
    refine ⟨e :: path, by rw [List.length_cons, hLength], hNodup.cons hNew, fun other hOther => ?_⟩
    obtain rfl | hOther := List.mem_cons.mp hOther
    · exact ⟨live_of_partnerAfter_succ hAt, n + 1, Nat.lt_succ_self _, hAt⟩
    · obtain ⟨hLive, i, hi, hEarlier⟩ := hPath other hOther
      exact ⟨hLive, i, Nat.lt_succ_of_lt hi, hEarlier⟩

theorem exists_stop (partner : Definition σ → String) (d : Definition σ) (value : Int32) (s : Options σ) :
    ∃ stop ≤ s.registry.size + 1, s.stops partner d value stop = true ∧
      ∀ n < stop, s.stops partner d value n = false := by
  have hStops : ∃ n ≤ s.registry.size + 1, s.stops partner d value n = true := by
    by_contra hNone
    have hNever : ∀ i < s.registry.size + 1 + 1, s.stops partner d value i = false := fun i hi =>
      Bool.eq_false_iff.mpr fun hStop => hNone ⟨i, Nat.le_of_lt_succ hi, hStop⟩
    -- Such a path has one option more than there are.
    obtain ⟨path, hLength, hNodup, hPath⟩ := exists_path hNever
    have hShort := (hNodup.subperm fun e he => (hPath e he).1).length_le
    rw [hLength] at hShort
    exact Nat.not_succ_le_self _ hShort
  obtain ⟨n, hn, hStop⟩ := hStops
  have hFirst : ∃ n, s.stops partner d value n = true := ⟨n, hStop⟩
  exact ⟨Nat.find hFirst, Nat.le_trans (Nat.find_min' hFirst hStop) hn, Nat.find_spec hFirst, fun i hi =>
    Bool.eq_false_iff.mpr (Nat.find_min hFirst hi)⟩

theorem ne_of_passes {stop : Nat} (hPassed : ∀ n < stop, s.stops partner d value n = false)
    (h : s.registry.passes partner d stop cell = true) : s.storage.read cell ≠ value := by
  obtain ⟨i, hi, e, hAt, hCell⟩ := passes_iff.mp h
  obtain ⟨other, own, hOther, hOwn, -, hValue⟩ := exists_of_stops_eq_false (hPassed i hi)
  obtain rfl := Option.some.inj (hAt.symm.trans hOther)
  obtain rfl := Option.some.inj (hCell.symm.trans hOwn)
  exact hValue

/-! ## Setting along the path -/

variable [HostVariables σ]

theorem run_mirror (set : Assign σ) (cell : CellId) (name : String)
    (why : Access) (value : Int32) (s : Options σ) :
    (Setter.mirror cell name why value).run set s =
      if s.storage.read cell = value then some (.unchanged, s)
      else match s.registry.findName? name with
        | none => some (.ok, s.writeCell cell value)
        | some e => (set e why value (s.writeCell cell value)).map fun result => (.ok, result.2) := by
  change (if s.storage.read cell = value then _ else _ : Script σ Outcome).run set s = _
  split
  · rfl
  · change (set.named name why value (s.writeCell cell value)).bind _ = _
    rw [Assign.named_eq, Options.writeCell]
    cases s.registry.findName? name with
    | none => rfl
    | some e => exact Option.map_eq_bind.symm

theorem setWithin_mirror {name : String} (hSetter : d.setter? = some (Setter.mirror cell name)) (depth : Nat)
    (why : Access) (value : Int32) (s : Options σ) :
    Update.setWithin (depth + 1) d why value s =
      if s.storage.read cell = value then some (.unchanged, s)
      else match s.registry.findName? name with
        | none => some (.ok, (s.writeCell cell value).refreshFor d)
        | some e => (Update.setWithin depth e why value (s.writeCell cell value)).map fun result =>
            (.ok, result.2.refreshFor d) := by
  have hRun := run_mirror (Update.setWithin depth) cell name why value s
  rw [Update.setWithin, hSetter]
  change ((Setter.mirror cell name why value).run (Update.setWithin depth) s).bind _ = _
  rw [hRun]
  split
  · rfl
  · cases s.registry.findName? name with
    | none => rfl
    | some e =>
      dsimp only
      rw [Option.bind_map, Option.map_eq_bind]
      rfl

theorem setWithin_along (hFamily : MirrorFamily partner s.registry defs) (hd : d ∈ defs) {stop : Nat}
    (hStopped : s.stops partner d value stop = true) (hPassed : ∀ n < stop, s.stops partner d value n = false)
    (why : Access) {left : Nat} (hLeft : n + left = stop) (hAt : s.registry.partnerAfter partner d n = some e)
    {t : Options σ} (hRegistry : t.registry = s.registry)
    (hCells : ∀ cell, t.storage.read cell = s.spread partner d value n cell) :
    ∃ after, (∀ depth, left < depth →
        Update.setWithin depth e why value t = some (if left = 0 then .unchanged else .ok, after)) ∧
      (∃ storage host, after = { t with storage, host }) ∧
      ∀ cell, after.storage.read cell = s.spread partner d value stop cell := by
  -- The induction is on the steps that are left. The cells of the options that are passed have the value already, so a
  -- path that comes back finds what `spread` says.
  induction left generalizing n e t with
  | zero =>
    obtain rfl : n = stop := hLeft
    obtain ⟨own, hOwn, hSetter⟩ := hFamily.mirrors e (mem_of_partnerAfter hFamily hd hAt)
    rw [stops_eq hAt hOwn, decide_eq_true_eq] at hStopped
    refine ⟨t, fun depth hDepth => ?_, ⟨t.storage, t.host, rfl⟩, hCells⟩
    obtain ⟨depth, rfl⟩ := Nat.exists_eq_succ_of_ne_zero (Nat.ne_zero_of_lt hDepth)
    rw [setWithin_mirror hSetter, hCells, if_pos hStopped, if_pos rfl]
  | succ left ih =>
    obtain ⟨own, hOwn, hSetter⟩ := hFamily.mirrors e (mem_of_partnerAfter hFamily hd hAt)
    have hDiffers := hPassed n (by omega)
    rw [stops_eq hAt hOwn, decide_eq_false_iff_not, ← hCells] at hDiffers
    have hWritten : ∀ cell, (t.writeCell own value).storage.read cell = s.spread partner d value (n + 1) cell := by
      intro cell
      rw [spread_succ hAt hOwn, ← hCells]
      exact Storage.read_write ..
    have hNext := partnerAfter_succ hAt
    rw [← hRegistry] at hNext
    cases hFound : t.registry.findName? (partner e) with
    | none =>
      rw [hFound, hRegistry] at hNext
      obtain rfl : n + 1 = stop := by
        by_contra hLater
        exact Bool.false_ne_true ((hPassed (n + 1) (by omega)).symm.trans (stops_of_ended hNext))
      obtain ⟨f, hf⟩ := refreshFor_eq_mapHost e (t.writeCell own value)
      refine ⟨(t.writeCell own value).refreshFor e, fun depth hDepth => ?_, ⟨_, _, hf⟩, fun cell => ?_⟩
      · obtain ⟨depth, rfl⟩ := Nat.exists_eq_succ_of_ne_zero (Nat.ne_zero_of_lt hDepth)
        rw [setWithin_mirror hSetter, if_neg hDiffers, hFound, if_neg (Nat.succ_ne_zero left)]
      · rw [SetResult.storage_refreshFor, hWritten]
    | some next =>
      rw [hFound, hRegistry] at hNext
      obtain ⟨after, hRun, ⟨storage, host, rfl⟩, hAfter⟩ :=
        ih (t := t.writeCell own value) (by omega) hNext hRegistry hWritten
      obtain ⟨f, hf⟩ := refreshFor_eq_mapHost e { t.writeCell own value with storage, host }
      refine ⟨_, fun depth hDepth => ?_, ⟨_, _, hf⟩, fun cell => ?_⟩
      · obtain ⟨depth, rfl⟩ := Nat.exists_eq_succ_of_ne_zero (Nat.ne_zero_of_lt hDepth)
        rw [setWithin_mirror hSetter, if_neg hDiffers, hFound, if_neg (Nat.succ_ne_zero left)]
        dsimp only
        rw [hRun depth (Nat.lt_of_succ_lt_succ hDepth)]
        rfl
      · rw [SetResult.storage_refreshFor]
        exact hAfter cell

/-- Setting an option with a mirroring setter comes to an end, with the same result whenever setters may call one
another deep enough for the path up to its stop. The options before the stop get the value, and no other cell changes.
The options need not have different cells. -/
theorem set_of_mirrorFamily (hFamily : MirrorFamily partner s.registry defs) (hd : d ∈ defs) (why : Access)
    (value : Int32) :
    ∃ stop outcome after, stop ≤ s.registry.size + 1 ∧ Spread partner d value s stop outcome after ∧
      (∀ depth, stop < depth → Update.setWithin depth d why value s = some (outcome, after)) ∧
      (stop < s.nesting → Update.set d why value s = some (outcome, after)) := by
  obtain ⟨stop, hBound, hStopped, hPassed⟩ := exists_stop partner d value s
  obtain ⟨own, hOwn, -⟩ := hFamily.mirrors d hd
  have hStart : s.registry.partnerAfter partner d 0 = some d := rfl
  obtain ⟨after, hRun, ⟨storage, host, rfl⟩, hCells⟩ :=
    setWithin_along hFamily hd hStopped hPassed why (Nat.zero_add stop) hStart rfl fun _ => rfl
  refine ⟨stop, _, _, hBound, ⟨hStopped, hPassed, hCells, fun cell => ?_, ⟨own, hOwn, ?_⟩, rfl⟩, hRun, hRun _⟩
  · rw [hCells, spread]
    cases hPasses : s.registry.passes partner d stop cell with
    | false => simp
    | true => simpa using (ne_of_passes hPassed hPasses).symm
  · have hFirst : s.stops partner d value 0 = decide (s.storage.read own = value) := stops_eq hStart hOwn
    by_cases hZero : stop = 0
    · rw [hZero, hFirst, decide_eq_true_eq] at hStopped
      rw [if_pos hZero, if_pos hStopped]
    · have hDiffers := hPassed 0 (Nat.pos_of_ne_zero hZero)
      rw [hFirst, decide_eq_false_iff_not] at hDiffers
      rw [if_neg hZero, if_neg hDiffers]

/-- The path from `alpha` runs into the loop of `beta` and `gamma`. Besides there are a loop of one option, a partner
that is not registered, and an option without a setter. -/
theorem set_of_mirrorFamily_into_loop :
    let partner : Definition Variables → String := fun d =>
      if d.id = 0 then "beta" else if d.id = 1 then "gamma" else if d.id = 2 then "beta"
      else if d.id = 3 then "delta" else "gone"
    let member : Nat → String → Definition Variables := fun id name =>
      { id, name? := some name, cell? := some id, setter? := some (Setter.mirror id (partner { id })) }
    let alpha := member 0 "alpha"
    let family := [alpha, member 1 "beta", member 2 "gamma", member 3 "delta", member 4 "epsilon"]
    let noglob : Definition Variables := { id := 5, name? := some "noglob", cell? := some 5, inShellopts := true }
    let s : Options Variables := {
      registry := Registry.empty.addEach (noglob :: family), storage := .ofList [0, -1, 5, 0, 1, 1], host := .empty }
    MirrorFamily partner s.registry {d | d ∈ family} ∧
      ∃ after, Update.set alpha .shopt 1 s = some (.ok, after) ∧
        (List.range 6).map after.storage.read = [1, 1, 1, 0, 1, 1] := by
  intro partner member alpha family noglob s
  have hIds : Identified {d | d ∈ noglob :: family} := identified_of_nodup (by decide)
  have hKept : s.registry.WellKept {d | d ∈ noglob :: family} := by
    dsimp only [s]
    exact Registry.wellKept_addEach hIds
  have hFamily : MirrorFamily partner s.registry {d | d ∈ family} := by
    refine ⟨?_, fun d _ e hFound => ?_⟩
    · intro d hd
      change d ∈ [_, _, _, _, _] at hd
      simp only [List.mem_cons, List.not_mem_nil, or_false] at hd
      obtain rfl | rfl | rfl | rfl | rfl := hd <;> exact ⟨_, rfl, rfl⟩
    · obtain ⟨-, hName⟩ := (Registry.findName?_eq_some_iff _ _).mp hFound
      obtain rfl | hMember := List.mem_cons.mp (hKept.within.named hFound)
      · have hPartner : partner d ≠ "noglob" := by
          dsimp only [partner]
          split_ifs <;> decide
        exact absurd (Option.some.inj hName).symm hPartner
      · exact hMember
  obtain ⟨stop, outcome, after, hBound, hSpread, -, hRun⟩ :=
    set_of_mirrorFamily hFamily (d := alpha) List.mem_cons_self .shopt 1
  have hStop : s.stops partner alpha 1 3 = true := by decide +kernel
  have hPath : ∀ n < 3, s.stops partner alpha 1 n = false := by decide +kernel
  obtain rfl : stop = 3 := by
    refine Nat.le_antisymm (Nat.le_of_not_lt fun hLater => ?_) (Nat.le_of_not_lt fun hEarlier => ?_)
    · exact Bool.false_ne_true ((hSpread.passed 3 hLater).symm.trans hStop)
    · exact Bool.false_ne_true ((hPath stop hEarlier).symm.trans hSpread.stopped)
  obtain ⟨cell, hCell, hOutcome⟩ := hSpread.outcome
  obtain rfl : 0 = cell := Option.some.inj hCell
  have hOk : outcome = .ok := hOutcome.trans (by decide +kernel)
  refine ⟨hFamily, after, hOk ▸ hRun (by decide), ?_⟩
  rw [funext hSpread.cells]
  decide +kernel

end Options

end OptionShell
