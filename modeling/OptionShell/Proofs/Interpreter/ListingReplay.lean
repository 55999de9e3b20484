import OptionShell.Builtin.Set
import OptionShell.Proofs.Interpreter.Loading
import OptionShell.Proofs.Interpreter.QuotedLine
import OptionShell.Proofs.Options.ListingText
import OptionShell.Proofs.Options.SavedFlags
import OptionShell.Proofs.Registry.Within

/-!
# Replay of listings

The listing of `set +o` holds a command for each option that it shows. The commands, run one after the other, bring the
options into the states that they were listed with. What the options do to the shell on the way does not matter: with
`noexec` on `set` still runs, and none of the commands fails or refers to a variable.
-/
namespace OptionShell

open Execution Line

variable {α : Type}

/-! ## One command -/

namespace Builtin

variable {d : Definition (Host α)} {name : String} {w : Workspace α} {options : Options (Host α)} {on : Bool}

theorem run_turnNamed (hFound : w.options.registry.findName? name = some d)
    (hSet : Update.set d .setO (switchValue on) w.options = some (.ok, options)) :
    (turnNamed name on).run w = some (.ok (), { w with options }) := by
  have hUpdate : (Action.update (Update.set d .setO (switchValue on))).run w = some (.ok .ok, { w with options }) := by
    rw [Action.run_update, hSet]
    rfl
  have hStart : ∀ next : Workspace α → Action α Unit, (get >>= next).run w = (next w).run w := fun _ => rfl
  rw [turnNamed, hStart, hFound]
  change ((Action.update (Update.set d .setO (switchValue on))).run w).bind _ = _
  rw [hUpdate]
  rfl

theorem run_set_named (hFound : w.options.registry.findName? name = some d) (hSign : startsWithSign name = false)
    (hSet : Update.set d .setO (switchValue on) w.options = some (.ok, options)) :
    (set.run [String.ofList [Flag.sign on, 'o'], name]).run w = some (.ok .silent, { w with options }) := by
  have hArgs : setArgs (α := α) [String.ofList [Flag.sign on, 'o'], name] = do
      turnNamed name on
      return [] := by
    rw [setArgs, hSign]
    cases on <;> rfl
  change ((setArgs [String.ofList [Flag.sign on, 'o'], name]).run w).bind _ = _
  rw [hArgs]
  change (((turnNamed name on).run w).bind _).bind _ = _
  rw [run_turnNamed hFound hSet]
  rfl

end Builtin

namespace Interpreter

variable {interp : Interpreter α} {d : Definition (Host α)} {name : String} {cell : CellId} {t : Session α}

/-- Runs lines one after the other, however each of them ends. -/
def executeEach (interp : Interpreter α) (depth : Nat) :
    List String → Session α → Option (List (Except ShellError Output) × Session α)
  | [], s => some ([], s)
  | line :: rest, s => ((interp.execute depth line).run s).bind fun ran =>
    (executeEach interp depth rest ran.2).map fun others => (ran.1 :: others.1, others.2)

/-- A line of the listing sets its option and does nothing else. -/
theorem exists_run_render_setCommand (depth : Nat) (hSet : interp.commands.find? "set" = some Builtin.set)
    (hFound : t.options.registry.findName? name = some d) (hName : d.name? = some name) (hWord : WordName name)
    (hSetter : d.setter? = none) (hCell : d.cell? = some cell) (hYields : d.yieldsTo .setO = true) (on : Bool) :
    ∃ after, (interp.execute (depth + 1) (d.render .setCommand on)).run t = some (.ok .silent, after) ∧
      after.exit? = t.exit? ∧ Options.SetResult d true (switchValue on) t.options (.ok, after.options) := by
  obtain ⟨outcome, options, hChange, rfl, hResult⟩ :=
    Options.ensures_set_of_yieldsTo hSetter hYields hCell (switchValue on) t.options
  have hLine := run_execute_of_writes interp depth (d.writes_render_setCommand hName hWord on) t
  obtain ⟨diagnostics, hTraced⟩ := exists_traced ["set", String.ofList [Flag.sign on, 'o'], name] t
  have hCommand : interp.findCommand? t.loaded "set" = some Builtin.set := by
    rw [findCommand?, hSet]
    rfl
  have hWords : (interp.runWords (interp.execute depth) ["set", String.ofList [Flag.sign on, 'o'], name]).run t =
      some (.ok .silent, { t with diagnostics, options }) := by
    have hRun : (Builtin.set.run [String.ofList [Flag.sign on, 'o'], name]).run { t.toWorkspace with diagnostics } =
        some (.ok .silent, { t.toWorkspace with diagnostics, options }) :=
      Builtin.run_set_named hFound hWord.unsigned hChange
    rw [run_runWords_of_found interp _ _ (by decide) (by decide) hCommand (.inr rfl), hTraced, hRun]
    rfl
  rw [String.ofList_toList, List.map_cons, List.map_cons, List.map_singleton, String.ofList_toList,
    String.ofList_toList, hWords] at hLine
  exact ⟨_, hLine, rfl, hResult⟩

end Interpreter

/-! ## All commands of a listing -/

/-- Options that commands can bring back into the states of a listing: each has a cell of its own, can be changed at any
time and has a name that is a word, if it has one. -/
structure Registry.Replayable {σ : Type} (r : Registry σ) : Prop where
  consistent : r.Consistent
  plain : Plain {d | d ∈ r.entries}
  unrestricted : ∀ d ∈ r.entries, d.readonly = false ∧ d.fixedAfterStart = false ∧ d.dropsChanges = false
  named : ∀ d ∈ r.entries, ∀ name ∈ d.name?, WordName name

/-- Registering such options gives a registry of this kind, whatever their order. -/
theorem Registry.replayable_addEach {σ : Type} {items : List (Definition σ)} (hPlain : Plain {d | d ∈ items})
    (hUnrestricted : ∀ d ∈ items, d.readonly = false ∧ d.fixedAfterStart = false ∧ d.dropsChanges = false)
    (hNames : ∀ d ∈ items, ∀ name ∈ d.name?, WordName name) : (Registry.empty.addEach items).Replayable := by
  have hKept := wellKept_addEach hPlain.identified
  have hLive := hKept.within.live
  exact ⟨hKept.consistent, hPlain.subset hLive, fun d hd => hUnrestricted d (hLive d hd),
    fun d hd => hNames d (hLive d hd)⟩

/-- The options after some of them were brought into the states of a listing. -/
structure Options.Replayed {σ : Type} (s t : Options σ) (done : List (Definition σ)) (after : Options σ) : Prop where
  registry : after.registry = t.registry
  shown : ∀ d ∈ done, ∀ cell, d.cell? = some cell → after.storage.read cell = switchValue (s.isOn d .setO)
  others : ∀ cell, (∀ d ∈ done, d.cell? ≠ some cell) → after.storage.read cell = t.storage.read cell

namespace Options.Replayed

variable {σ : Type} [HostVariables σ] {s t mid after : Options σ} {done : List (Definition σ)} {d : Definition σ}
  {outcome : Outcome}

theorem setResult (h : Replayed s t done mid)
    (hCells : ∀ e ∈ done, ∀ cell, e.cell? = some cell → d.cell? = some cell → e = d)
    (hResult : SetResult d true (switchValue (s.isOn d .setO)) mid (outcome, after)) :
    Replayed s t (done ++ [d]) after := by
  constructor
  · obtain ⟨storage, host, rfl⟩ := hResult.exists_eq
    exact h.registry
  · refine List.forall_mem_append.mpr ⟨fun e he cell hCell => ?_, List.forall_mem_singleton.mpr fun cell => ?_⟩
    · by_cases hOwn : d.cell? = some cell
      · rw [hResult.read_own hOwn, hCells e he cell hCell hOwn]
      · rw [hResult.read_of_ne hOwn]
        exact h.shown e he cell hCell
    · exact hResult.read_own
  · intro cell hOther
    rw [hResult.read_of_ne (hOther d (List.mem_append_right done List.mem_cons_self))]
    exact h.others cell fun e he => hOther e (List.mem_append_left [d] he)

end Options.Replayed

namespace Interpreter

variable {interp : Interpreter α} {s : Options (Host α)} {t mid : Session α} {done defs : List (Definition (Host α))}

theorem exists_executeEach (depth : Nat) (hSet : interp.commands.find? "set" = some Builtin.set)
    (hReplayable : s.registry.Replayable) (hRegistry : t.options.registry = s.registry)
    (hDone : ∀ d ∈ done, d ∈ s.registry.entries)
    (hDefs : ∀ d ∈ defs, d ∈ s.registry.entries ∧ ∃ name, d.name? = some name)
    (h : s.Replayed t.options done mid.options) :
    ∃ after, interp.executeEach (depth + 1) (defs.map fun d => d.render .setCommand (s.isOn d .setO)) mid =
        some (defs.map fun _ => .ok .silent, after) ∧
      after.exit? = mid.exit? ∧ s.Replayed t.options (done ++ defs) after.options := by
  -- The options that are done stay as they are, for no two have one cell.
  induction defs generalizing done mid with
  | nil => exact ⟨mid, rfl, rfl, by rwa [List.append_nil]⟩
  | cons d rest ih =>
    obtain ⟨⟨hLive, name, hName⟩, hRest⟩ := List.forall_mem_cons.mp hDefs
    obtain ⟨cell, hCell⟩ := Option.isSome_iff_exists.mp (hReplayable.plain.stored d hLive)
    have hYields : d.yieldsTo .setO = true := Definition.yieldsTo_eq_true (hReplayable.unrestricted d hLive) .setO
    have hFound : mid.options.registry.findName? name = some d := by
      rw [h.registry, hRegistry]
      exact (Registry.findName?_eq_some_iff _ name).mpr ⟨hLive, hName⟩
    obtain ⟨next, hLine, hExit, hResult⟩ := exists_run_render_setCommand depth hSet hFound hName
      (hReplayable.named d hLive name hName) (hReplayable.plain.noSetter d hLive) hCell hYields (s.isOn d .setO)
    have hNext := h.setResult (fun e he cell heCell hdCell =>
      hReplayable.plain.ownCells e (hDone e he) d hLive (heCell.trans hdCell.symm)) hResult
    have hAll := List.forall_mem_append.mpr ⟨hDone, List.forall_mem_singleton.mpr hLive⟩
    obtain ⟨after, hLines, hSame, hAfter⟩ := ih hAll hRest hNext
    refine ⟨after, ?_, hSame.trans hExit, ?_⟩
    · rw [List.map_cons, executeEach, hLine, Option.bind_some, hLines]
      rfl
    · rwa [List.append_assoc] at hAfter

/-- The listing of `set +o`, run line by line, turns the options on and off as they were listed, and leaves those that
it does not show as they are. Every line succeeds. -/
theorem set_listing_replayed (interp : Interpreter α) (depth : Nat) (s : Options (Host α)) (t : Session α)
    (hSet : interp.commands.find? "set" = some Builtin.set) (hReplayable : s.registry.Replayable)
    (hRegistry : t.options.registry = s.registry) :
    ∃ results after, interp.executeEach (depth + 1)
          ((Text.lines (s.listing .setO 0 .setCommand).toList).map String.ofList) t = some (results, after) ∧
      (∀ result ∈ results, result = .ok .silent) ∧ after.exit? = t.exit? ∧ after.options.registry = s.registry ∧
      ∀ d ∈ s.registry.entries, ∀ why,
        (d.hiddenFromSet = false → d.name?.isSome → after.options.isOn d why = s.isOn d why) ∧
        (d.hiddenFromSet = true ∨ d.name? = none → after.options.get d why = t.options.get d why) := by
  have hShown : ∀ d, d ∈ s.listable .setO .setCommand ↔
      (d ∈ s.registry.entries ∧ d.hiddenFromSet = false) ∧ d.name?.isSome := by
    intro d
    rw [Options.listable, List.mem_filter, Registry.visible, List.mem_filter, ← Bool.not_eq_true']
    rfl
  have hDefs : ∀ d ∈ s.listable .setO .setCommand, d ∈ s.registry.entries ∧ ∃ name, d.name? = some name := by
    intro d hd
    obtain ⟨⟨hLive, -⟩, hName⟩ := (hShown d).mp hd
    exact ⟨hLive, Option.isSome_iff_exists.mp hName⟩
  have hStart : s.Replayed t.options [] t.options := ⟨rfl, List.forall_mem_nil _, fun _ _ => rfl⟩
  obtain ⟨after, hLines, hExit, hAfter⟩ := exists_executeEach depth hSet hReplayable hRegistry
    (List.forall_mem_nil _) hDefs hStart
  rw [← Options.lines_listing_setCommand hReplayable.named] at hLines
  refine ⟨_, after, hLines, ?_, hExit, hAfter.registry.trans hRegistry, fun d hd why => ?_⟩
  · intro result hResult
    obtain ⟨d, -, rfl⟩ := List.mem_map.mp hResult
    rfl
  · obtain ⟨cell, hCell⟩ := Option.isSome_iff_exists.mp (hReplayable.plain.stored d hd)
    have hRead := fun options : Options (Host α) =>
      Options.get_eq_read (hReplayable.plain.noGetter d hd) hCell options
    constructor
    · intro hVisible hName
      have hValue := hAfter.shown d ((hShown d).mpr ⟨⟨hd, hVisible⟩, hName⟩) cell hCell
      rw [Options.isOn, hRead, hValue]
      rw [Options.isOn, Options.isOn, hRead, hRead]
      simp [switchValue]
    · intro hHidden
      rw [hRead, hRead]
      refine congrArg some (hAfter.others cell fun e he hShared => ?_)
      obtain ⟨⟨hLive, hVisible⟩, hName⟩ := (hShown e).mp he
      obtain rfl := hReplayable.plain.ownCells e hLive d hd (hShared.trans hCell.symm)
      obtain hHidden | hNone := hHidden
      · rw [hHidden] at hVisible
        cases hVisible
      · rw [hNone] at hName
        cases hName

/-- The listing turns `errexit` and `noexec` on before the lines of the other options. -/
theorem set_listing_replayed_under_noexec :
    let interp : Interpreter Unit := { commands := CommandTable.add Builtin.set .empty }
    let s : Options (Host Unit) := {
      registry := Registry.empty.addEach [
        { id := 0, name? := some "nounset", cell? := some 0 },
        { id := 1, name? := some "extglob", cell? := some 1, hiddenFromSet := true },
        { id := 2, name? := some "noexec", cell? := some 2 },
        { id := 3, name? := some "errexit", cell? := some 3 }]
      storage := .ofList [0, 0, -3, 1]
      host := { user := () } }
    let t : Session Unit := { options := { s with storage := .ofList [1, 5, 0, 0] } }
    interp.commands.find? "set" = some Builtin.set ∧ s.registry.Replayable ∧
      (Text.lines (s.listing .setO 0 .setCommand).toList).map String.ofList =
        ["set -o errexit", "set -o noexec", "set +o nounset"] ∧
      ∃ results after, interp.executeEach 1 ["set -o errexit", "set -o noexec", "set +o nounset"] t =
          some (results, after) ∧
        after.options.registry.entries.map (fun d => (d.label, after.options.isOn d .any)) =
          [("errexit", true), ("extglob", true), ("noexec", true), ("nounset", false)] := by
  intro interp s t
  have hSet : interp.commands.find? "set" = some Builtin.set := rfl
  have hReplayable : s.registry.Replayable := by
    apply Registry.replayable_addEach
    · exact plain_of_nodup (by decide) (by decide) (by decide)
    · decide
    · decide +kernel
  have hLines : (Text.lines (s.listing .setO 0 .setCommand).toList).map String.ofList =
      ["set -o errexit", "set -o noexec", "set +o nounset"] := by decide +kernel
  -- Without this step the comparison of the registries would run the additions.
  have hRegistry : t.options.registry = s.registry := by dsimp only [t]
  obtain ⟨results, after, hRun, -, -, hSame, hValues⟩ := set_listing_replayed interp 0 s t hSet hReplayable hRegistry
  rw [hLines] at hRun
  have hStates : after.options.registry.entries.map (fun d => (d.label, after.options.isOn d .any)) =
      s.registry.entries.map fun d =>
        (d.label, if d.hiddenFromSet then t.options.isOn d .any else s.isOn d .any) := by
    rw [hSame]
    refine List.map_congr_left fun d hd => ?_
    cases hHidden : d.hiddenFromSet with
    | true => rw [if_pos rfl, Options.isOn, (hValues d hd .any).2 (.inl hHidden), Options.isOn]
    | false =>
      have hName : s.registry.entries.all (fun d => d.name?.isSome) = true := by decide +kernel
      rw [if_neg (by decide), (hValues d hd .any).1 hHidden (List.all_eq_true.mp hName d hd)]
  exact ⟨hSet, hReplayable, hLines, results, after, hRun, hStates.trans (by decide +kernel)⟩

end Interpreter

end OptionShell
