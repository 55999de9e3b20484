import OptionShell.Builtin.Set
import OptionShell.Proofs.Interpreter.Loading
import OptionShell.Proofs.Registry.Within
import OptionShell.Proofs.Shell.ArgumentPhrases
import OptionShell.Proofs.Shell.Settings

/-!
# Clusters of letters

A cluster of letters after a sign says the same to `set` and to the shell at its start: letter by letter it turns
options on or off, up to the first letter that no option has. This holds if the options with letters can be changed in
every context. The complaints about a letter differ in their first word only.
-/
namespace OptionShell

variable {σ α : Type} {on : Bool} {letters done : List Char} {letter : Char} {d : Definition σ}

/-- Can be changed in every context. The value is that of a cell, and no rule or setter stands against a change. -/
structure Definition.Unrestricted (d : Definition σ) : Prop where
  stored : d.cell?.isSome
  noSetter : d.setter? = none
  noRule : d.readonly = false ∧ d.fixedAfterStart = false ∧ d.dropsChanges = false

/-! ## One by one -/

namespace Update

theorem get_bind_eq {β : Type} (next : Options σ → Update σ β) (s : Options σ) : (get >>= next) s = next s s := rfl

variable [HostVariables σ]

/-- Turns the flags of the letters one after the other, up to the first that is refused. The answer tells its letter
and the outcome. -/
def turnFlags (sign : Char) : List Char → Update σ (Except (Char × Outcome) Unit)
  | [] => return .ok ()
  | letter :: rest => do
    match ← turnFlag letter sign with
    | .ok _ => turnFlags sign rest
    | .error outcome => return .error (letter, outcome)

theorem turnFlags_cons (on : Bool) (letter : Char) (rest : List Char) (s : Options σ) :
    turnFlags (Flag.sign on) (letter :: rest) s = (switchFlag letter on s).bind fun ran => match ran.1 with
      | .ok _ => turnFlags (Flag.sign on) rest ran.2
      | .error outcome => some (.error (letter, outcome), ran.2) := by
  rw [turnFlags, turnFlag, Assign.turnFlag, Flag.ofSign?_sign]
  change (switchFlag letter on s).bind _ = _
  refine congrArg _ (funext fun ran => ?_)
  obtain ⟨outcome | old, after⟩ := ran <;> rfl

variable {s mid : Options σ}

theorem switchFlag_of_missing (hMissing : s.registry.findLetter? letter = none) :
    switchFlag letter on s = some (.error .notFound, s) := by
  rw [switchFlag, Assign.switchFlag, get_bind_eq, hMissing]
  rfl

theorem exists_switchFlag_of_set (hFound : s.registry.findLetter? letter = some d)
    (hSet : set d .flag (switchValue on) s = some (.ok, mid)) :
    ∃ old, switchFlag letter on s = some (.ok old, mid) := by
  refine ⟨(s.get d .flag).getD 0, ?_⟩
  rw [switchFlag, Assign.switchFlag, get_bind_eq, hFound]
  change (set d .flag (switchValue on) s).bind _ = _
  rw [hSet]
  rfl

end Update

namespace Options

/-- The options after those of the letters were turned on or off. -/
structure Turned (s : Options σ) (on : Bool) (letters : List Char) (after : Options σ) : Prop where
  registry : after.registry = s.registry
  /-- Each letter has an option, and its cell tells what the sign says. -/
  turned : ∀ letter ∈ letters, ∃ d, s.registry.findLetter? letter = some d ∧
    ∀ cell, d.cell? = some cell → after.storage.read cell = switchValue on
  others : ∀ cell, (∀ letter ∈ letters, ∀ d, s.registry.findLetter? letter = some d → d.cell? ≠ some cell) →
    after.storage.read cell = s.storage.read cell

theorem turned_nil (s : Options σ) (on : Bool) : s.Turned on [] s :=
  ⟨rfl, List.forall_mem_nil _, fun _ _ => rfl⟩

variable [HostVariables σ] {s mid after : Options σ}

theorem Turned.setResult (h : s.Turned on done mid) (hFound : s.registry.findLetter? letter = some d)
    (hResult : SetResult d true (switchValue on) mid (.ok, after)) : s.Turned on (done ++ [letter]) after := by
  constructor
  · obtain ⟨storage, host, rfl⟩ := hResult.exists_eq
    exact h.registry
  · refine List.forall_mem_append.mpr ⟨fun other hOther => ?_, List.forall_mem_singleton.mpr ?_⟩
    · obtain ⟨e, hSame, hValue⟩ := h.turned other hOther
      refine ⟨e, hSame, fun cell hCell => ?_⟩
      -- Two options of one cell get the same value.
      by_cases hShared : d.cell? = some cell
      · exact hResult.read_own hShared
      · rw [hResult.read_of_ne hShared]
        exact hValue cell hCell
    · exact ⟨d, hFound, fun cell hCell => hResult.read_own hCell⟩
  · intro cell hNone
    rw [hResult.read_of_ne (hNone letter (List.mem_append_right done List.mem_cons_self) d hFound)]
    exact h.others cell fun other hOther => hNone other (List.mem_append_left [letter] hOther)

/-- A letter of the arguments does what `set` does with it. -/
theorem exists_turned (hd : d.Unrestricted) (hFound : s.registry.findLetter? letter = some d) (on : Bool) :
    ∃ old after, Update.switchFlag letter on s = some (.ok old, after) ∧
      (Setting.letter letter on).apply s = some (.ok, after) ∧
      SetResult d true (switchValue on) s (.ok, after) := by
  obtain ⟨cell, hCell⟩ := Option.isSome_iff_exists.mp hd.stored
  obtain ⟨_, after, hFlag, rfl, hResult⟩ := ensures_set_of_yieldsTo hd.noSetter
    (Definition.yieldsTo_eq_true hd.noRule .flag) hCell (switchValue on) s
  obtain ⟨_, other, hArgument, rfl, hOther⟩ := ensures_set_of_yieldsTo hd.noSetter
    (Definition.yieldsTo_eq_true hd.noRule .arguments) hCell (switchValue on) s
  obtain rfl := hResult.after_unique hOther
  obtain ⟨old, hSwitch⟩ := Update.exists_switchFlag_of_set hFound hFlag
  refine ⟨old, after, hSwitch, ?_, hResult⟩
  rw [Setting.apply_eq, Setting.target?, hFound]
  exact hArgument

/-- Letters are applied as settings with the same result. -/
theorem Turned.exists_turnFlags (hAll : ∀ letter d, s.registry.findLetter? letter = some d → d.Unrestricted)
    (h : s.Turned on done mid) (letters : List Char) : ∃ result after,
      Update.turnFlags (Flag.sign on) letters mid = some (result, after) ∧
      Arguments.applyAll (letters.map fun letter => .letter letter on) mid =
        some (result.mapError fun refusal => (Setting.letter refusal.1 on).error refusal.2, after) ∧
      (result = .ok () ∧ s.Turned on (done ++ letters) after ∨
        ∃ before letter rest, letters = before ++ letter :: rest ∧ s.registry.findLetter? letter = none ∧
          s.Turned on (done ++ before) after ∧ result = .error (letter, .notFound)) := by
  induction letters generalizing done mid with
  | nil => exact ⟨.ok (), mid, rfl, rfl, .inl ⟨rfl, by rwa [List.append_nil]⟩⟩
  | cons letter rest ih =>
    cases hFound : s.registry.findLetter? letter with
    | none =>
      have hMissing : mid.registry.findLetter? letter = none := by rw [h.registry, hFound]
      have hApply : (Setting.letter letter on).apply mid = some (.notFound, mid) := by
        rw [Setting.apply_eq, Setting.target?, hMissing]
      rw [Update.turnFlags_cons, Update.switchFlag_of_missing hMissing, List.map_cons, Arguments.applyAll_cons hApply]
      exact ⟨_, mid, rfl, rfl, .inr ⟨[], letter, rest, rfl, hFound, by rwa [List.append_nil], rfl⟩⟩
    | some d =>
      have hLive : mid.registry.findLetter? letter = some d := by rw [h.registry, hFound]
      obtain ⟨old, next, hSwitch, hApply, hResult⟩ := exists_turned (hAll letter d hFound) hLive on
      obtain ⟨result, after, hRest, hApplied, hEnds⟩ := ih (h.setResult hFound hResult)
      refine ⟨result, after, ?_, ?_, ?_⟩
      · rw [Update.turnFlags_cons, hSwitch]
        exact hRest
      · rw [List.map_cons, Arguments.applyAll_cons hApply]
        exact hApplied
      · rw [List.append_cons]
        refine hEnds.imp id ?_
        rintro ⟨before, other, left, rfl, hMissing, hTurned, hRefused⟩
        rw [← List.append_cons] at hTurned
        exact ⟨letter :: before, other, left, rfl, hMissing, hTurned, hRefused⟩

end Options

/-! ## The builtin -/

namespace Builtin

theorem run_turnLetters_cons (on : Bool) (letter : Char) (rest : List Char) (w : Workspace α) :
    (turnLetters on (letter :: rest)).run w =
      ((Action.update (Update.switchFlag letter on)).run w).bind fun ran => match ran.1 with
        | .ok (.ok _) => (turnLetters on rest).run ran.2
        | .ok (.error outcome) =>
          some (.error (changeError "set" (outcome.complaint (String.ofList [Flag.sign on, letter])) outcome), ran.2)
        | .error error => some (.error error, ran.2) := by
  change (((Action.update (Update.switchFlag letter on)).run w).bind _).bind _ = _
  rw [Option.bind_assoc]
  refine congrArg _ (funext fun ran => ?_)
  obtain ⟨error | outcome | old, after⟩ := ran <;> rfl

theorem run_turnLetters (on : Bool) (letters : List Char) (w : Workspace α) :
    (turnLetters on letters).run w = (Update.turnFlags (Flag.sign on) letters w.options).map fun ran =>
      (ran.1.mapError fun refusal =>
          changeError "set" (refusal.2.complaint (String.ofList [Flag.sign on, refusal.1])) refusal.2,
        { w with options := ran.2 }) := by
  induction letters generalizing w with
  | nil => rfl
  | cons letter rest ih =>
    rw [run_turnLetters_cons, Action.run_update, Update.turnFlags_cons]
    cases Update.switchFlag letter on w.options with
    | none => rfl
    | some ran =>
      obtain ⟨outcome | old, after⟩ := ran
      · rfl
      · exact ih { w with options := after }

theorem run_set_cluster (h : IsCluster on letters) (w : Workspace α) :
    (set.run [String.ofList (Flag.sign on :: letters)]).run w =
      ((turnLetters on letters).run w).map fun ran => (ran.1.map fun _ => .silent, ran.2) := by
  have hOwn := h.notMem_ownWords
  have hBare : String.ofList (Flag.sign on :: letters) ≠ "-" := by
    intro hSame
    have hText := congrArg String.toList hSame
    rw [String.toList_ofList] at hText
    exact h.nonempty (List.cons.inj hText).2
  simp only [Phrase.ownWords, List.mem_cons, not_or] at hOwn
  obtain ⟨hEnd, -, -, -, -, hSmall, hPlus, -⟩ := hOwn
  have hNamed : ¬(decide (String.ofList (Flag.sign on :: letters) = "-o") ||
      decide (String.ofList (Flag.sign on :: letters) = "+o")) = true := by
    rw [Bool.or_eq_true, decide_eq_true_eq, decide_eq_true_eq, not_or]
    exact ⟨hSmall, hPlus⟩
  have hArgs : setArgs [String.ofList (Flag.sign on :: letters)] = (do
      turnLetters on letters
      return [] : Action α (List String)) := by
    rw [setArgs.eq_def]
    dsimp only
    rw [if_neg hEnd, if_neg hBare, if_neg hNamed, setArg, String.toList_ofList]
    dsimp only
    rw [Flag.ofSign?_sign]
    rfl
  change ((setArgs [String.ofList (Flag.sign on :: letters)]).run w).bind _ = _
  rw [hArgs]
  change (((turnLetters on letters).run w).bind _).bind _ = _
  obtain _ | ⟨⟨error | answer, after⟩⟩ := (turnLetters on letters).run w <;> rfl

end Builtin

/-! ## Both readings -/

/-- How a cluster is carried out: to its end, or up to the first letter that no option has. The answers are that at the
start of a shell and that of `set`. Turning the flags one by one has the same effect. -/
inductive CarriesOut [HostVariables σ] (s : Options σ) (on : Bool) (letters : List Char) :
    Except ShellError Unit → Except ShellError Output → Options σ → Prop where
  | all {after : Options σ} (hTurned : s.Turned on letters after)
    (hEach : Update.turnFlags (Flag.sign on) letters s = some (.ok (), after)) :
    CarriesOut s on letters (.ok ()) (.ok .silent) after
  | stopped {after : Options σ} (before : List Char) (letter : Char) (rest : List Char) (complaint : String)
    (hLetters : letters = before ++ letter :: rest) (hMissing : s.registry.findLetter? letter = none)
    (hTurned : s.Turned on before after)
    (hEach : Update.turnFlags (Flag.sign on) letters s = some (.error (letter, .notFound), after))
    (hComplaint : complaint = String.ofList [Flag.sign on, letter] ++ ": invalid option") :
    CarriesOut s on letters (.error (.option complaint 2)) (.error (.option ("set: " ++ complaint) 2)) after

theorem complaint_notFound (on : Bool) (letter : Char) :
    Outcome.complaint (String.ofList [Flag.sign on, letter]) .notFound =
      String.ofList [Flag.sign on, letter] ++ ": invalid option" := by
  rw [Outcome.complaint, if_pos rfl, unknownOptionText, String.toList_ofList]
  cases on <;> rfl

/-- Options with letters that can be changed in every context are turned alike by `set` and at the start of a shell,
whatever letters come after the sign. -/
theorem clusters_read_alike (w : Workspace α)
    (hAll : ∀ letter d, w.options.registry.findLetter? letter = some d → d.Unrestricted)
    (hCluster : IsCluster on letters) : ∃ arguments atStart bySet after,
      Arguments.ofList [String.ofList (Flag.sign on :: letters)] = .ok arguments ∧
      arguments.apply w.options = some (atStart, after) ∧
      (Builtin.set.run [String.ofList (Flag.sign on :: letters)]).run w =
        some (bySet, { w with options := after }) ∧
      CarriesOut w.options on letters atStart bySet after := by
  obtain ⟨arguments, hRead, hSettings⟩ :=
    Arguments.readArgs_of_spells (.cons (.cluster on letters hCluster) .done) {}
  rw [List.flatMap_singleton] at hSettings
  obtain ⟨result, after, hEach, hApplied, hEnds⟩ := (w.options.turned_nil on).exists_turnFlags hAll letters
  have hSet := Builtin.run_set_cluster hCluster w
  rw [Builtin.run_turnLetters, hEach] at hSet
  have hApply : arguments.apply w.options = Arguments.applyAll (letters.map fun letter => .letter letter on) w.options :=
    congrArg (Arguments.applyAll · w.options) hSettings
  rw [← hApply] at hApplied
  refine ⟨arguments, _, _, after, hRead, hApplied, hSet, ?_⟩
  obtain ⟨rfl, hTurned⟩ | ⟨before, letter, rest, hLetters, hMissing, hTurned, rfl⟩ := hEnds
  · exact .all hTurned hEach
  · have hStopped := CarriesOut.stopped before letter rest _ hLetters hMissing hTurned hEach rfl
    rw [← complaint_notFound] at hStopped
    exact hStopped

/-- The second `f` changes nothing, `-` is the letter of an option, and `x` after `é` is not reached. -/
theorem clusters_read_alike_up_to_foreign_letter :
    let items : List (Definition (Host Unit)) := [
      { id := 0, name? := some "noglob", letter? := some 'f', cell? := some 0, inShellopts := true },
      { id := 1, name? := some "locked", readonly := true },
      { id := 2, letter? := some '-', cell? := some 1 },
      { id := 3, name? := some "xtrace", letter? := some 'x', cell? := some 2 }]
    let w : Workspace Unit := { options := {
      registry := Registry.empty.addEach items
      storage := .ofList [0, 7, 7]
      host := { user := () }
      attached := true } }
    let letters := ['f', '-', 'f', 'é', 'x']
    (∀ letter d, w.options.registry.findLetter? letter = some d → d.Unrestricted) ∧ IsCluster true letters ∧
      ∃ arguments after, Arguments.ofList ["-f-féx"] = .ok arguments ∧
        arguments.apply w.options = some (.error (.option "-é: invalid option" 2), after) ∧
        (Builtin.set.run ["-f-féx"]).run w =
          some (.error (.option "set: -é: invalid option" 2), { w with options := after }) ∧
        [0, 1, 2].map after.storage.read = [1, 1, 7] := by
  intro items w letters
  have hIds : Identified {d | d ∈ items} := identified_of_nodup (by decide)
  have hItems : ∀ d ∈ items, d.letter?.isSome → d.cell?.isSome ∧ d.setter? = none ∧
      d.readonly = false ∧ d.fixedAfterStart = false ∧ d.dropsChanges = false := by decide
  have hAll : ∀ letter d, w.options.registry.findLetter? letter = some d → d.Unrestricted := by
    intro letter d hFound
    have hKept := Registry.wellKept_addEach hIds
    obtain ⟨hLive, hLetter⟩ := (hKept.consistent.lettered letter d).mp hFound
    obtain ⟨hStored, hSetter, hRule⟩ := hItems d (hKept.within.live d hLive) (by rw [hLetter]; rfl)
    exact ⟨hStored, hSetter, hRule⟩
  have hCluster : IsCluster true letters := ⟨by decide, by decide, by decide⟩
  have hRuns : ((Arguments.ofList ["-f-féx"]).toOption.bind fun arguments => arguments.apply w.options).any
      (fun ran => decide (ran.1 = .error (.option "-é: invalid option" 2)) &&
        decide ([0, 1, 2].map ran.2.storage.read = [1, 1, 7])) = true := by decide +kernel
  obtain ⟨arguments, atStart, bySet, after, hRead, hApply, hSet, hEnds⟩ := clusters_read_alike w hAll hCluster
  have hRead : Arguments.ofList ["-f-féx"] = .ok arguments := hRead
  rw [hRead] at hRuns
  change (arguments.apply w.options).any _ = true at hRuns
  rw [hApply, Option.any_some, Bool.and_eq_true, decide_eq_true_eq, decide_eq_true_eq] at hRuns
  obtain ⟨rfl, hCells⟩ := hRuns
  cases hEnds with
  | stopped before letter rest complaint hLetters hMissing hTurned hEach hComplaint =>
    exact ⟨hAll, hCluster, arguments, after, hRead, hApply, hSet, hCells⟩

end OptionShell
