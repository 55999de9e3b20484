import OptionShell.Proofs.Shell.Factorization
import OptionShell.Proofs.Shell.Tracking

/-!
# Uses of the extension

The option `is_prime` answers for the candidate of the moment, whatever the extension was used for before. Reading it
changes what the extension remembers and nothing else that shows: neither the candidate nor a divisor that is reported
later on.
-/
namespace OptionShell

namespace Shell

/-- One use of the extension. -/
inductive PrimeUse where
  | load
  | unload
  /-- The command `is_prime`. -/
  | call (args : List String)
  /-- Sets an option, such as `auto_factorize` or `verbose_factorize`. -/
  | set (name : String) (why : Access) (value : Int32)
  /-- Reads the value of an option, such as `is_prime`. -/
  | read (name : String) (why : Access)
  | list (why : Access) (mask : UInt64) (style : Style)
deriving DecidableEq, Repr

namespace PrimeUse

inductive Answer where
  | loading (result : Except ShellError Unit)
  | shown (result : Except ShellError Output)
  | set (result : Except ShellError Outcome)
  | value (result : Except ShellError (Option Int32))
  | listed (result : Except ShellError String)

variable {α : Type}

/-- An action with its result as the answer. -/
def answering (answer : Except ShellError α → Answer) (action : Action Unit α) :
    StateT (Workspace Unit) Option Answer := answer <$> action.run

/-- Calls the command by its name. -/
def callCommand (args : List String) : Action Unit Output := do
  match interpreter.findCommand? (← get).loaded "is_prime" with
  | some command => command.run args
  | none => throw (.command "is_prime: command not found")

def run : PrimeUse → StateT (Workspace Unit) Option Answer
  | load => answering .loading (catalog.load "prime")
  | unload => answering .loading (catalog.unload "prime")
  | call args => answering .shown (callCommand args)
  | set name why value => answering .set (Action.update (Update.setNamed name why value))
  | read name why => answering .value (Action.read (Reading.valueByName name why))
  | list why mask style => answering .listed (Action.read (Reading.listing why mask style))

def runAll (uses : List PrimeUse) : StateT (Workspace Unit) Option (List Answer) := uses.mapM run

/-- The same answer, except that a division may show other trials before the divisor. -/
inductive SameAnswer : Answer → Answer → Prop where
  | same (answer : Answer) : SameAnswer answer answer
  | shown {first second : Except ShellError Output} (h : Prime.SameDivisor first second) :
    SameAnswer (.shown first) (.shown second)

/-! ## Two states of the extension -/

variable {core : Registry (Host Unit)} {d : Definition (Host Unit)} {w : Workspace Unit} {t : Prime.State}
  {action : Action Unit α} {R : Except ShellError α → Except ShellError α → Prop}

/-- The workspace is tracking and has the candidate of `t`, and so would be with `t` as the state of the extension. -/
structure Steady (core : Registry (Host Unit)) (w : Workspace Unit) (t : Prime.State) : Prop where
  tracking : Tracking core w
  candidate : t.candidate = w.options.host.prime.candidate
  current : "prime" ∈ w.loaded → t.Current

theorem Steady.equipped (h : Steady core w t) : Equipped core w := h.tracking.equipped

theorem Steady.agrees (h : Steady core w t) (hLoaded : "prime" ∈ w.loaded) : w.options.host.prime.Agrees t :=
  ⟨h.candidate, h.tracking.current hLoaded, h.current hLoaded⟩

theorem steady_of_agrees (h : Equipped core w) (hAgrees : w.options.host.prime.Agrees t) : Steady core w t :=
  ⟨⟨h, fun _ => hAgrees.left⟩, hAgrees.candidate, fun _ => hAgrees.right⟩

/-- The action has a result, also with `t` as the state of the extension. The results are related, and the workspaces
after it differ in the state of the extension only. -/
def Matched (core : Registry (Host Unit)) (action : Action Unit α)
    (R : Except ShellError α → Except ShellError α → Prop) (w : Workspace Unit) (t : Prime.State) : Prop :=
  ∃ result other after t', action.run w = some (result, after) ∧
    action.run (Prime.setState t w) = some (other, Prime.setState t' after) ∧ R result other ∧ Steady core after t'

theorem Steady.writable (h : Steady core w t) : Writable (Prime.setState t w).options :=
  ⟨h.equipped.stocked.sound.congr rfl rfl, h.equipped.vars⟩

/-- An action that changes nothing. -/
theorem Steady.matched_of_same (h : Steady core w t) {result : Except ShellError α}
    (hFirst : action.run w = some (result, w))
    (hSecond : action.run (Prime.setState t w) = some (result, Prime.setState t w)) : Matched core action (· = ·) w t :=
  ⟨result, result, w, t, hFirst, hSecond, rfl, h⟩

theorem Steady.matched_load (h : Steady core w t) : Matched core (catalog.load "prime") (· = ·) w t := by
  by_cases hLoaded : "prime" ∈ w.loaded
  · exact h.matched_of_same (run_load_of_loaded hLoaded) (run_load_of_loaded hLoaded)
  · have hRun := run_load h.equipped.writable hLoaded
    have hOther := run_load (w := Prime.setState t w) h.writable hLoaded
    rw [primeLoaded_setState] at hOther
    exact ⟨_, _, _, _, hRun, hOther, rfl, steady_of_agrees (h.equipped.load hRun) (Prime.State.agrees_consider _ t _)⟩

theorem Steady.matched_unload (h : Steady core w t) : Matched core (catalog.unload "prime") (· = ·) w t := by
  by_cases hLoaded : "prime" ∈ w.loaded
  · obtain ⟨answer, options, hLeave, hSame, -⟩ := commutesFrom_leave t w.options h.equipped.stocked.sound
    have hFirst : (catalog.unload "prime").run w = _ := Catalog.run_unload find?_catalog_prime hLoaded
    have hOther : "prime" ∈ (Prime.setState t w).loaded := hLoaded
    have hSecond : (catalog.unload "prime").run (Prime.setState t w) = _ :=
      Catalog.run_unload find?_catalog_prime hOther
    change _ = (primeExtension.leave (withPrime t w.options)).map _ at hSecond
    rw [hLeave] at hFirst
    rw [hSame] at hSecond
    have hPrime : options.host.prime = w.options.host.prime :=
      prime_eq_of_commutesFrom commutesFrom_leave h.equipped.stocked.sound hLeave
    -- Both states stay as they were: loading again forgets what they remember.
    refine ⟨_, _, _, t, hFirst, hSecond, rfl, h.tracking.unload hFirst, ?_, fun hAfter => ?_⟩
    · change t.candidate = options.host.prime.candidate
      rw [hPrime]
      exact h.candidate
    · change "prime" ∈ w.loaded.erase "prime" at hAfter
      rw [h.equipped.stocked.loaded_eq hLoaded] at hAfter
      cases hAfter
  · exact h.matched_of_same (run_unload_of_not_loaded hLoaded) (run_unload_of_not_loaded hLoaded)

theorem run_callCommand (hLoaded : "prime" ∈ w.loaded) (args : List String) :
    (callCommand args).run w = ((Prime.command primeCells).run args).run w := by
  change (match interpreter.findCommand? w.loaded "is_prime" with
    | some command => command.run args
    | none => _ : Action Unit Output).run w = _
  rw [findCommand?_is_prime hLoaded]

theorem run_callCommand_of_unloaded (hUnloaded : w.loaded = []) (args : List String) :
    (callCommand args).run w = some (.error (.command "is_prime: command not found"), w) := by
  have hNone : interpreter.findCommand? w.loaded "is_prime" = none := by
    rw [hUnloaded]
    rfl
  change (match interpreter.findCommand? w.loaded "is_prime" with
    | some command => command.run args
    | none => _ : Action Unit Output).run w = _
  rw [hNone]
  rfl

theorem Steady.matched_call (h : Steady core w t) (args : List String) :
    Matched core (callCommand args) Prime.SameDivisor w t := by
  by_cases hLoaded : "prime" ∈ w.loaded
  · obtain ⟨answer, other, vars, s', t', hFirst, hSecond, hAnswers, hVars, hAgrees⟩ :=
      Prime.runsAlike_run primeCells h.equipped.vars (h.agrees hLoaded) false args
    refine ⟨answer, other, _, t', (run_callCommand hLoaded args).trans hFirst,
      (run_callCommand (w := Prime.setState t w) hLoaded args).trans hSecond, hAnswers, steady_of_agrees ?_ hAgrees⟩
    exact h.equipped.congr (h.equipped.stocked.sound.congr rfl rfl) hVars rfl rfl
  · have hUnloaded := (h.equipped.clean hLoaded).loaded
    exact ⟨_, _, w, t, run_callCommand_of_unloaded hUnloaded args,
      run_callCommand_of_unloaded (w := Prime.setState t w) hUnloaded args, .same _, h⟩

theorem Steady.matched_set (h : Steady core w t) (name : String) (why : Access) (value : Int32) :
    Matched core (Action.update (Update.setNamed name why value)) (· = ·) w t := by
  have hSound := h.equipped.stocked.sound
  obtain ⟨outcome, options, hRun, hSame, hAfter⟩ := commutesFrom_setNamed t name why value w.options hSound
  have hRegistry : options.registry = w.options.registry :=
    (((setInvariant_soundOver w.options.registry).setNamed name why value ⟨hSound, rfl⟩).allows _ _ hRun).registry
  have hVars : options.host.vars.OnlyRosters :=
    ((setInvariant_writable.setNamed name why value h.equipped.writable).allows _ _ hRun).vars
  have hPrime : options.host.prime = w.options.host.prime :=
    prime_eq_of_commutesFrom (fun p => commutesFrom_setNamed p name why value) hSound hRun
  have hTracking : Tracking core { w with options } :=
    h.tracking.of_prime_eq (h.equipped.congr hAfter hVars hRegistry rfl) rfl hPrime
  refine ⟨.ok outcome, .ok outcome, { w with options }, t, ?_, ?_, rfl, hTracking, ?_, h.current⟩
  · rw [Action.run_update, hRun]
    rfl
  · rw [Action.run_update]
    change (Update.setNamed name why value (withPrime t w.options)).map _ = _
    rw [hSame]
    rfl
  · change t.candidate = options.host.prime.candidate
    rw [hPrime]
    exact h.candidate

/-! ### Readings -/

/-- The workspace after `is_prime` was read while the extension is loaded. -/
def readPrime (w : Workspace Unit) : Workspace Unit :=
  Prime.setState (w.options.host.prime.searchIsPrime (primeCells.verbose w.options.storage)) w

theorem loaded_of_live (h : Equipped core w) (hLive : isPrimeOption ∈ w.options.registry.entries) :
    "prime" ∈ w.loaded := by
  by_contra hUnloaded
  have hAway := Registry.removeEach_eq_self_iff.mp h.stocked.apart _ isPrimeOption_mem
  rw [← (h.clean hUnloaded).registry, Bool.eq_false_iff] at hAway
  exact hAway ((Registry.holds_iff h.stocked.sound.consistent).mpr ⟨_, hLive, rfl⟩)

theorem Steady.get_eq (h : Steady core w t) (hLive : d ∈ w.options.registry.entries) (why : Access) :
    (withPrime t w.options).get d why = w.options.get d why := by
  obtain hGetter | rfl | rfl := getter?_cases (h.equipped.stocked.sound.within.live d hLive)
  · rw [Options.get, Options.get, hGetter]
    rfl
  · rfl
  · change some (switchValue t.isPrime) = some (switchValue w.options.host.prime.isPrime)
    rw [(h.agrees (loaded_of_live h.equipped hLive)).isPrime_eq]

/-- What reading live options one after the other leaves behind. -/
theorem Steady.exists_noted {defs : List (Definition (Host Unit))} (h : Steady core w t)
    (hLive : ∀ d ∈ defs, d ∈ w.options.registry.entries) (why : Access) :
    ∃ p t', defs.foldl (fun s d => s.noted d why) w.options = withPrime p w.options ∧
      defs.foldl (fun s d => s.noted d why) (withPrime t w.options) = withPrime t' w.options ∧
      Steady core (Prime.setState p w) t' := by
  -- Only `is_prime` leaves something behind. It searches the candidate, in both states the same one.
  induction defs generalizing w t with
  | nil => exact ⟨w.options.host.prime, t, rfl, rfl, h⟩
  | cons d rest ih =>
    obtain ⟨hd, hRest⟩ := List.forall_mem_cons.mp hLive
    obtain hGetter | rfl | rfl := getter?_cases (h.equipped.stocked.sound.within.live d hd)
    · have hSame : ∀ s : Options (Host Unit), s.noted d why = s := fun s => by rw [Options.noted, hGetter]
      rw [List.foldl_cons, List.foldl_cons, hSame, hSame]
      exact ih h hRest
    · exact ih h hRest
    · have hAgrees := (h.agrees (loaded_of_live h.equipped hd)).searchIsPrime (primeCells.verbose w.options.storage)
      have hSound : Sound (readPrime w).options := h.equipped.stocked.sound.congr rfl rfl
      exact ih (steady_of_agrees (h.equipped.congr hSound h.equipped.vars rfl rfl) hAgrees) hRest

theorem run_readPrime (h : Equipped core w) (hLoaded : "prime" ∈ w.loaded) (why : Access) :
    (Action.read (Reading.valueByName "is_prime" why)).run w =
      some (.ok (some (switchValue w.options.host.prime.isPrime)), readPrime w) := by
  have hFound : w.options.registry.findName? "is_prime" = some isPrimeOption :=
    (Registry.findName?_eq_some_iff _ _).mpr ⟨h.offered hLoaded _ isPrimeOption_mem, rfl⟩
  rw [Action.read, Action.run_update, Reading.valueByName_eq, hFound]
  rfl

theorem Steady.listing_eq (h : Steady core w t) (why : Access) (mask : UInt64) (style : Style) :
    (withPrime t w.options).listing why mask style = w.options.listing why mask style := by
  refine congrArg Text.joinLines (List.filterMap_congr fun d hd => ?_)
  have hLive : d ∈ w.options.registry.entries := List.mem_of_mem_filter (List.mem_of_mem_filter hd)
  rw [Options.displayUnless, Options.displayUnless, Options.display, Options.display, Options.isOn, Options.isOn,
    h.get_eq hLive]

/-- A reading that tells the same in both states, and leaves behind what reading live options does. -/
theorem Steady.matched_reading (h : Steady core w t) {reading : Reading (Host Unit) α}
    {defs : List (Definition (Host Unit))} (hLive : ∀ d ∈ defs, d ∈ w.options.registry.entries) (why : Access)
    (answer : α) (hFirst : reading w.options = (answer, defs.foldl (fun s d => s.noted d why) w.options))
    (hSecond : reading (withPrime t w.options) =
      (answer, defs.foldl (fun s d => s.noted d why) (withPrime t w.options))) :
    Matched core (Action.read reading) (· = ·) w t := by
  obtain ⟨p, t', hNoted, hOther, hAfter⟩ := h.exists_noted hLive why
  rw [hNoted] at hFirst
  rw [hOther] at hSecond
  refine ⟨.ok answer, .ok answer, Prime.setState p w, t', ?_, ?_, rfl, hAfter⟩
  · rw [Action.read, Action.run_update, hFirst]
    rfl
  · rw [Action.read, Action.run_update]
    change (some (reading (withPrime t w.options))).map _ = _
    rw [hSecond]
    rfl

theorem Steady.matched_read (h : Steady core w t) (name : String) (why : Access) :
    Matched core (Action.read (Reading.valueByName name why)) (· = ·) w t := by
  have hOther : (withPrime t w.options).registry.findName? name = w.options.registry.findName? name := rfl
  cases hFound : w.options.registry.findName? name with
  | none =>
    refine h.matched_reading (List.forall_mem_nil _) why none ?_ ?_
    · rw [Reading.valueByName_eq, hFound]
      rfl
    · rw [Reading.valueByName_eq, hOther, hFound]
      rfl
  | some d =>
    have hLive := ((Registry.findName?_eq_some_iff _ name).mp hFound).1
    refine h.matched_reading (List.forall_mem_singleton.mpr hLive) why (w.options.get d why) ?_ ?_
    · rw [Reading.valueByName_eq, hFound]
      rfl
    · rw [Reading.valueByName_eq, hOther, hFound, ← h.get_eq hLive]
      rfl

theorem Steady.matched_list (h : Steady core w t) (why : Access) (mask : UInt64) (style : Style) :
    Matched core (Action.read (Reading.listing why mask style)) (· = ·) w t := by
  have hLive : ∀ d ∈ w.options.listable why style, d ∈ w.options.registry.entries := fun d hd =>
    List.mem_of_mem_filter (List.mem_of_mem_filter hd)
  have hListable : (withPrime t w.options).listable why style = w.options.listable why style := rfl
  refine h.matched_reading hLive why (w.options.listing why mask style) (by rw [Reading.listing]) ?_
  rw [Reading.listing, h.listing_eq, hListable]

/-! ## Runs -/

theorem answering_eq {result : Except ShellError α} {after : Workspace Unit}
    (hRun : action.run w = some (result, after)) (answer : Except ShellError α → Answer) :
    answering answer action w = some (answer result, after) := by
  change (action.run w).bind _ = _
  rw [hRun]
  rfl

theorem Matched.answering (h : Matched core action R w t) {answer : Except ShellError α → Answer}
    (hSame : ∀ result other, R result other → SameAnswer (answer result) (answer other)) :
    ∃ first second after t', PrimeUse.answering answer action w = some (first, after) ∧
      PrimeUse.answering answer action (Prime.setState t w) = some (second, Prime.setState t' after) ∧
      SameAnswer first second ∧ Steady core after t' := by
  obtain ⟨result, other, after, t', hFirst, hSecond, hRelated, hAfter⟩ := h
  exact ⟨answer result, answer other, after, t', answering_eq hFirst answer, answering_eq hSecond answer,
    hSame result other hRelated, hAfter⟩

/-- One use in two states of the extension. -/
theorem Steady.exists_run (h : Steady core w t) (use : PrimeUse) :
    ∃ first second after t', use.run w = some (first, after) ∧
      use.run (Prime.setState t w) = some (second, Prime.setState t' after) ∧ SameAnswer first second ∧
      Steady core after t' := by
  have hSame {α : Type} {answer : Except ShellError α → Answer} (result other : Except ShellError α)
      (hEq : result = other) : SameAnswer (answer result) (answer other) := hEq ▸ .same _
  cases use with
  | load => exact h.matched_load.answering hSame
  | unload => exact h.matched_unload.answering hSame
  | call args => exact (h.matched_call args).answering fun _ _ => .shown
  | set name why value => exact (h.matched_set name why value).answering hSame
  | read name why => exact (h.matched_read name why).answering hSame
  | list why mask style => exact (h.matched_list why mask style).answering hSame

theorem runAll_cons {use : PrimeUse} {rest : List PrimeUse} {first : Answer} {answers : List Answer}
    {mid after : Workspace Unit} (hFirst : use.run w = some (first, mid))
    (hRest : runAll rest mid = some (answers, after)) :
    runAll (use :: rest) w = some (first :: answers, after) := by
  rw [runAll, List.mapM_cons]
  change (use.run w).bind _ = _
  rw [hFirst]
  change (runAll rest mid).bind _ = _
  rw [hRest]
  rfl

theorem Steady.exists_runAll (h : Steady core w t) (uses : List PrimeUse) :
    ∃ answers others after t', runAll uses w = some (answers, after) ∧
      runAll uses (Prime.setState t w) = some (others, Prime.setState t' after) ∧
      List.Forall₂ SameAnswer answers others ∧ Steady core after t' := by
  induction uses generalizing w t with
  | nil => exact ⟨[], [], w, t, rfl, rfl, .nil, h⟩
  | cons use rest ih =>
    obtain ⟨first, second, mid, u, hFirst, hSecond, hSame, hMid⟩ := h.exists_run use
    obtain ⟨answers, others, after, t', hRest, hOther, hRestSame, hAfter⟩ := ih hMid
    exact ⟨first :: answers, second :: others, after, t', runAll_cons hFirst hRest, runAll_cons hSecond hOther,
      .cons hSame hRestSame, hAfter⟩

variable {shell : Shell}

/-- However a shell was used and then the extension: while it is loaded, reading `is_prime` tells whether the candidate
is a prime number. What is done afterwards comes out as it would have without the reading: the candidate, the variables
and all answers are the same, up to the trials that are shown with a divisor. -/
theorem is_prime_never_stale (hShell : Reachable shell) (uses : List PrimeUse) :
    ∃ answers after, runAll uses shell.session.toWorkspace = some (answers, after) ∧
      ("prime" ∈ after.loaded → ∀ why, ∃ seen,
        (read "is_prime" why).run after =
          some (.value (.ok (some (if (candidateOf after).toInt.toNat.Prime then 1 else 0))), seen) ∧
        candidateOf seen = candidateOf after ∧
        ∀ later, ∃ firsts last others final, runAll later after = some (firsts, last) ∧
          runAll later seen = some (others, final) ∧ List.Forall₂ SameAnswer firsts others ∧
          candidateOf final = candidateOf last ∧ final.vars = last.vars) := by
  obtain ⟨core, hTracking⟩ := hShell.tracking
  have hSteady : Steady core shell.session.toWorkspace shell.session.options.host.prime :=
    ⟨hTracking, rfl, hTracking.current⟩
  obtain ⟨answers, others, after, t', hRun, -, -, hAfter⟩ := hSteady.exists_runAll uses
  refine ⟨answers, after, hRun, fun hLoaded why => ?_⟩
  have hCurrent := hAfter.tracking.current hLoaded
  have hSeen := Prime.State.agrees_searchIsPrime hCurrent (primeCells.verbose after.options.storage)
  refine ⟨readPrime after, ?_, hSeen.candidate, fun later => ?_⟩
  · have hRead := run_readPrime hAfter.equipped hLoaded why
    simp only [hCurrent.isPrime_eq, switchValue, decide_eq_true_eq] at hRead
    exact answering_eq hRead .value
  · obtain ⟨firsts, others, last, u, hFirst, hSecond, hSame, hLast⟩ :=
      (steady_of_agrees hAfter.equipped hSeen).exists_runAll later
    exact ⟨firsts, last, others, _, hFirst, hSecond, hSame, hLast.candidate, rfl⟩

/-- The least number is read and divided, the extension comes back with its first candidate, and `7` is left of it. -/
theorem is_prime_never_stale_of_divided_candidate :
    let uses := [call ["-s", "-9223372036854775808"], read "is_prime" .any, call ["-d"], unload, read "is_prime" .any,
      load, set "verbose_factorize" .shopt 1, list .any 0 .columns, call ["-q", "-d"], call ["-d"]]
    ∃ shell answers after seen, Shell.start { extensions := ["prime"] } {} [] = some (.ok shell) ∧
      runAll uses shell.session.toWorkspace = some (answers, after) ∧ "prime" ∈ after.loaded ∧ candidateOf after = 7 ∧
      (read "is_prime" .shopt).run after = some (.value (.ok (some 1)), seen) ∧ candidateOf seen = 7 := by
  intro uses
  have hRuns : ((Shell.start { extensions := ["prime"] } {} []).bind Except.toOption).any (fun shell =>
      (runAll uses shell.session.toWorkspace).any fun ran =>
        decide ("prime" ∈ ran.2.loaded ∧ candidateOf ran.2 = 7)) = true := by decide +kernel
  obtain ⟨shell, hStart, hAny⟩ := exists_of_any_start hRuns
  obtain ⟨ran, hRan, hLast⟩ := (Option.any_eq_true _ _).mp hAny
  obtain ⟨hLoaded, hCandidate⟩ := of_decide_eq_true hLast
  obtain ⟨answers, after, hRun, hNever⟩ := is_prime_never_stale (.start _ _ _ shell hStart) uses
  cases hRan.symm.trans hRun
  obtain ⟨seen, hRead, hSeen, -⟩ := hNever hLoaded .shopt
  have hPrime : (candidateOf after).toInt.toNat.Prime := by
    rw [hCandidate]
    change Nat.Prime 7
    norm_num
  rw [if_pos hPrime] at hRead
  exact ⟨shell, answers, after, seen, hStart, hRun, hLoaded, hCandidate, hRead, hSeen.trans hCandidate⟩

end PrimeUse

end Shell

end OptionShell
