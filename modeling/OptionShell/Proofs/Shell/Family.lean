import OptionShell.Proofs.Options.RosterCoherence
import OptionShell.Shell.Basic

/-!
# The definitions of a shell

A shell registers its standard options and, while the extension is loaded, those of `prime`. Identities, names, letters
and cells tell them apart. Only `privileged` has a custom setter, and setting it has the same kinds of results as
setting any other of them.
-/
namespace OptionShell

namespace Shell

/-- The definitions that every shell has. -/
def standardOptions : List (Definition (Host Unit)) := standard.definitions

/-- The definitions that the extension `prime` adds. -/
def primeOptions : List (Definition (Host Unit)) := Prime.options StandardOptions.size primeCells

/-- Every definition that a shell can register. -/
def family : List (Definition (Host Unit)) := standardOptions ++ primeOptions

/-- The definitions of the family as a set. -/
def Family : Set (Definition (Host Unit)) := {d | d ∈ family}

def privileged : Definition (Host Unit) := StandardOptions.privileged 11

def loginShell : Definition (Host Unit) := StandardOptions.loginShell 16

def isPrimeOption : Definition (Host Unit) := Prime.isPrimeOption 18 primeCells

variable {d e : Definition (Host Unit)}

theorem mem_family_of_standard (hd : d ∈ standardOptions) : d ∈ Family := List.mem_append_left _ hd

theorem mem_family_of_prime (hd : d ∈ primeOptions) : d ∈ Family := List.mem_append_right _ hd

theorem privileged_mem : privileged ∈ standardOptions :=
  List.mem_append_left _ (List.mem_append_left _ (List.mem_append_right _ List.mem_cons_self))

theorem loginShell_mem : loginShell ∈ standardOptions := List.mem_append_right _ List.mem_cons_self

theorem isPrimeOption_mem : isPrimeOption ∈ primeOptions := List.mem_cons_of_mem _ List.mem_cons_self

theorem identified_family : Identified Family := identified_of_nodup (by decide)

theorem sharesKey_eq_false (hd : d ∈ Family) (he : e ∈ Family) (hne : d ≠ e) : d.sharesKey e = false := by
  have hKeys : ∀ d ∈ family, ∀ e ∈ family, d.id = e.id ∨ d.sharesKey e = false := by decide
  obtain hId | hKey := hKeys d hd e he
  · exact absurd (identified_family d hd e he hId) hne
  · exact hKey

theorem eq_of_name?_eq (hd : d ∈ Family) (he : e ∈ Family) {name : String} (hdName : d.name? = some name)
    (heName : e.name? = some name) : d = e := by
  by_contra hne
  have hShared : d.sharesKey e = true := Definition.sharesKey_iff.mpr (.inl ⟨name, hdName, heName⟩)
  rw [sharesKey_eq_false hd he hne] at hShared
  cases hShared

theorem eq_of_letter?_eq (hd : d ∈ Family) (he : e ∈ Family) {letter : Char} (hdLetter : d.letter? = some letter)
    (heLetter : e.letter? = some letter) : d = e := by
  by_contra hne
  have hShared : d.sharesKey e = true := Definition.sharesKey_iff.mpr (.inr ⟨letter, hdLetter, heLetter⟩)
  rw [sharesKey_eq_false hd he hne] at hShared
  cases hShared

theorem eq_of_cell?_eq (hd : d ∈ Family) (he : e ∈ Family) {cell : CellId} (hdCell : d.cell? = some cell)
    (heCell : e.cell? = some cell) : d = e := by
  have hCells : ∀ d ∈ family, ∀ e ∈ family, d.cell? = e.cell? → d.cell? = none ∨ d.id = e.id := by decide
  obtain hNone | hId := hCells d hd e he (hdCell.trans heCell.symm)
  · rw [hNone] at hdCell
    cases hdCell
  · exact identified_family d hd e he hId

theorem setter?_eq_none (hd : d ∈ Family) (hne : d ≠ privileged) : d.setter? = none := by
  have hSetters : ∀ d ∈ family, d.setter?.isSome → d.id = 11 := by decide
  cases hSetter : d.setter? with
  | none => rfl
  | some setter =>
    have hId : d.id = privileged.id := hSetters d hd (by rw [hSetter]; rfl)
    exact absurd (identified_family d hd _ (mem_family_of_standard privileged_mem) hId) hne

/-- Only `login_shell` and `is_prime` have custom readers. -/
theorem getter?_cases (hd : d ∈ Family) : d.getter? = none ∨ d = loginShell ∨ d = isPrimeOption := by
  have hGetters : ∀ d ∈ family, d.getter?.isSome → d.id = 16 ∨ d.id = 18 := by decide
  cases hGetter : d.getter? with
  | none => exact .inl rfl
  | some getter =>
    obtain hId | hId := hGetters d hd (by rw [hGetter]; rfl)
    · exact .inr (.inl (identified_family d hd _ (mem_family_of_standard loginShell_mem) hId))
    · exact .inr (.inr (identified_family d hd _ (mem_family_of_prime isPrimeOption_mem) hId))

theorem id_lt_size (hd : d ∈ standardOptions) : d.id < StandardOptions.size := by
  have hIds : ∀ d ∈ standardOptions, d.id < StandardOptions.size := by decide
  exact hIds d hd

theorem size_le_id (hd : d ∈ primeOptions) : StandardOptions.size ≤ d.id := by
  have hIds : ∀ d ∈ primeOptions, StandardOptions.size ≤ d.id := by decide
  exact hIds d hd

theorem cell_lt_size (hd : d ∈ standardOptions) {cell : CellId} (hCell : d.cell? = some cell) :
    cell < StandardOptions.size := by
  have hCells : ∀ d ∈ standardOptions, d.cell?.all fun cell => cell < StandardOptions.size := by decide
  have hLow := hCells d hd
  rw [hCell, Option.all_some, decide_eq_true_eq] at hLow
  exact hLow

theorem size_le_cell (hd : d ∈ primeOptions) {cell : CellId} (hCell : d.cell? = some cell) :
    StandardOptions.size ≤ cell := by
  have hCells : ∀ d ∈ primeOptions, d.cell?.all fun cell => StandardOptions.size ≤ cell := by decide
  have hHigh := hCells d hd
  rw [hCell, Option.all_some, decide_eq_true_eq] at hHigh
  exact hHigh

theorem mirrors_shellopts_of_prime (hd : d ∈ primeOptions) : Roster.shellopts.mirrors d = false := by
  have hOut : ∀ d ∈ primeOptions, Roster.shellopts.mirrors d = false := by decide
  exact hOut d hd

theorem get_eq_read (hd : d ∈ standardOptions) {cell : CellId} (hCell : d.cell? = some cell)
    (s : Options (Host Unit)) (why : Access) : s.get d why = some (s.storage.read cell) := by
  have hGetters : ∀ d ∈ standardOptions, d.cell?.isSome → d.getter?.isNone := by decide
  have hNone : d.getter? = none := Option.isNone_iff_eq_none.mp (hGetters d hd (by rw [hCell]; rfl))
  rw [Options.get, hNone, hCell]
  rfl

/-- The cell that decides how a mirrored option reads is its own; that of `login_shell` is written by no option. -/
theorem ownCells_family : Options.OwnCells Family := by
  refine ⟨identified_family, fun d hd roster hMirrored => ?_⟩
  have hStored : ∀ d ∈ family, d.getter?.isSome ∨ d.cell?.isSome := by decide
  have hUnwritten : ∀ d ∈ family, d.cell? ≠ some 16 := by decide
  obtain hGetter | rfl | rfl := getter?_cases hd
  · have hSome : d.cell?.isSome := by simpa [hGetter] using hStored d hd
    obtain ⟨cell, hCell⟩ := Option.isSome_iff_exists.mp hSome
    exact ⟨cell, .of_cell hGetter hCell, fun e he hShared => eq_of_cell?_eq he hd hShared hCell⟩
  · refine ⟨16, fun s t hRead _ _ => ?_, fun e he hShared => absurd hShared (hUnwritten e he)⟩
    change some (switchValue (s.storage.read 16 ≠ 0)) = some (switchValue (t.storage.read 16 ≠ 0))
    rw [hRead]
  · have hUnlisted : ∀ roster : Roster, roster.mirrors isPrimeOption = false := fun roster => by cases roster <;> rfl
    rw [hUnlisted roster] at hMirrored
    cases hMirrored

/-! ## Setting -/

/-- Whether the option can be set to the value in this context. -/
def admits (d : Definition (Host Unit)) (why : Access) (value : Int32) : Bool :=
  if d.setter?.isSome then value = 0 || why.isStartup || why.isPrivileged else d.yieldsTo why

/-- What the setter of `privileged` does, as one step. It sets no other option. -/
theorem run_privilegedSetter (set : Definition (Host Unit) → Access → Int32 → Update (Host Unit) Outcome)
    (cell : CellId) (why : Access) (value : Int32) (s : Options (Host Unit)) :
    (StandardOptions.privilegedSetter cell why value).run set s =
      if s.storage.read cell = value then some (.unchanged, s)
      else if value ≠ 0 && !why.isStartup && !why.isPrivileged then some (.forbidden, s)
      else some (.ok, s.writeCell cell value) := by
  change (if s.storage.read cell = value then _ else _ : Script (Host Unit) Outcome).run set s = _
  split
  · rfl
  · change (if _ then _ else _ : Script (Host Unit) Outcome).run set s = _
    split
    · rfl
    · rfl

theorem set_privileged (why : Access) (value : Int32) {s : Options (Host Unit)} (hNesting : 0 < s.nesting) :
    Update.set privileged why value s =
      if s.storage.read 11 = value then some (.unchanged, s)
      else if value ≠ 0 && !why.isStartup && !why.isPrivileged then some (.forbidden, s)
      else some (.ok, (s.writeCell 11 value).refreshFor privileged) := by
  obtain ⟨depth, hDepth⟩ := Nat.exists_eq_succ_of_ne_zero hNesting.ne'
  have hSetter := run_privilegedSetter (Update.setWithin depth) 11 why value s
  change Update.setWithin s.nesting privileged why value s = _
  rw [hDepth]
  change ((StandardOptions.privilegedSetter 11 why value).run (Update.setWithin depth) s).bind _ = _
  rw [hSetter]
  split
  · rfl
  · split
    · rfl
    · rfl

theorem ensures_set_privileged (why : Access) (value : Int32) {s : Options (Host Unit)} (hNesting : 0 < s.nesting) :
    Ensures (Update.set privileged why value) s fun outcome after =>
      Options.SetResult privileged (admits privileged why value) value s (outcome, after) := by
  have hRun := set_privileged why value hNesting
  have hAdmits : admits privileged why value = !(value ≠ 0 && !why.isStartup && !why.isPrivileged) := by
    simp [admits, privileged, StandardOptions.privileged]
  split at hRun
  · rename_i hValue
    refine ⟨_, _, hRun, .kept _ (by decide) fun _ cell hCell => ?_⟩
    cases hCell
    exact hValue
  · rename_i hValue
    split at hRun
    · rename_i hForbidden
      refine ⟨_, _, hRun, .kept _ (by decide) fun hAdmitted => ?_⟩
      rw [hAdmits, hForbidden] at hAdmitted
      cases hAdmitted
    · rename_i hAllowed
      refine ⟨_, _, hRun, .changed 11 ?_ rfl hValue⟩
      rw [hAdmits, Bool.eq_false_iff.mpr hAllowed]
      rfl

theorem ensures_set (hd : d ∈ Family) (why : Access) (value : Int32) {s : Options (Host Unit)}
    (hNesting : 0 < s.nesting) :
    Ensures (Update.set d why value) s fun outcome after =>
      Options.SetResult d (admits d why value) value s (outcome, after) := by
  by_cases hSame : d = privileged
  · exact hSame ▸ ensures_set_privileged why value hNesting
  · have hSetter := setter?_eq_none hd hSame
    rw [admits, hSetter]
    exact Options.ensures_set hSetter why value s

end Shell

end OptionShell
