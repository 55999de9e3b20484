import OptionShell.Proofs.Prime.Command
import OptionShell.Proofs.Prime.Numeral
import OptionShell.Proofs.Prime.SmallestFactor

/-!
# The exit status of `is_prime`

Each word counts as a prime number, as a number that is none, as an error or for nothing. The words that count for
nothing are numerals as well: their numbers are out of range or have a fraction.
-/
namespace OptionShell.Prime

open Text

variable {α : Type} {verdict : Verdict} {words : List String}

/-- What a word counts as. -/
inductive CountsAs (word : List Char) : Verdict → Prop where
  | prime (n : Int64) (hWord : Denotes word n.toInt) (hPrime : n.toInt.toNat.Prime) : CountsAs word .prime
  | composite (n : Int64) (hWord : Denotes word n.toInt) (hPos : 1 ≤ n.toInt) (hOther : ¬n.toInt.toNat.Prime) :
    CountsAs word .composite
  | notPositive (n : Int64) (hWord : Denotes word n.toInt) (hLow : n.toInt < 1) : CountsAs word .failure
  | notANumber (hInteger : ∀ z, ¬Denotes word z) (hFraction : ¬Fraction word) : CountsAs word .failure
  | outOfRange (z : Int) (hWord : Denotes word z) (hRange : z < Int64.minValue.toInt ∨ Int64.maxValue.toInt < z) :
    CountsAs word .skipped
  | fraction (hFraction : Fraction word) : CountsAs word .skipped

theorem exists_countsAs (word : List Char) : ∃ verdict, CountsAs word verdict := by
  by_cases hInteger : ∃ z, Denotes word z
  · obtain ⟨z, hWord⟩ := hInteger
    by_cases hRange : z < Int64.minValue.toInt ∨ Int64.maxValue.toInt < z
    · exact ⟨_, .outOfRange z hWord hRange⟩
    · obtain ⟨n, rfl⟩ := exists_toInt_eq hRange
      by_cases hLow : n.toInt < 1
      · exact ⟨_, .notPositive n hWord hLow⟩
      · by_cases hPrime : n.toInt.toNat.Prime
        · exact ⟨_, .prime n hWord hPrime⟩
        · exact ⟨_, .composite n hWord (by omega) hPrime⟩
  · by_cases hFraction : Fraction word
    · exact ⟨_, .fraction hFraction⟩
    · exact ⟨_, .notANumber (fun z hWord => hInteger ⟨z, hWord⟩) hFraction⟩

/-! ## The verdict -/

theorem verdict_judge (n : Int64) :
    (judge n).2 = if n.toInt < 1 then .failure else if n.toInt.toNat.Prime then .prime else .composite := by
  have hOne : (1 : Int64).toInt = 1 := rfl
  have hLow : n < 1 ↔ n.toInt < 1 := Int64.lt_iff_toInt_lt
  have hUnit : n = 1 ↔ n.toInt = 1 := by rw [← Int64.toInt_inj, hOne]
  rw [judge]
  simp only [hLow, hUnit]
  split
  · rfl
  · split
    · rename_i hSame
      rw [hSame, if_neg (by decide)]
    · rw [smallestFactor_eq (by omega)]
      by_cases hPrime : n.toInt.toNat.Prime
      · rw [if_pos hPrime, if_pos hPrime]
      · rw [if_neg hPrime, if_neg hPrime]

theorem CountsAs.verdict_judgeWord {word : String} (h : CountsAs word.toList verdict) : (judgeWord word).2 = verdict := by
  rw [judgeWord]
  cases h with
  | prime n hWord hPrime =>
    have hTwo := hPrime.two_le
    rw [readNumeral_eq_ok hWord]
    dsimp only
    rw [verdict_judge, if_neg (by omega), if_pos hPrime]
  | composite n hWord hPos hOther =>
    rw [readNumeral_eq_ok hWord]
    dsimp only
    rw [verdict_judge, if_neg (by omega), if_neg hOther]
  | notPositive n hWord hLow =>
    rw [readNumeral_eq_ok hWord]
    dsimp only
    rw [verdict_judge, if_pos hLow]
  | notANumber hInteger hFraction =>
    rw [readNumeral_eq_notANumber hInteger hFraction]
    rfl
  | outOfRange z hWord hRange =>
    obtain hLow | hHigh := hRange
    · rw [readNumeral_eq_tooSmall hWord hLow]
      rfl
    · rw [readNumeral_eq_tooBig hWord hHigh]
      rfl
  | fraction hFraction =>
    rw [readNumeral_eq_notAnInteger hFraction]
    rfl

theorem verdict_judgeWord_iff {word : String} : (judgeWord word).2 = verdict ↔ CountsAs word.toList verdict := by
  refine ⟨fun hSame => ?_, CountsAs.verdict_judgeWord⟩
  obtain ⟨own, hOwn⟩ := exists_countsAs word.toList
  rw [← hSame, hOwn.verdict_judgeWord]
  exact hOwn

/-! ## The exit status -/

/-- Some word counts as the verdict. -/
def SomeCountsAs (words : List String) (verdict : Verdict) : Prop := ∃ word ∈ words, CountsAs word.toList verdict

theorem mem_verdicts_iff : verdict ∈ (words.map judgeWord).map (·.2) ↔ SomeCountsAs words verdict := by
  simp only [SomeCountsAs, List.map_map, List.mem_map, Function.comp_apply, verdict_judgeWord_iff]

theorem all_prime_or_skipped_iff :
    (∀ word ∈ words, CountsAs word.toList .prime ∨ CountsAs word.toList .skipped) ↔
      ¬SomeCountsAs words .failure ∧ ¬SomeCountsAs words .composite := by
  constructor
  · intro hAll
    have hNone (verdict : Verdict) (hPrime : verdict ≠ .prime) (hSkipped : verdict ≠ .skipped) :
        ¬SomeCountsAs words verdict := by
      rintro ⟨word, hWord, hCounts⟩
      rw [← hCounts.verdict_judgeWord] at hPrime hSkipped
      exact (hAll word hWord).elim (hPrime ∘ CountsAs.verdict_judgeWord) (hSkipped ∘ CountsAs.verdict_judgeWord)
    exact ⟨hNone .failure nofun nofun, hNone .composite nofun nofun⟩
  · rintro ⟨hFailure, hComposite⟩ word hWord
    obtain ⟨verdict, hCounts⟩ := exists_countsAs word.toList
    cases verdict with
    | prime => exact .inl hCounts
    | composite => exact absurd ⟨word, hWord, hCounts⟩ hComposite
    | failure => exact absurd ⟨word, hWord, hCounts⟩ hFailure
    | skipped => exact .inr hCounts

/-- Errors count before numbers that are not prime. -/
theorem statusOfVerdicts_cases (words : List String) {status : Int32}
    (hStatus : statusOfVerdicts ((words.map judgeWord).map (·.2)) = status) :
    SomeCountsAs words .failure ∧ status = 2 ∨
      ¬SomeCountsAs words .failure ∧ SomeCountsAs words .composite ∧ status = 1 ∨
      ¬SomeCountsAs words .failure ∧ ¬SomeCountsAs words .composite ∧ status = 0 := by
  simp only [← mem_verdicts_iff, ← hStatus, statusOfVerdicts, List.contains_iff_mem]
  split
  · rename_i hFailure
    exact .inl ⟨hFailure, rfl⟩
  · rename_i hNone
    split
    · rename_i hComposite
      exact .inr (.inl ⟨hNone, hComposite, rfl⟩)
    · rename_i hOther
      exact .inr (.inr ⟨hNone, hOther, rfl⟩)

/-- Words after `--` are tested one by one. -/
theorem run_words (cells : Cells) (w : Workspace α) {quiets : List String} (hQuiets : ∀ word ∈ quiets, word = "-q")
    (hWords : words ≠ []) : ∃ out, ((command cells).run (quiets ++ "--" :: words)).run w = some (.ok out, w) ∧
      out.exitStatus = statusOfVerdicts ((words.map judgeWord).map (·.2)) ∧
      out.lines = if quiets = [] then Text.joinLines ((words.map judgeWord).map (·.1)) else "" := by
  have hRun : ((command cells).run (quiets ++ "--" :: words) : Action α Output) = test (!quiets.isEmpty) words := by
    change run cells false _ = _
    rw [run_quiets cells false hQuiets, Bool.false_or, run, if_neg (by decide), if_neg (by decide), if_neg (by decide),
      if_pos rfl]
  rw [hRun, test, Action.run_bind_of_ok run_state, List.isEmpty_eq_false_iff.mpr hWords, if_neg (by decide)]
  have hLines : (if (!quiets.isEmpty) = true then "" else Text.joinLines ((words.map judgeWord).map (·.1))) =
      if quiets = [] then Text.joinLines ((words.map judgeWord).map (·.1)) else "" := by
    cases quiets <;> rfl
  rw [← hLines]
  refine ⟨_, rfl, ?_, ?_⟩
  · split
    · rename_i hZero
      exact hZero.symm
    · rfl
  · split
    · rfl
    · rfl

/-- The exit status of `is_prime -- words` is `2` if some word is no numeral or a number in range below one, `0` if
every word is a prime number, out of range or a fraction, and `1` otherwise. Nothing else changes, and `-q` takes the
text away. -/
theorem status_of_words (cells : Cells) (w : Workspace α) (hWords : words ≠ []) :
    ∃ lines status,
      (∀ quiets : List String, (∀ word ∈ quiets, word = "-q") → ∃ out,
        ((command cells).run (quiets ++ "--" :: words)).run w = some (.ok out, w) ∧ out.exitStatus = status ∧
        out.lines = if quiets = [] then lines else "") ∧
      (status = 2 ↔ ∃ word ∈ words, CountsAs word.toList .failure) ∧
      (status = 0 ↔ ∀ word ∈ words, CountsAs word.toList .prime ∨ CountsAs word.toList .skipped) ∧
      (status = 1 ↔ (¬∃ word ∈ words, CountsAs word.toList .failure) ∧
        ∃ word ∈ words, CountsAs word.toList .composite) := by
  refine ⟨_, _, fun quiets hQuiets => run_words cells w hQuiets hWords, ?_⟩
  rw [all_prime_or_skipped_iff]
  obtain ⟨hFailure, hStatus⟩ | ⟨hNone, hComposite, hStatus⟩ | ⟨hNone, hOther, hStatus⟩ :=
    statusOfVerdicts_cases words rfl
  · rw [hStatus]
    exact ⟨iff_of_true rfl hFailure, iff_of_false (by decide) fun hZero => hZero.1 hFailure,
      iff_of_false (by decide) fun hOne => hOne.1 hFailure⟩
  · rw [hStatus]
    exact ⟨iff_of_false (by decide) hNone, iff_of_false (by decide) fun hZero => hZero.2 hComposite,
      iff_of_true rfl ⟨hNone, hComposite⟩⟩
  · rw [hStatus]
    exact ⟨iff_of_false (by decide) hNone, iff_of_true rfl ⟨hNone, hOther⟩,
      iff_of_false (by decide) fun hOne => hOther hOne.2⟩

/-- Next to a prime number, a fraction counts for nothing. -/
theorem status_of_fraction_words :
    ["7", "1.5"] ≠ [] ∧ ∀ w : Workspace Unit, ∃ lines, ∀ quiets : List String, (∀ word ∈ quiets, word = "-q") → ∃ out,
      ((command ⟨0, 1⟩).run (quiets ++ ["--", "7", "1.5"])).run w = some (.ok out, w) ∧ out.exitStatus = 0 ∧
      out.lines = if quiets = [] then lines else "" := by
  have hWords : ["7", "1.5"] ≠ [] := by decide
  refine ⟨hWords, fun w => ?_⟩
  obtain ⟨lines, status, hRun, -, hZero, -⟩ := status_of_words ⟨0, 1⟩ w hWords
  have hDigit {c : Char} (hDigit : c.isDigit = true) : Digits [c] :=
    ⟨List.cons_ne_nil c [], List.forall_mem_singleton.mpr hDigit⟩
  have hSeven : CountsAs "7".toList .prime := .prime 7 (.plain ['7'] (hDigit rfl)) Nat.prime_seven
  have hFraction : CountsAs "1.5".toList .skipped := .fraction (.plain ['1'] ['5'] (hDigit rfl) (hDigit rfl).all)
  rw [hZero.mpr (List.forall_mem_cons.mpr ⟨.inl hSeven, List.forall_mem_singleton.mpr (.inr hFraction)⟩)] at hRun
  exact ⟨lines, hRun⟩

/-- A fraction is no number and passes all the same. -/
theorem fraction_passes :
    (∀ z, ¬Denotes "1.5".toList z) ∧ ∀ w : Workspace Unit,
      ((command ⟨0, 1⟩).run ["--", "1.5"]).run w = some (.ok (.text "1.5 is not an integer"), w) :=
  ⟨fun _ hWord => hWord.notMem (by decide) (by decide) (by decide : '.' ∈ "1.5".toList), fun _ => rfl⟩

end OptionShell.Prime
