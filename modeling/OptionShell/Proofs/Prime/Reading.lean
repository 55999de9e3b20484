import OptionShell.Proofs.Prime.Verdict

/-!
# What is reported about words

A word is read as a number, or reading it reports one line that says why it is none. The grammar of the words decides
which, and the lines of `is_prime` are made of these reports and of what is said about the numbers.
-/
namespace OptionShell.Prime

open Text

variable {α : Type} {word : String}

/-- What reading a word comes to: its number, or whether the word makes the command fail, and the lines that are
reported about the word. -/
def reading (word : String) : Except Bool Int64 × List String :=
  match readNumeral word.toList with
  | .ok n => (.ok n, [])
  | .error error => (.error error.isFailure, [error.message word])

/-- What each kind of word is to be read as. -/
inductive Reads (word : String) : Except Bool Int64 × List String → Prop where
  | number (n : Int64) (hWord : Denotes word.toList n.toInt) : Reads word (.ok n, [])
  | tooSmall (z : Int) (hWord : Denotes word.toList z)
    (hRange : z < Int64.minValue.toInt ∨ Int64.maxValue.toInt < z) (hSign : word.toList.head? = some '-') :
    Reads word (.error false, [word ++ " is too small"])
  | tooBig (z : Int) (hWord : Denotes word.toList z)
    (hRange : z < Int64.minValue.toInt ∨ Int64.maxValue.toInt < z) (hSign : word.toList.head? ≠ some '-') :
    Reads word (.error false, [word ++ " is too big"])
  | fraction (hFraction : Fraction word.toList) : Reads word (.error false, [word ++ " is not an integer"])
  | other (hInteger : ∀ z, ¬Denotes word.toList z) (hFraction : ¬Fraction word.toList) :
    Reads word (.error true, [word ++ " is not a number"])

theorem exists_reads (word : String) : ∃ result, Reads word result := by
  by_cases hInteger : ∃ z, Denotes word.toList z
  · obtain ⟨z, hWord⟩ := hInteger
    by_cases hRange : z < Int64.minValue.toInt ∨ Int64.maxValue.toInt < z
    · by_cases hSign : word.toList.head? = some '-'
      · exact ⟨_, .tooSmall z hWord hRange hSign⟩
      · exact ⟨_, .tooBig z hWord hRange hSign⟩
    · obtain ⟨n, rfl⟩ := exists_toInt_eq hRange
      exact ⟨_, .number n hWord⟩
  · by_cases hFraction : Fraction word.toList
    · exact ⟨_, .fraction hFraction⟩
    · exact ⟨_, .other (fun z hWord => hInteger ⟨z, hWord⟩) hFraction⟩

theorem Reads.reading_eq {result : Except Bool Int64 × List String} (h : Reads word result) : reading word = result := by
  rw [reading]
  cases h with
  | number n hWord => rw [readNumeral_eq_ok hWord]
  | tooSmall z hWord hRange hSign =>
    rw [readNumeral_of_outOfRange hWord hRange, if_pos hSign]
    rfl
  | tooBig z hWord hRange hSign =>
    rw [readNumeral_of_outOfRange hWord hRange, if_neg hSign]
    rfl
  | fraction hFraction =>
    rw [readNumeral_eq_notAnInteger hFraction]
    rfl
  | other hInteger hFraction =>
    rw [readNumeral_eq_notANumber hInteger hFraction]
    rfl

theorem reading_eq_iff {result : Except Bool Int64 × List String} : reading word = result ↔ Reads word result := by
  refine ⟨fun hSame => ?_, Reads.reading_eq⟩
  obtain ⟨own, hOwn⟩ := exists_reads word
  rw [← hSame, hOwn.reading_eq]
  exact hOwn

/-! ## The lines of the command -/

/-- The lines about a word: those that reading it reports, and what is said about its number. -/
def linesAbout (word : String) : List String :=
  (reading word).2 ++ ((reading word).1.toOption.map fun n => (judge n).1).toList

/-- Each word has one line. -/
theorem linesAbout_eq (word : String) : linesAbout word = [(judgeWord word).1] := by
  rw [linesAbout, reading, judgeWord]
  cases readNumeral word.toList with
  | ok n => rfl
  | error error => rfl

theorem flatMap_linesAbout (words : List String) :
    words.flatMap linesAbout = (words.map judgeWord).map (·.1) := by
  rw [List.map_map, List.map_eq_flatMap]
  exact congrArg words.flatMap (funext linesAbout_eq)

/-- Words are read by their grammar alone, with one line about each word that is no number in range and none about the
others. The number of each word that shows one is read back. The lines of `is_prime` hold these lines and no others
but what is said about the numbers. -/
theorem words_read_exactly (cells : Cells) (w : Workspace α) :
    (∀ word result, reading word = result ↔ Reads word result) ∧
    (∀ n : Int64, reading (toString n) = (.ok n, [])) ∧
    ∀ first rest, ∃ out, ((command cells).run ("--" :: first :: rest)).run w = some (.ok out, w) ∧
      out.lines = Text.joinLines ((first :: rest).flatMap linesAbout) := by
  refine ⟨fun word result => reading_eq_iff, fun n => ?_, fun first rest => ?_⟩
  · exact reading_eq_iff.mpr (.number n (denotes_toString n.toInt))
  · obtain ⟨out, hRun, -, hLines⟩ :=
      run_words cells w (List.forall_mem_nil _) (List.cons_ne_nil first rest)
    refine ⟨out, hRun, ?_⟩
    rw [hLines, if_pos rfl, flatMap_linesAbout]

example : reading "-9223372036854775808" = (.ok Int64.minValue, []) := by decide +kernel

example : reading "-007." = (.error false, ["-007. is not an integer"]) := by decide +kernel

end OptionShell.Prime
