import OptionShell.Prime.Numeral
import OptionShell.Proofs.Text.Numeral

/-!
# How words are read

A word is a numeral, a numeral with a fraction or neither. Only a numeral whose number is in range is read as a number.
-/
namespace OptionShell.Prime

open Text

variable {word : List Char} {z : Int}

/-- Digits, a point and perhaps more digits. A minus sign may come first. -/
inductive Fraction : List Char → Prop where
  | plain (whole fraction : List Char) (hWhole : Digits whole) (hFraction : ∀ c ∈ fraction, c.isDigit = true) :
    Fraction (whole ++ '.' :: fraction)
  | negated (whole fraction : List Char) (hWhole : Digits whole) (hFraction : ∀ c ∈ fraction, c.isDigit = true) :
    Fraction ('-' :: (whole ++ '.' :: fraction))

/-! ## Without the sign -/

theorem digitsOf_of_head?_ne (h : word.head? ≠ some '-') : digitsOf word = word := by
  rw [digitsOf]
  rintro rest rfl
  exact h rfl

theorem eq_digitsOf_or (word : List Char) : word = '-' :: digitsOf word ∨ word.head? ≠ some '-' := by
  by_cases hSign : word.head? = some '-'
  · obtain ⟨rest, rfl⟩ := List.head?_eq_some_iff.mp hSign
    exact .inl rfl
  · exact .inr hSign

/-- A text that begins with digits begins with a digit. -/
theorem head?_any_isDigit {digits text : List Char} (h : Digits digits) (hPrefix : digits <+: text) :
    text.head?.any Char.isDigit = true := by
  obtain ⟨rest, rfl⟩ := hPrefix
  obtain ⟨c, tail, rfl⟩ := List.exists_cons_of_ne_nil h.nonempty
  exact h.all c List.mem_cons_self

theorem head?_ne_of_digits {digits text : List Char} (h : Digits digits) (hPrefix : digits <+: text) :
    text.head? ≠ some '-' := by
  intro hSign
  have hDigit := head?_any_isDigit h hPrefix
  rw [hSign] at hDigit
  cases hDigit

theorem exists_denotes_iff : (∃ z, Denotes word z) ↔ Digits (digitsOf word) := by
  constructor
  · rintro ⟨z, h⟩
    cases h with
    | plain _ hDigits =>
      rw [digitsOf_of_head?_ne (head?_ne_of_digits hDigits List.prefix_rfl)]
      exact hDigits
    | negated digits hDigits => exact hDigits
  · intro hDigits
    obtain hSign | hHead := eq_digitsOf_or word
    · rw [hSign]
      exact ⟨_, .negated _ hDigits⟩
    · rw [digitsOf_of_head?_ne hHead] at hDigits
      exact ⟨_, .plain _ hDigits⟩

theorem isFraction_iff {digits : List Char} : isFraction digits = true ↔
    ∃ whole fraction, digits = whole ++ '.' :: fraction ∧ (∀ c ∈ whole, c.isDigit = true) ∧
      ∀ c ∈ fraction, c.isDigit = true := by
  constructor
  · intro h
    rw [isFraction] at h
    split at h
    · rename_i whole fraction hSplit
      obtain ⟨hWhole, hFraction⟩ := Bool.and_eq_true_iff.mp h
      exact ⟨whole, fraction, (splitFirst?_eq_some_iff.mp hSplit).1, List.all_eq_true.mp hWhole,
        List.all_eq_true.mp hFraction⟩
    · cases h
  · rintro ⟨whole, fraction, rfl, hWhole, hFraction⟩
    have hPoint : '.' ∉ whole := fun hMem => absurd (hWhole _ hMem) (by decide)
    rw [isFraction, splitFirst?_eq_some_iff.mpr ⟨rfl, hPoint⟩]
    exact Bool.and_eq_true_iff.mpr ⟨List.all_eq_true.mpr hWhole, List.all_eq_true.mpr hFraction⟩

theorem exists_digitsOf_of_fraction (h : Fraction word) : ∃ whole fraction, digitsOf word = whole ++ '.' :: fraction ∧
    Digits whole ∧ ∀ c ∈ fraction, c.isDigit = true := by
  cases h with
  | plain whole fraction hWhole hFraction =>
    exact ⟨whole, fraction, digitsOf_of_head?_ne (head?_ne_of_digits hWhole (List.prefix_append _ _)), hWhole, hFraction⟩
  | negated whole fraction hWhole hFraction => exact ⟨whole, fraction, rfl, hWhole, hFraction⟩

theorem fraction_of_isFraction (hHead : (digitsOf word).head?.any Char.isDigit = true)
    (h : isFraction (digitsOf word) = true) : Fraction word := by
  obtain ⟨whole, fraction, hDigits, hWhole, hFraction⟩ := isFraction_iff.mp h
  have hNonempty : whole ≠ [] := by
    rintro rfl
    rw [hDigits] at hHead
    cases hHead
  obtain hSign | hPlain := eq_digitsOf_or word
  · rw [hSign, hDigits]
    exact .negated whole fraction ⟨hNonempty, hWhole⟩ hFraction
  · rw [digitsOf_of_head?_ne hPlain] at hDigits
    rw [hDigits]
    exact .plain whole fraction ⟨hNonempty, hWhole⟩ hFraction

/-! ## The result -/

theorem readNumeral_of_denotes (h : Denotes word z) : readNumeral word =
    (int64? word).elim (.error (if word.head? = some '-' then .tooSmall else .tooBig)) .ok := by
  have hDigits := exists_denotes_iff.mp ⟨z, h⟩
  rw [readNumeral, head?_any_isDigit hDigits List.prefix_rfl, if_neg (by decide),
    if_pos (List.all_eq_true.mpr hDigits.all)]
  cases int64? word <;> rfl

theorem readNumeral_eq_ok {n : Int64} (h : Denotes word n.toInt) : readNumeral word = .ok n := by
  rw [readNumeral_of_denotes h, h.int64?_eq_some_iff.mpr rfl, Option.elim_some]

theorem int64?_eq_none (h : Denotes word z) (hRange : ∀ n : Int64, n.toInt ≠ z) : int64? word = none :=
  Option.eq_none_iff_forall_ne_some.mpr fun n hn => hRange n (h.int64?_eq_some_iff.mp hn)

theorem exists_toInt_eq (hRange : ¬(z < Int64.minValue.toInt ∨ Int64.maxValue.toInt < z)) : ∃ n : Int64, n.toInt = z := by
  rw [Int64.toInt_minValue, Int64.toInt_maxValue] at hRange
  exact ⟨Int64.ofInt z, Int64.toInt_ofInt_of_le (by omega) (by omega)⟩

/-- The sign tells on which side of the range a number lies. -/
theorem readNumeral_of_outOfRange (h : Denotes word z) (hRange : z < Int64.minValue.toInt ∨ Int64.maxValue.toInt < z) :
    readNumeral word = .error (if word.head? = some '-' then .tooSmall else .tooBig) := by
  have hNone : int64? word = none := int64?_eq_none h fun n hn => by
    have hLow := n.minValue_le_toInt
    have hHigh := n.toInt_le
    omega
  rw [readNumeral_of_denotes h, hNone, Option.elim_none]

theorem readNumeral_eq_tooSmall (h : Denotes word z) (hLow : z < Int64.minValue.toInt) :
    readNumeral word = .error .tooSmall := by
  have hRead := readNumeral_of_outOfRange h (.inl hLow)
  cases h with
  | plain =>
    have hMin : Int64.minValue.toInt < 0 := by decide
    omega
  | negated => exact hRead

theorem readNumeral_eq_tooBig (h : Denotes word z) (hHigh : Int64.maxValue.toInt < z) :
    readNumeral word = .error .tooBig := by
  have hRead := readNumeral_of_outOfRange h (.inr hHigh)
  cases h with
  | plain _ hDigits =>
    rw [hRead]
    exact congrArg Except.error (if_neg (head?_ne_of_digits hDigits List.prefix_rfl))
  | negated =>
    have hMax : 0 < Int64.maxValue.toInt := by decide
    omega

theorem readNumeral_eq_notAnInteger (h : Fraction word) : readNumeral word = .error .notAnInteger := by
  obtain ⟨whole, fraction, hDigits, hWhole, hFraction⟩ := exists_digitsOf_of_fraction h
  have hHead : (digitsOf word).head?.any Char.isDigit = true :=
    head?_any_isDigit hWhole (hDigits ▸ List.prefix_append _ _)
  have hMixed : ¬(digitsOf word).all Char.isDigit = true := fun hAll => by
    rw [hDigits] at hAll
    exact absurd (List.all_eq_true.mp hAll '.' (List.mem_append_right _ List.mem_cons_self)) (by decide)
  have hPoint := isFraction_iff.mpr ⟨whole, fraction, hDigits, hWhole.all, hFraction⟩
  rw [readNumeral, hHead, if_neg (by decide), if_neg hMixed, if_pos hPoint]

theorem readNumeral_eq_notANumber (hInteger : ∀ z, ¬Denotes word z) (hFraction : ¬Fraction word) :
    readNumeral word = .error .notANumber := by
  rw [readNumeral]
  cases hHead : (digitsOf word).head?.any Char.isDigit with
  | false => rfl
  | true =>
    have hNonempty : digitsOf word ≠ [] := fun hNone => by
      rw [hNone] at hHead
      cases hHead
    have hMixed : ¬(digitsOf word).all Char.isDigit = true := fun hAll => by
      obtain ⟨z, hDenotes⟩ := exists_denotes_iff.mpr ⟨hNonempty, List.all_eq_true.mp hAll⟩
      exact hInteger z hDenotes
    rw [if_neg (by decide), if_neg hMixed, if_neg fun hPoint => hFraction (fraction_of_isFraction hHead hPoint)]

end OptionShell.Prime
