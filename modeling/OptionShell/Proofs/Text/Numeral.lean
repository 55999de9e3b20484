import Mathlib.Data.Nat.Digits.Defs
import OptionShell.Text.Decimal

/-!
# What numerals denote

A numeral is a run of digits, perhaps after a minus sign. It is read as the number that it denotes if that is in range,
and a number that is shown is read back as the same number.
-/
namespace OptionShell.Text

variable {text : List Char} {c : Char} {z : Int}

/-- One or more ASCII digits. -/
structure Digits (text : List Char) : Prop where
  nonempty : text ≠ []
  all : ∀ c ∈ text, c.isDigit = true

/-- The number that a numeral denotes. -/
inductive Denotes : List Char → Int → Prop where
  | plain (digits : List Char) (h : Digits digits) : Denotes digits (valueOfDigits digits)
  | negated (digits : List Char) (h : Digits digits) : Denotes ('-' :: digits) (-(valueOfDigits digits))

/-! ## Reading -/

theorem Digits.ne_cons (h : Digits text) (hSign : c.isDigit = false) (rest : List Char) : text ≠ c :: rest := by
  rintro rfl
  rw [h.all c List.mem_cons_self] at hSign
  cases hSign

theorem Digits.natural?_eq (h : Digits text) : natural? text = some (min beyondRanges (valueOfDigits text)) := by
  rw [natural?, if_pos ⟨h.nonempty, List.all_eq_true.mpr h.all⟩, valueUpTo_eq_min]

/-- Numerals beyond all ranges are read as another number beyond all ranges. -/
theorem Denotes.exists_integer? (h : Denotes text z) :
    ∃ y, integer? text = some y ∧ (y = z ∨ beyondRanges ≤ y.natAbs ∧ beyondRanges ≤ z.natAbs) := by
  cases h with
  | plain _ hDigits =>
    have hRead : integer? text = some ((min beyondRanges (valueOfDigits text) : Nat) : Int) := by
      rw [integer?, hDigits.natural?_eq]
      · rfl
      · exact hDigits.ne_cons (by decide)
      · exact hDigits.ne_cons (by decide)
    exact ⟨_, hRead, by omega⟩
  | negated digits hDigits =>
    have hRead : integer? ('-' :: digits) = some (-((min beyondRanges (valueOfDigits digits) : Nat) : Int)) := by
      rw [integer?, hDigits.natural?_eq]
      rfl
    exact ⟨_, hRead, by omega⟩

theorem Denotes.int64?_eq_some_iff (h : Denotes text z) {n : Int64} : int64? text = some n ↔ n.toInt = z := by
  obtain ⟨y, hRead, hSame⟩ := h.exists_integer?
  have hLow := n.le_toInt
  have hHigh := n.toInt_lt
  rw [int64?, hRead, Option.bind_some]
  constructor
  · intro hSome
    obtain ⟨hRange, hn⟩ := Option.ite_none_right_eq_some.mp hSome
    rw [Option.some.inj hn] at hRange
    rw [beyondRanges] at hSame
    omega
  · intro hn
    obtain rfl : y = z := by
      rw [beyondRanges] at hSame
      omega
    have hSelf : y.toInt64 = n := by
      rw [← hn]
      exact Int64.ofInt_toInt n
    rw [if_pos (by rw [hSelf]; exact hn), hSelf]

/-! ## Numbers that are shown -/

theorem valueOfDigits_toDigits (n : Nat) : valueOfDigits (Nat.toDigits 10 n) = n := by
  have hRead : Nat.ofDigitChars 10 (Nat.toDigits 10 n) 0 = n := Nat.ofDigitChars_toDigits (by decide) (by decide)
  rw [valueOfDigits]
  simpa [Nat.ofDigitChars, Nat.mul_comm] using hRead

theorem digits_toDigits (n : Nat) : Digits (Nat.toDigits 10 n) :=
  ⟨Nat.toDigits_ne_nil, fun _ hMem => Nat.isDigit_of_mem_toDigits (by decide) (by decide) hMem⟩

theorem denotes_toString (z : Int) : Denotes (toString z).toList z := by
  cases z with
  | ofNat n =>
    have hPlain := Denotes.plain _ (digits_toDigits n)
    rw [valueOfDigits_toDigits, ← Nat.toList_repr] at hPlain
    exact hPlain
  | negSucc n =>
    have hNegated := Denotes.negated _ (digits_toDigits (n + 1))
    rw [valueOfDigits_toDigits, ← Nat.toList_repr] at hNegated
    change Denotes ("-" ++ Nat.repr (n + 1)).toList _
    rw [String.toList_append]
    exact hNegated

theorem int64?_toString (n : Int64) : int64? (toString n).toList = some n :=
  (denotes_toString n.toInt).int64?_eq_some_iff.mpr rfl

/-- A numeral is made of digits and a minus sign. -/
theorem Denotes.notMem (h : Denotes text z) (hDigit : c.isDigit = false) (hSign : c ≠ '-') : c ∉ text := by
  have hDigits {digits : List Char} (h : Digits digits) : c ∉ digits := fun hMem => by
    rw [h.all c hMem] at hDigit
    cases hDigit
  cases h with
  | plain _ h => exact hDigits h
  | negated digits h => exact List.not_mem_cons_of_ne_of_not_mem hSign (hDigits h)

theorem notMem_toString (hDigit : c.isDigit = false) (hSign : c ≠ '-') (z : Int) : c ∉ (toString z).toList :=
  (denotes_toString z).notMem hDigit hSign

end OptionShell.Text
