/-!
# Separators

A text is cut at the first occurrence of a separator, which belongs to neither part. A joined text has a separator
between its parts.
-/
namespace OptionShell.Text

def splitFirst? (separator : Char) : List Char → Option (List Char × List Char)
  | [] => none
  | c :: rest =>
    if c = separator then some ([], rest)
    else (splitFirst? separator rest).map fun parts => (c :: parts.1, parts.2)

/-- The parts of a split are those that the first separator joins. -/
theorem splitFirst?_eq_some_iff {separator : Char} {text first rest : List Char} :
    splitFirst? separator text = some (first, rest) ↔ text = first ++ separator :: rest ∧ separator ∉ first := by
  induction text generalizing first with
  | nil => simp [splitFirst?]
  | cons c tail ih =>
    rw [splitFirst?]
    split
    case isTrue h =>
      subst h
      cases first <;> simp_all [eq_comm]
    case isFalse h =>
      cases first with
      | nil => simp [h]
      | cons d first =>
        simp only [Option.map_eq_some_iff, Prod.ext_iff, List.cons.injEq, List.cons_append, List.mem_cons, not_or]
        constructor
        · rintro ⟨⟨before, after⟩, hSplit, ⟨rfl, rfl⟩, rfl⟩
          obtain ⟨hTail, hOut⟩ := ih.mp hSplit
          exact ⟨⟨rfl, hTail⟩, Ne.symm h, hOut⟩
        · rintro ⟨⟨rfl, hTail⟩, -, hOut⟩
          exact ⟨(first, rest), ih.mpr ⟨hTail, hOut⟩, ⟨rfl, rfl⟩, rfl⟩

/-- A joined text is its parts with a separator before each, but for the first separator. -/
theorem toList_intercalate (separator : String) {parts : List String} (h : parts ≠ []) :
    separator.toList ++ (separator.intercalate parts).toList =
      parts.flatMap fun part => separator.toList ++ part.toList := by
  induction parts with
  | nil => exact absurd rfl h
  | cons part rest ih =>
    cases rest with
    | nil => rw [String.intercalate_singleton, List.flatMap_singleton]
    | cons second rest =>
      have hRest := ih (List.cons_ne_nil second rest)
      rw [String.intercalate_cons_cons, String.toList_append, String.toList_append, List.flatMap_cons, ← hRest,
        List.append_assoc, List.append_assoc]

theorem length_intercalate (separator : String) {parts : List String} (h : parts ≠ []) :
    (separator.intercalate parts).length + separator.length =
      (parts.flatMap fun part => separator.toList ++ part.toList).length := by
  rw [← toList_intercalate separator h, List.length_append, String.length_toList, String.length_toList, Nat.add_comm]

end OptionShell.Text
