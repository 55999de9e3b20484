import Mathlib.Data.Prod.Lex
import OptionShell.Proofs.Line.DoubleQuotes

/-!
# The weight of a text

Of two texts the one with fewer dollar signs is lighter, and among those with as many the shorter one. A command is no
heavier than its line. Expansion makes a command no heavier if the values that it puts in have no dollar signs, and
words that follow another one are lighter than the command that they come from.
-/
namespace OptionShell.Line

variable {text expanded : List Char} {own : List Lexeme}

def weight (text : List Char) : Nat ×ₗ Nat := toLex (text.count '$', text.length)

theorem weight_le_of_sublist {other : List Char} (h : text.Sublist other) : weight text ≤ weight other :=
  Prod.Lex.toLex_mono ⟨h.count_le '$', h.length_le⟩

/-! ## Commands -/

theorem weight_segment_le {line : List Char} {segs : List Segment} (h : segments line = .ok segs) {segment : Segment}
    (hMem : segment ∈ segs) : weight segment.command ≤ weight line := by
  rw [eq_kept_of_segments h] at hMem
  obtain ⟨command, hCommand, rfl⟩ := List.mem_map.mp (List.mem_filter.mp hMem).1
  have hSource := source_sublist_of_mem_cut hCommand
  rw [source_lexemes] at hSource
  exact weight_le_of_sublist ((trim_sublist _).trans hSource)

/-! ## Expansion -/

theorem sublist_of_reference? {rest : List Char} {r : Reference} (h : reference? text = some (r, rest)) :
    rest.Sublist text := by
  unfold reference? at h
  split at h
  · cases h
    exact List.sublist_cons_self _ _
  · cases h
    exact List.sublist_cons_self _ _
  · split at h
    · split at h
      · cases h
        exact ((List.drop_sublist _ _).trans (List.dropWhile_sublist _)).trans (List.sublist_cons_self _ _)
      · cases h
    · split at h
      · cases h
      · cases h
        exact List.dropWhile_sublist _

section Expansion

variable {ε : Type} {resolve : Reference → Except ε (List Char)} {rest : List Piece}

theorem exists_of_expandPieces_plain {plain : List Char}
    (h : expandPieces resolve (.plain plain :: rest) = .ok expanded) :
    ∃ tail, expandPieces resolve rest = .ok tail ∧ expanded = plain ++ tail := by
  cases hRest : expandPieces resolve rest with
  | error error =>
    rw [expandPieces, hRest] at h
    cases h
  | ok tail =>
    rw [expandPieces, hRest] at h
    cases h
    exact ⟨tail, rfl, rfl⟩

theorem exists_of_expandPieces_reference {r : Reference}
    (h : expandPieces resolve (.reference r :: rest) = .ok expanded) :
    ∃ value tail, resolve r = .ok value ∧ expandPieces resolve rest = .ok tail ∧ expanded = value ++ tail := by
  cases hValue : resolve r with
  | error error =>
    rw [expandPieces, hValue] at h
    cases h
  | ok value =>
    cases hRest : expandPieces resolve rest with
    | error error =>
      rw [expandPieces, hValue, hRest] at h
      cases h
    | ok tail =>
      rw [expandPieces, hValue, hRest] at h
      cases h
      exact ⟨value, tail, rfl, rfl, rfl⟩

/-- Values without dollar signs leave a text as it is or take dollar signs away. -/
theorem eq_or_count_lt_of_expandPieces {quote : Option Quote}
    (hValues : ∀ r value, .reference r ∈ piecesOf quote text → resolve r = .ok value → '$' ∉ value)
    (h : expandPieces resolve (piecesOf quote text) = .ok expanded) :
    expanded = text ∨ expanded.count '$' < text.count '$' := by
  -- Plain pieces stand in front of what comes after them, before expansion and after it.
  have hPlain : ∀ front tail back : List Char, tail = back ∨ tail.count '$' < back.count '$' →
      front ++ tail = front ++ back ∨ (front ++ tail).count '$' < (front ++ back).count '$' := by
    intro front tail back hTail
    refine hTail.imp (congrArg (front ++ ·)) fun hLess => ?_
    rw [List.count_append, List.count_append]
    omega
  fun_induction piecesOf quote text generalizing expanded with
  | case1 quote =>
    cases h
    exact .inl rfl
  | case2 quote c hEscape =>
    cases h
    exact .inl rfl
  | case3 quote c hEscape d rest ih =>
    obtain ⟨tail, hTail, rfl⟩ := exists_of_expandPieces_plain h
    exact hPlain [c, d] tail rest (ih (fun r value hMem => hValues r value (List.mem_cons_of_mem _ hMem)) hTail)
  | case4 quote c rest hEscape hDollar r after hReference ih =>
    obtain ⟨value, tail, hValue, hTail, rfl⟩ := exists_of_expandPieces_reference h
    have hNone := List.count_eq_zero.mpr (hValues r value List.mem_cons_self hValue)
    have hAfter := (sublist_of_reference? hReference).count_le '$'
    have hLess := ih (fun r value hMem => hValues r value (List.mem_cons_of_mem _ hMem)) hTail
    refine .inr ?_
    rw [hDollar.1, List.count_append, List.count_cons_self]
    obtain rfl | hLess := hLess <;> omega
  | case5 quote c rest hEscape hDollar hReference ih =>
    obtain ⟨tail, hTail, rfl⟩ := exists_of_expandPieces_plain h
    exact hPlain [c] tail rest (ih (fun r value hMem => hValues r value (List.mem_cons_of_mem _ hMem)) hTail)
  | case6 quote c rest hEscape hDollar ih =>
    obtain ⟨tail, hTail, rfl⟩ := exists_of_expandPieces_plain h
    exact hPlain [c] tail rest (ih (fun r value hMem => hValues r value (List.mem_cons_of_mem _ hMem)) hTail)

theorem weight_expand_le (hValues : ∀ r value, .reference r ∈ pieces text → resolve r = .ok value → '$' ∉ value)
    (h : expand resolve text = .ok expanded) : weight expanded ≤ weight text := by
  obtain rfl | hLess := eq_or_count_lt_of_expandPieces hValues h
  · exact le_refl _
  · exact (Prod.Lex.toLex_lt_toLex.mpr (.inl hLess)).le

end Expansion

/-! ## Words -/

theorem flatten_wordsOf_sublist (own : List Lexeme) :
    (wordsOf own).flatten.Sublist (own.flatMap Lexeme.letters) := by
  by_cases hBlank : ∃ blank ∈ own, blank.isBlank = true
  · obtain ⟨blank, hMem, hBlank⟩ := hBlank
    obtain ⟨front, back, hOwn⟩ := List.append_of_mem hMem
    have hFront := flatten_wordsOf_sublist front
    have hBack := flatten_wordsOf_sublist back
    rw [hOwn, wordsOf_append_of_isBlank hBlank, List.flatten_append, List.flatMap_append, List.flatMap_cons]
    exact hFront.append (hBack.trans (List.sublist_append_right _ _))
  · rw [wordsOf_of_unblank fun lexeme hLexeme => by simpa using fun h => hBlank ⟨lexeme, hLexeme, h⟩]
    split
    · simp
    · exact List.nil_sublist _
termination_by own.length
decreasing_by all_goals rw [hOwn, List.length_append, List.length_cons]; omega

/-- The words after the first, with blanks between them, are lighter than the command. -/
theorem weight_intercalate_lt {first : List Char} {args : List (List Char)}
    (h : words text = .ok (first :: args)) (hArgs : args ≠ []) :
    weight (" ".intercalate (args.map String.ofList)).toList < weight text := by
  have hWords : wordsOf (lexemes none text) = first :: args := by
    rw [words_eq] at h
    split at h
    · cases h
    · exact Except.ok.inj h
  have hNonempty : args.map String.ofList ≠ [] := fun hNone => hArgs (List.map_eq_nil_iff.mp hNone)
  have hJoined := Text.toList_intercalate " " hNonempty
  rw [List.flatMap_map] at hJoined
  simp only [String.toList_ofList] at hJoined
  generalize (" ".intercalate (args.map String.ofList)).toList = inner at hJoined ⊢
  have hLetters := letters_sublist_source (lexemes none text)
  rw [source_lexemes] at hLetters
  have hFlatten := flatten_wordsOf_sublist (lexemes none text)
  have hLengths := length_wordsOf_le (lexemes none text)
  rw [hWords] at hFlatten hLengths
  have hDollars : inner.count '$' ≤ text.count '$' := by
    have hSame : inner.count '$' = args.flatten.count '$' := by
      have hCount := congrArg (List.count '$') hJoined
      simpa [List.count_flatMap, List.count_flatten, Function.comp_def] using hCount
    have hTail : args.flatten.Sublist (first :: args).flatten := List.sublist_append_right _ _
    exact hSame.trans_le (((hTail.trans hFlatten).trans hLetters).count_le '$')
  have hShorter : inner.length < text.length := by
    have hInner := congrArg List.length hJoined
    have hSpace : " ".toList.length = 1 := by decide
    have hText := hLetters.length_le
    rw [List.flatMap_cons, List.length_append, List.length_append] at hLengths
    rw [List.length_append] at hInner
    omega
  exact Prod.Lex.toLex_lt_toLex.mpr (hDollars.lt_or_eq.imp_right fun hSame => ⟨hSame, hShorter⟩)

end OptionShell.Line
