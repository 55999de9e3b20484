import OptionShell.Proofs.Line.Trimming
import OptionShell.Text.Separator

/-!
# Texts in double quotes

What stands between double quotes is read as one word. The word is the text itself exactly if the text has no double
quote, no backslash that protects the character after it, and no backslash at its end.
-/
namespace OptionShell.Line

variable {text : List Char} {own : List Lexeme} {start : Option Quote} {c : Char}

def doubleQuoted (text : List Char) : List Char := '"' :: (text ++ ['"'])

/-- Nothing in the text means something else in double quotes. -/
structure KeptInDoubleQuotes (text : List Char) : Prop where
  unquoted : '"' ∉ text
  unescaped : ¬['\\', '\\'] <:+: text
  unescapedDollar : ¬['\\', '$'] <:+: text
  last : text.getLast? ≠ some '\\'

/-! ## Lexemes that stand for themselves -/

/-- A lexeme that stands for its source, whatever follows it. -/
def Lexeme.isFaithful (lexeme : Lexeme) : Bool := lexeme.letters = lexeme.source && !lexeme.isDangling

theorem Lexeme.letters_sublist (lexeme : Lexeme) : lexeme.letters.Sublist lexeme.source := by
  cases lexeme with
  | quotedEscape c =>
    rw [letters]
    split
    · exact List.sublist_cons_self _ _
    · exact .refl _
  | escaped c => exact List.sublist_cons_self _ _
  | bare c | quoted c | quotedDangling => exact .refl _
  | opening q | closing q | dangling => exact List.nil_sublist _

theorem letters_sublist_source (own : List Lexeme) : (own.flatMap Lexeme.letters).Sublist (source own) := by
  induction own with
  | nil => exact .refl _
  | cons lexeme own ih => exact lexeme.letters_sublist.append ih

/-- Lexemes with as many letters as their source has characters stand for themselves. -/
theorem letters_eq_source_of_length_le (h : (source own).length ≤ (own.flatMap Lexeme.letters).length) :
    ∀ lexeme ∈ own, lexeme.letters = lexeme.source := by
  induction own with
  | nil => simp
  | cons lexeme own ih =>
    have hOwn := (letters_sublist_source own).length_le
    have hFirst := lexeme.letters_sublist.length_le
    rw [source_cons, List.flatMap_cons, List.length_append, List.length_append] at h
    exact List.forall_mem_cons.mpr
      ⟨lexeme.letters_sublist.eq_of_length_le (by omega), ih (by omega)⟩

theorem openQuote_of_letters_eq (h : ∀ lexeme ∈ own, lexeme.letters = lexeme.source) (start : Option Quote) :
    openQuote start own = start := by
  induction own with
  | nil => rfl
  | cons lexeme own ih =>
    obtain ⟨hFirst, hOwn⟩ := List.forall_mem_cons.mp h
    rw [openQuote_cons]
    cases lexeme with
    | opening q | closing q => cases hFirst
    | _ => exact ih hOwn

/-! ## Texts that stand for themselves -/

theorem keptInDoubleQuotes_cons (hMark : c ≠ '"') (hBackslash : c ≠ '\\') :
    KeptInDoubleQuotes (c :: text) ↔ KeptInDoubleQuotes text := by
  have hInfix : ∀ d, ['\\', d] <:+: c :: text ↔ ['\\', d] <:+: text := by
    intro d
    rw [List.infix_cons_iff, or_iff_right]
    rintro ⟨back, hBack⟩
    exact hBackslash (List.cons.inj hBack).1.symm
  have hLast : (c :: text).getLast? = some '\\' ↔ text.getLast? = some '\\' := by
    cases text <;> simp [hBackslash]
  constructor
  · intro h
    exact ⟨fun hMem => h.unquoted (List.mem_cons_of_mem c hMem), (hInfix _).not.mp h.unescaped,
      (hInfix _).not.mp h.unescapedDollar, hLast.not.mp h.last⟩
  · intro h
    exact ⟨List.not_mem_cons_of_ne_of_not_mem hMark.symm h.unquoted, (hInfix _).not.mpr h.unescaped,
      (hInfix _).not.mpr h.unescapedDollar, hLast.not.mpr h.last⟩

theorem keptInDoubleQuotes_escape : KeptInDoubleQuotes ('\\' :: c :: text) ↔
    (c ≠ '"' ∧ c ≠ '\\' ∧ c ≠ '$') ∧ KeptInDoubleQuotes text := by
  have hInfix : ∀ d, ['\\', d] <:+: '\\' :: c :: text ↔ c = d ∨ ['\\', d] <:+: c :: text := by
    intro d
    rw [List.infix_cons_iff, List.cons_prefix_cons]
    simp [eq_comm]
  constructor
  · intro h
    have hMark : c ≠ '"' := fun hc => h.unquoted (by simp [hc])
    have hBackslash : c ≠ '\\' := fun hc => h.unescaped ((hInfix _).mpr (.inl hc))
    have hDollar : c ≠ '$' := fun hc => h.unescapedDollar ((hInfix _).mpr (.inl hc))
    have hTail : KeptInDoubleQuotes (c :: text) :=
      ⟨fun hMem => h.unquoted (List.mem_cons_of_mem _ hMem), fun hMem => h.unescaped ((hInfix _).mpr (.inr hMem)),
        fun hMem => h.unescapedDollar ((hInfix _).mpr (.inr hMem)), by simpa using h.last⟩
    exact ⟨⟨hMark, hBackslash, hDollar⟩, (keptInDoubleQuotes_cons hMark hBackslash).mp hTail⟩
  · rintro ⟨⟨hMark, hBackslash, hDollar⟩, h⟩
    have hTail := (keptInDoubleQuotes_cons hMark hBackslash).mpr h
    exact ⟨List.not_mem_cons_of_ne_of_not_mem (by decide) hTail.unquoted,
      (hInfix _).not.mpr (not_or.mpr ⟨hBackslash, hTail.unescaped⟩),
      (hInfix _).not.mpr (not_or.mpr ⟨hDollar, hTail.unescapedDollar⟩), by simpa using hTail.last⟩

theorem keptInDoubleQuotes_iff (text : List Char) :
    KeptInDoubleQuotes text ↔ ∀ lexeme ∈ lexemes (some .double) text, lexeme.isFaithful = true := by
  generalize hStart : some Quote.double = start
  fun_induction lexemes start text with
  | case1 => exact iff_of_true ⟨by simp, by simp, by simp, by simp⟩ (by simp)
  | case9 => exact iff_of_false (fun h => h.last rfl) (by simp [Lexeme.isFaithful, Lexeme.isDangling])
  | case10 c rest ih =>
    have hEscape : (Lexeme.quotedEscape c).isFaithful = true ↔ c ≠ '"' ∧ c ≠ '\\' ∧ c ≠ '$' := by
      simp [Lexeme.isFaithful, Lexeme.isDangling, Lexeme.letters, Lexeme.source, and_assoc]
    rw [keptInDoubleQuotes_escape, List.forall_mem_cons, hEscape, ih hStart]
  | case11 rest ih =>
    exact iff_of_false (fun h => h.unquoted (by simp)) (by simp [Lexeme.isFaithful, Lexeme.letters, Lexeme.source])
  | case12 c rest hEnd hEscape hDouble ih =>
    have hBackslash : c ≠ '\\' := by
      rintro rfl
      cases rest with
      | nil => exact hEnd rfl rfl
      | cons d rest => exact hEscape d rest rfl rfl
    rw [keptInDoubleQuotes_cons hDouble hBackslash, List.forall_mem_cons, ih hStart]
    simp [Lexeme.isFaithful, Lexeme.isDangling, Lexeme.letters, Lexeme.source]
  | _ => cases hStart

/-! ## Words -/

/-- Words with a blank before each have no more letters than the lexemes that they come from, but for one blank. -/
theorem length_wordsOf_le (own : List Lexeme) :
    ((wordsOf own).flatMap fun word => " ".toList ++ word).length ≤ (own.flatMap Lexeme.letters).length + 1 := by
  have hSpace : " ".toList.length = 1 := by decide
  by_cases hBlank : ∃ blank ∈ own, blank.isBlank = true
  · obtain ⟨blank, hMem, hBlank⟩ := hBlank
    obtain ⟨front, back, hOwn⟩ := List.append_of_mem hMem
    have hFront := length_wordsOf_le front
    have hBack := length_wordsOf_le back
    have hLetter : blank.letters.length = 1 := by
      cases blank <;> first | rfl | cases hBlank
    rw [hOwn, wordsOf_append_of_isBlank hBlank, List.flatMap_append, List.length_append, List.flatMap_append,
      List.length_append, List.flatMap_cons, List.length_append]
    omega
  · rw [wordsOf_of_unblank fun lexeme hLexeme => by simpa using fun h => hBlank ⟨lexeme, hLexeme, h⟩]
    split
    · rw [List.flatMap_singleton, List.length_append]
      omega
    · exact Nat.zero_le _
termination_by own.length
decreasing_by all_goals rw [hOwn, List.length_append, List.length_cons]; omega

/-- The double quote after a text closes the quotes before it, or adds no more letters than the text has left. -/
theorem length_letters_mark (hText : text = [] ∨ text = ['\\'])
    (hClosed : openQuote start (lexemes start (text ++ ['"'])) = none) :
    ((lexemes start (text ++ ['"'])).flatMap Lexeme.letters).length ≤ text.length ∧
      (start = some .double → text = []) := by
  obtain rfl | rfl := hText <;> rcases start with _ | (_ | _)
  · cases hClosed
  · cases hClosed
  · exact ⟨Nat.le_refl 0, fun _ => rfl⟩
  · exact ⟨Nat.le_refl 1, nofun⟩
  · cases hClosed
  · cases hClosed

/-- A text between double quotes that loses no letters is kept whole. -/
theorem keptInDoubleQuotes_of_length_le (hClosed : openAfter (doubleQuoted text) = none)
    (hLength : text.length ≤ ((lexemes none (doubleQuoted text)).flatMap Lexeme.letters).length) :
    KeptInDoubleQuotes text := by
  change openQuote (some .double) (lexemes (some .double) (text ++ ['"'])) = none at hClosed
  change text.length ≤ ((lexemes (some .double) (text ++ ['"'])).flatMap Lexeme.letters).length at hLength
  obtain ⟨front, back, hText, hFront, hBack⟩ := exists_dangling_end (some .double) text
  have hSource : text = source front ++ source back := by
    rw [← source_lexemes (some .double) text, hText, source, List.flatMap_append]
    rfl
  have hEnd : source back = [] ∨ source back = ['\\'] := by
    obtain rfl | ⟨last, rfl, hLast⟩ := hBack
    · exact .inl rfl
    · cases last <;> first | exact .inr rfl | cases hLast
  rw [lexemes_append hText hFront] at hClosed hLength
  rw [openQuote_append] at hClosed
  rw [List.flatMap_append, List.length_append, hSource, List.length_append] at hLength
  obtain ⟨hMark, hInside⟩ := length_letters_mark hEnd hClosed
  have hFaithful : ∀ lexeme ∈ front, lexeme.letters = lexeme.source := letters_eq_source_of_length_le (by omega)
  have hNone := hInside (openQuote_of_letters_eq hFaithful _)
  rw [keptInDoubleQuotes_iff, hText]
  obtain rfl | ⟨last, rfl, hLast⟩ := hBack
  · intro lexeme hLexeme
    rw [List.append_nil] at hLexeme
    simp [Lexeme.isFaithful, hFaithful lexeme hLexeme, hFront lexeme hLexeme]
  · cases last <;> cases hNone

theorem bare_notMem_of_letters_eq (h : ∀ lexeme ∈ lexemes (some .double) text, lexeme.letters = lexeme.source)
    (c : Char) : .bare c ∉ lexemes (some .double) text := by
  intro hMem
  obtain ⟨front, back, hText⟩ := List.append_of_mem hMem
  have hBack := (lexemes_source_of_append front hText).2
  rw [openQuote_of_letters_eq fun lexeme hLexeme => h lexeme (by simp [hText, hLexeme])] at hBack
  cases eq_none_of_lexemes_eq_bare_cons hBack

theorem spells_doubleQuoted (h : KeptInDoubleQuotes text) : Spells (lexemes none (doubleQuoted text)) [text] := by
  have hFaithful : ∀ lexeme ∈ lexemes (some .double) text,
      lexeme.letters = lexeme.source ∧ lexeme.isDangling = false := by
    simpa [Lexeme.isFaithful] using (keptInDoubleQuotes_iff text).mp h
  have hLetters := fun lexeme hLexeme => (hFaithful lexeme hLexeme).1
  have hOpen := openQuote_of_letters_eq hLetters (some .double)
  have hOwn : lexemes none (doubleQuoted text) =
      .opening .double :: (lexemes (some .double) text ++ [.closing .double]) := by
    have hText := lexemes_append (List.append_nil _).symm (fun lexeme hLexeme => (hFaithful lexeme hLexeme).2) ['"']
    rw [hOpen] at hText
    exact congrArg (.opening .double :: ·) hText
  have hBare : ∀ c, .bare c ∉ lexemes none (doubleQuoted text) := by
    intro c hMem
    simp [hOwn, bare_notMem_of_letters_eq hLetters] at hMem
  have hWord : isWord (.opening .double :: (lexemes (some .double) text ++ [.closing .double])) = true := rfl
  have hJoined : (lexemes (some .double) text).flatMap Lexeme.letters = text := by
    rw [List.flatMap_def, List.map_congr_left hLetters, ← List.flatMap_def]
    exact source_lexemes _ text
  refine ⟨fun c _ => hBare c, ?_, ?_⟩
  · rw [hOwn, openQuote_cons, openQuote_append]
    exact congrArg (openQuote · [.closing .double]) hOpen
  · rw [wordsOf_of_unblank (isBlank_eq_false_of_bare_notMem hBare), hOwn, if_pos hWord]
    simp [Lexeme.letters, hJoined]

/-- The words of a text between double quotes, with blanks between them, are the text only if it is kept whole. -/
theorem keptInDoubleQuotes_of_intercalate (hClosed : openAfter (doubleQuoted text) = none)
    (h : " ".intercalate ((wordsOf (lexemes none (doubleQuoted text))).map String.ofList) = String.ofList text) :
    KeptInDoubleQuotes text := by
  apply keptInDoubleQuotes_of_length_le hClosed
  have hText := congrArg String.length h
  rw [String.length_ofList] at hText
  by_cases hNone : (wordsOf (lexemes none (doubleQuoted text))).map String.ofList = []
  · rw [hNone, String.intercalate_nil, String.length_empty] at hText
    omega
  · have hJoined := Text.length_intercalate " " hNone
    have hLetters := length_wordsOf_le (lexemes none (doubleQuoted text))
    have hSpace : " ".length = 1 := by decide
    rw [List.flatMap_map] at hJoined
    simp only [String.toList_ofList] at hJoined
    omega

/-- Only the text between the quotes decides whether a command has words, and which. -/
theorem words_append_doubleQuoted {command : List Char} (hCommand : command ≠ [])
    (hOrdinary : ∀ c ∈ command, isOrdinary c = true) (text : List Char) :
    words (command ++ ' ' :: doubleQuoted text) =
      (words (doubleQuoted text)).map (command :: ·) := by
  have hOwn : lexemes none (command ++ ' ' :: doubleQuoted text) =
      command.map .bare ++ .bare ' ' :: lexemes none (doubleQuoted text) := by
    rw [lexemes_ordinary hOrdinary, lexemes_blank]
  have hOpen : openAfter (command ++ ' ' :: doubleQuoted text) = openAfter (doubleQuoted text) := by
    rw [openAfter, hOwn, openQuote_append, openQuote_bare]
    rfl
  have hWords : wordsOf (lexemes none (command ++ ' ' :: doubleQuoted text)) =
      command :: wordsOf (lexemes none (doubleQuoted text)) := by
    rw [hOwn, wordsOf_append_of_isBlank (by decide), (spells_ordinary hCommand hOrdinary).words]
    rfl
  rw [words_eq, words_eq, hOpen, hWords]
  cases openAfter (doubleQuoted text) <;> rfl

/-! ## References in double quotes -/

section Expansion

variable {resolve : Reference → Except LineError (List Char)} {quote : Option Quote}
  {name value rest expanded : List Char}

theorem reference?_name (hName : name ≠ []) (hChars : ∀ c ∈ name, isNameChar c = true)
    (hEnd : ∀ c ∈ rest.head?, isNameChar c = false) :
    reference? (name ++ rest) = some (.variableNamed name, rest) := by
  obtain ⟨first, tail, rfl⟩ := List.exists_cons_of_ne_nil hName
  have hFirst : ∀ c, isNameChar c = false → first ≠ c := by
    rintro c hc rfl
    rw [hChars first List.mem_cons_self] at hc
    cases hc
  have hRest : rest.takeWhile isNameChar = [] ∧ rest.dropWhile isNameChar = rest := by
    cases rest with
    | nil => exact ⟨rfl, rfl⟩
    | cons c rest => simp [hEnd c rfl]
  have hTake : (first :: tail ++ rest).takeWhile isNameChar = first :: tail := by
    rw [List.takeWhile_append_of_pos hChars, hRest.1, List.append_nil]
  have hDrop : (first :: tail ++ rest).dropWhile isNameChar = rest := by
    rw [List.dropWhile_append_of_pos hChars, hRest.2]
  rw [List.cons_append] at hTake hDrop ⊢
  have hStatus := hFirst '?' (by decide)
  have hFlags := hFirst '-' (by decide)
  have hBrace := hFirst '{' (by decide)
  simp [reference?, hStatus, hFlags, hBrace, hTake, hDrop]

theorem piecesOf_reference {text : List Char} {r : Reference} (hQuote : quote ≠ some .single)
    (hReference : reference? text = some (r, rest)) :
    piecesOf quote ('$' :: text) = .reference r :: piecesOf quote rest := by
  rw [piecesOf.eq_def]
  dsimp only
  rw [if_neg (by simp), if_pos ⟨rfl, hQuote⟩]
  split
  · rename_i hFound
    cases hReference.symm.trans hFound
    rfl
  · rename_i hFound
    cases hReference.symm.trans hFound

theorem expandPieces_reference {text : List Char} {r : Reference} (hQuote : quote ≠ some .single)
    (hReference : reference? text = some (r, rest)) (hValue : resolve r = .ok value)
    (hRest : expandPieces resolve (piecesOf quote rest) = .ok expanded) :
    expandPieces resolve (piecesOf quote ('$' :: text)) = .ok (value ++ expanded) := by
  rw [piecesOf_reference hQuote hReference, expandPieces, hValue, hRest]
  rfl

theorem expand_doubleQuoted {command : List Char} (hCommand : ∀ c ∈ command, isOrdinary c = true) (hName : name ≠ [])
    (hChars : ∀ c ∈ name, isNameChar c = true) (hValue : resolve (.variableNamed name) = .ok value) :
    expand resolve (command ++ ' ' :: doubleQuoted ('$' :: name)) = .ok (command ++ ' ' :: doubleQuoted value) := by
  apply expandPieces_ordinary hCommand
  apply expandPieces_cons (by decide) (by decide)
  apply expandPieces_cons (by decide) (by decide)
  rw [List.cons_append]
  apply expandPieces_reference (by decide) (reference?_name hName hChars ?_) hValue
  · exact expandPieces_of_notMem (by decide) _
  · intro c hMark
    cases hMark
    decide

end Expansion

end OptionShell.Line
