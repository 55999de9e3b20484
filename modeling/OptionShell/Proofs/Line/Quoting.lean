import OptionShell.Line.Expansion
import OptionShell.Proofs.Line.Scanning

/-!
# Quoted words

A word is quoted by single quotes around it, where each single quote of its own closes them, is escaped, and opens
them again. Cutting a line into commands, replacing references and reading words take what is written so as one word
and nothing else, and a line of such words, with a blank between two, as one command of these words.
-/
namespace OptionShell

/-- Blanks are trimmed only behind a text that starts and ends with other characters. -/
theorem Text.trim_append {front : List Char} (hFirst : ∃ c, front.head? = some c ∧ isBlank c = false)
    (hLast : ∃ c, front.getLast? = some c ∧ isBlank c = false) (text : List Char) :
    trim (front ++ text) = front ++ trimEnd text := by
  have hKept : ∀ front text : List Char, (∃ c, front.head? = some c ∧ isBlank c = false) →
      (front ++ text).dropWhile isBlank = front ++ text := by
    rintro (_ | ⟨c, rest⟩) text ⟨d, hHead, hd⟩
    · cases hHead
    · cases hHead
      exact List.dropWhile_cons_of_neg (by rw [hd]; decide)
  have hEnd : front.reverse.dropWhile isBlank = front.reverse := by
    have hBack := hKept front.reverse [] (by rwa [List.head?_reverse])
    rwa [List.append_nil] at hBack
  rw [trim, trimStart, hKept front text hFirst, trimEnd, List.reverse_append, List.dropWhile_append, hEnd, trimEnd]
  split
  · rename_i hNone
    rw [List.isEmpty_iff.mp hNone, List.reverse_reverse, List.reverse_nil, List.append_nil]
  · rw [List.reverse_append, List.reverse_reverse]

namespace Line

/-- A character between single quotes: a single quote leaves them, is escaped, and enters them again. -/
def quotedLetter (c : Char) : List Char := if c = '\'' then ['\'', '\\', '\'', '\''] else [c]

def quotedWord (word : List Char) : List Char := '\'' :: (word.flatMap quotedLetter ++ ['\''])

/-- A line of quoted words, with a blank between two. -/
def quotedLine (words : List (List Char)) : List Char := [' '].intercalate (words.map quotedWord)

/-- Neither a blank nor part of quotes, an escape, a reference or a connective. -/
def isOrdinary (c : Char) : Bool := !(Text.isBlank c || ['\'', '"', '\\', '$', ';', '&', '|'].contains c)

/-! ## Lexemes of a command -/

/-- Lexemes that spell these words, with no connective among them and no quotes left open. -/
structure Spells (own : List Lexeme) (words : List (List Char)) : Prop where
  uncut : ∀ c ∈ [';', '&', '|'], Lexeme.bare c ∉ own
  closed : openQuote none own = none
  words : wordsOf own = words

theorem cut_of_uncut {own : List Lexeme} (h : ∀ c ∈ [';', '&', '|'], Lexeme.bare c ∉ own) : cut own = (own, []) := by
  fun_induction cut own with
  | case1 => rfl
  | case2 rest => exact absurd List.mem_cons_self (h ';' (by decide))
  | case3 rest => exact absurd List.mem_cons_self (h '&' (by decide))
  | case4 rest => exact absurd List.mem_cons_self (h '|' (by decide))
  | case5 lexeme rest hStart hAnd hOr first others hCut ih =>
    have hRest := ih fun c hc hMem => h c hc (List.mem_cons_of_mem _ hMem)
    rw [hCut] at hRest
    cases hRest
    rfl

/-- Lexemes without connectives belong to the first command of what follows them, if their last one makes no connective
with it. -/
theorem cut_append_of_cut {own : List Lexeme} (h : cut own = (own, []))
    (hLast : ∀ c ∈ ['&', '|'], own.getLast? ≠ some (.bare c)) (rest : List Lexeme) :
    cut (own ++ rest) = (own ++ (cut rest).1, (cut rest).2) := by
  fun_induction cut own with
  | case1 => rfl
  | case2 | case3 | case4 => cases h
  | case5 lexeme own hStart hAnd hOr first others hCut ih =>
    cases h
    have hRest := ih hCut fun c hc hEnd => hLast c hc (by rw [List.getLast?_cons, hEnd]; rfl)
    have hApart : ∀ c ∈ ['&', '|'], (∀ back, lexeme = .bare c → own = .bare c :: back → False) →
        ∀ back, lexeme = .bare c → own ++ rest = .bare c :: back → False := by
      rintro c hc hOwn back rfl hBack
      cases own with
      | nil => exact hLast c hc rfl
      | cons next own =>
        obtain ⟨rfl, -⟩ := List.cons.inj hBack
        exact hOwn own rfl rfl
    rw [List.cons_append, cut.eq_5 _ _ hStart (hApart '&' (by decide) hAnd) (hApart '|' (by decide) hOr), hRest]
    rfl

/-- The first command of a line ends at the first connective. -/
theorem cut_append_semicolon {own : List Lexeme} (h : ∀ c ∈ [';', '&', '|'], Lexeme.bare c ∉ own)
    (rest : List Lexeme) : cut (own ++ .bare ';' :: rest) = (own, (.always, (cut rest).1) :: (cut rest).2) := by
  have hLast : ∀ c ∈ ['&', '|'], own.getLast? ≠ some (.bare c) := fun c hc hEnd =>
    h c (List.mem_cons_of_mem ';' hc) (List.mem_of_getLast? hEnd)
  rw [cut_append_of_cut (cut_of_uncut h) hLast]
  exact congrArg (·, _) (List.append_nil own)

theorem Spells.append {front back : List Lexeme} {words others : List (List Char)} (h : Spells front words)
    (hOthers : Spells back others) : Spells (front ++ .bare ' ' :: back) (words ++ others) where
  uncut c hc hMem := by
    obtain hFront | hRest := List.mem_append.mp hMem
    · exact h.uncut c hc hFront
    · obtain hBlank | hBack := List.mem_cons.mp hRest
      · cases hBlank
        exact absurd hc (by decide)
      · exact hOthers.uncut c hc hBack
  closed := by
    rw [openQuote_append, h.closed]
    exact hOthers.closed
  words := by rw [wordsOf_append_of_isBlank (by decide), h.words, hOthers.words]

/-! ## Text without references -/

section Expansion

variable {resolve : Reference → Except LineError (List Char)} {quote : Option Quote} {c : Char}
  {rest expanded : List Char}

theorem piecesOf_cons (hEscape : c = '\\' → quote = some .single) (hReference : c = '$' → quote = some .single)
    (rest : List Char) : piecesOf quote (c :: rest) = .plain [c] :: piecesOf (quoteAfter quote c) rest := by
  rw [piecesOf.eq_def]
  dsimp only
  rw [if_neg fun h => h.2 (hEscape h.1), if_neg fun h => h.2 (hReference h.1)]

theorem piecesOf_escape (hQuote : quote ≠ some .single) (c : Char) (rest : List Char) :
    piecesOf quote ('\\' :: c :: rest) = .plain ['\\', c] :: piecesOf quote rest := by
  rw [piecesOf, if_pos ⟨rfl, hQuote⟩]

theorem expandPieces_cons (hEscape : c = '\\' → quote = some .single) (hReference : c = '$' → quote = some .single)
    (hRest : expandPieces resolve (piecesOf (quoteAfter quote c) rest) = .ok expanded) :
    expandPieces resolve (piecesOf quote (c :: rest)) = .ok (c :: expanded) := by
  rw [piecesOf_cons hEscape hReference, expandPieces, hRest]
  rfl

theorem expandPieces_escape (hQuote : quote ≠ some .single)
    (hRest : expandPieces resolve (piecesOf quote rest) = .ok rest) :
    expandPieces resolve (piecesOf quote ('\\' :: c :: rest)) = .ok ('\\' :: c :: rest) := by
  rw [piecesOf_escape hQuote, expandPieces, hRest]
  rfl

/-- Without a dollar sign nothing is a reference. -/
theorem expandPieces_of_notMem {text : List Char} (h : '$' ∉ text) (quote : Option Quote) :
    expandPieces resolve (piecesOf quote text) = .ok text := by
  fun_induction piecesOf quote text with
  | case1 => rfl
  | case2 quote c hEscape => rfl
  | case3 quote c hEscape d rest ih =>
    rw [expandPieces, ih fun hRest => h (List.mem_cons_of_mem _ (List.mem_cons_of_mem _ hRest))]
    rfl
  | case4 quote c rest hEscape hDollar r after hReference ih =>
    exact absurd (hDollar.1 ▸ List.mem_cons_self) h
  | case5 quote c rest hEscape hDollar hNone ih =>
    exact absurd (hDollar.1 ▸ List.mem_cons_self) h
  | case6 quote c rest hEscape hDollar ih =>
    rw [expandPieces, ih fun hRest => h (List.mem_cons_of_mem _ hRest)]
    rfl

/-- Between single quotes nothing is a reference. -/
theorem expandPieces_quotedLetters (word : List Char) (hRest : expandPieces resolve (piecesOf none rest) = .ok rest) :
    expandPieces resolve (piecesOf (some .single) (word.flatMap quotedLetter ++ '\'' :: rest)) =
      .ok (word.flatMap quotedLetter ++ '\'' :: rest) := by
  induction word with
  | nil => exact expandPieces_cons (fun _ => rfl) (fun _ => rfl) hRest
  | cons c word ih =>
    rw [List.flatMap_cons, List.append_assoc, quotedLetter]
    split
    · refine expandPieces_cons (fun _ => rfl) (fun _ => rfl) (expandPieces_escape (by decide) ?_)
      exact expandPieces_cons (by decide) (by decide) ih
    · rename_i hc
      have hInside : quoteAfter (some .single) c = some .single := by
        rw [quoteAfter.eq_5] <;> simp [hc]
      exact expandPieces_cons (fun _ => rfl) (fun _ => rfl) (by rwa [hInside])

end Expansion

/-! ## Texts of words -/

/-- A text that is read as these words and nothing else, whatever follows it. -/
structure Writes (text : List Char) (words : List (List Char)) : Prop where
  spells : Spells (lexemes none text) words
  apart : ∀ rest, lexemes none (text ++ rest) = lexemes none text ++ lexemes none rest
  plain : ∀ (resolve : Reference → Except LineError (List Char)) (rest : List Char),
    expandPieces resolve (piecesOf none rest) = .ok rest →
      expandPieces resolve (piecesOf none (text ++ rest)) = .ok (text ++ rest)
  first : ∃ c, text.head? = some c ∧ Text.isBlank c = false
  last : ∃ c, text.getLast? = some c ∧ Text.isBlank c = false

theorem lexemes_of_apart {text : List Char} {own : List Lexeme}
    (h : ∀ rest, lexemes none (text ++ rest) = own ++ lexemes none rest) : lexemes none text = own := by
  have hAll := h []
  rw [List.append_nil] at hAll
  exact hAll.trans (List.append_nil own)

theorem lexemes_blank (rest : List Char) : lexemes none (' ' :: rest) = .bare ' ' :: lexemes none rest := by
  rw [lexemes] <;> simp

namespace Writes

variable {text other : List Char} {ws others : List (List Char)}

theorem append (h : Writes text ws) (hOther : Writes other others) :
    Writes (text ++ ' ' :: other) (ws ++ others) where
  spells := by
    rw [h.apart, lexemes_blank]
    exact h.spells.append hOther.spells
  apart rest := by
    rw [List.append_assoc, List.cons_append, h.apart, h.apart, lexemes_blank, lexemes_blank, hOther.apart,
      List.append_assoc, List.cons_append]
  plain resolve rest hRest := by
    rw [List.append_assoc, List.cons_append]
    refine h.plain resolve _ (expandPieces_cons (by decide) (by decide) ?_)
    exact hOther.plain resolve rest hRest
  first := by
    obtain ⟨c, hFirst, hc⟩ := h.first
    exact ⟨c, by rw [List.head?_append, hFirst]; rfl, hc⟩
  last := by
    obtain ⟨c, hLast, hc⟩ := hOther.last
    exact ⟨c, by rw [List.getLast?_append, List.getLast?_cons, hLast]; rfl, hc⟩

theorem trim_eq (h : Writes text ws) : Text.trim text = text := by
  have hTrim := Text.trim_append h.first h.last []
  rw [List.append_nil] at hTrim
  exact hTrim.trans (List.append_nil text)

theorem ne_nil (h : Writes text ws) : text ≠ [] := by
  rintro rfl
  obtain ⟨c, hFirst, -⟩ := h.first
  cases hFirst

/-- The text is a single command. -/
theorem segments_eq (h : Writes text ws) : segments text = .ok [⟨.always, text⟩] := by
  rw [segments_eq_segmentsAfter, segmentsAfter, cut_of_uncut h.spells.uncut]
  rw [segmentsOf, source_lexemes, h.trim_eq, List.isEmpty_eq_false_iff.mpr h.ne_nil]
  rfl

/-- The text and a semicolon before a line put a command before those of the line. -/
theorem segments_append (h : Writes text ws) (line : List Char) :
    segments (text ++ ' ' :: ';' :: line) = (segments line).map (⟨.always, text⟩ :: ·) := by
  have hLexemes : lexemes none (text ++ ' ' :: ';' :: line) =
      (lexemes none text ++ [.bare ' ']) ++ .bare ';' :: lexemes none line := by
    have hSemicolon : lexemes none (';' :: line) = .bare ';' :: lexemes none line := by
      rw [lexemes] <;> simp
    rw [h.apart, lexemes_blank, hSemicolon, List.append_assoc]
    rfl
  have hUncut : ∀ c ∈ [';', '&', '|'], Lexeme.bare c ∉ lexemes none text ++ [.bare ' '] := by
    intro c hc hMem
    obtain hFront | hBack := List.mem_append.mp hMem
    · exact h.spells.uncut c hc hFront
    · cases List.mem_singleton.mp hBack
      exact absurd hc (by decide)
  have hText : Text.trim (source (lexemes none text ++ [.bare ' '])) = text := by
    have hSource : source (lexemes none text ++ [.bare ' ']) = text ++ [' '] := by
      rw [source, List.flatMap_append, ← source, source_lexemes]
      rfl
    rw [hSource, Text.trim_append h.first h.last]
    exact List.append_nil text
  rw [segments_eq_segmentsAfter, segments_eq_segmentsAfter, segmentsAfter, hLexemes, cut_append_semicolon hUncut,
    segmentsOf, hText, List.isEmpty_eq_false_iff.mpr h.ne_nil]
  rfl

theorem expand_eq (h : Writes text ws) (resolve : Reference → Except LineError (List Char)) :
    expand resolve text = .ok text := by
  have hAll := h.plain resolve [] (by rw [piecesOf]; rfl)
  rwa [List.append_nil] at hAll

theorem words_eq (h : Writes text ws) : Line.words text = .ok ws := by
  rw [words_eq_wordsOf, h.spells.closed]
  exact congrArg Except.ok h.spells.words

end Writes

/-! ## Quoted and ordinary words -/

/-- The lexemes of a character between single quotes. -/
def quotedLetterLexemes (c : Char) : List Lexeme :=
  if c = '\'' then [.closing .single, .escaped '\'', .opening .single] else [.quoted c]

theorem lexemes_quotedLetters (word rest : List Char) :
    lexemes (some .single) (word.flatMap quotedLetter ++ '\'' :: rest) =
      word.flatMap quotedLetterLexemes ++ .closing .single :: lexemes none rest := by
  induction word with
  | nil => rfl
  | cons c word ih =>
    rw [List.flatMap_cons, List.flatMap_cons, List.append_assoc, List.append_assoc, ← ih, quotedLetter,
      quotedLetterLexemes]
    split
    · rfl
    · rename_i hc
      rw [List.cons_append, List.nil_append, lexemes.eq_8 _ _ hc]
      rfl

theorem letters_quotedLetters (word : List Char) :
    (word.flatMap quotedLetterLexemes).flatMap Lexeme.letters = word := by
  rw [List.flatMap_assoc]
  have hLetter : ∀ c, (quotedLetterLexemes c).flatMap Lexeme.letters = [c] := by
    intro c
    rw [quotedLetterLexemes]
    split
    · rename_i hc
      rw [hc]
      rfl
    · rfl
  rw [funext hLetter, List.flatMap_singleton']

theorem openQuote_quotedLetters (word : List Char) :
    openQuote (some .single) (word.flatMap quotedLetterLexemes) = some .single := by
  induction word with
  | nil => rfl
  | cons c word ih =>
    have hLetter : openQuote (some .single) (quotedLetterLexemes c) = some .single := by
      rw [quotedLetterLexemes]
      split <;> rfl
    rw [List.flatMap_cons, openQuote_append, hLetter, ih]

theorem bare_notMem_quotedLetters (c : Char) (word : List Char) : .bare c ∉ word.flatMap quotedLetterLexemes := by
  intro h
  obtain ⟨d, -, hd⟩ := List.mem_flatMap.mp h
  rw [quotedLetterLexemes] at hd
  split at hd <;> simp at hd

/-- The lexemes of a word in single quotes. -/
def quotedWordLexemes (word : List Char) : List Lexeme :=
  .opening .single :: (word.flatMap quotedLetterLexemes ++ [.closing .single])

theorem lexemes_quotedWord (word rest : List Char) :
    lexemes none (quotedWord word ++ rest) = quotedWordLexemes word ++ lexemes none rest := by
  rw [quotedWord, List.cons_append, List.append_assoc, lexemes, List.cons_append, List.nil_append,
    lexemes_quotedLetters, quotedWordLexemes, List.cons_append, List.append_assoc]
  rfl

theorem spells_quotedWord (word : List Char) : Spells (quotedWordLexemes word) [word] := by
  have hBare : ∀ c, Lexeme.bare c ∉ quotedWordLexemes word := by
    intro c hMem
    simp [quotedWordLexemes, bare_notMem_quotedLetters c word] at hMem
  refine ⟨fun c _ => hBare c, ?_, ?_⟩
  · change openQuote (some .single) (_ ++ _) = none
    rw [openQuote_append, openQuote_quotedLetters]
    rfl
  · have hWord : isWord (quotedWordLexemes word) = true := rfl
    rw [wordsOf_of_unblank (isBlank_eq_false_of_bare_notMem hBare), if_pos hWord]
    simp [quotedWordLexemes, Lexeme.letters, letters_quotedLetters]

theorem writes_quotedWord (word : List Char) : Writes (quotedWord word) [word] := by
  have hOwn := lexemes_of_apart (lexemes_quotedWord word)
  refine ⟨?_, ?_, ?_, ⟨'\'', rfl, by decide⟩, ⟨'\'', ?_, by decide⟩⟩
  · rw [hOwn]
    exact spells_quotedWord word
  · rw [hOwn]
    exact lexemes_quotedWord word
  · intro resolve rest hRest
    rw [quotedWord, List.cons_append, List.append_assoc]
    exact expandPieces_cons (by decide) (by decide) (expandPieces_quotedLetters word hRest)
  · rw [quotedWord, ← List.cons_append, List.getLast?_concat]

theorem writes_quotedLine {ws : List (List Char)} (h : ws ≠ []) : Writes (quotedLine ws) ws := by
  induction ws with
  | nil => exact absurd rfl h
  | cons word rest ih =>
    rw [quotedLine, List.map_cons]
    cases rest with
    | nil =>
      rw [List.map_nil, List.intercalate_singleton]
      exact writes_quotedWord word
    | cons next others =>
      rw [List.intercalate_cons_of_ne_nil (by simp), List.append_assoc]
      exact (writes_quotedWord word).append (ih (List.cons_ne_nil next others))

theorem outside_of_ordinary {c : Char} (h : isOrdinary c = true) :
    Text.isBlank c = false ∧ ∀ d ∈ ['\'', '"', '\\', '$', ';', '&', '|'], c ≠ d := by
  rw [isOrdinary, Bool.not_eq_true', Bool.or_eq_false_iff] at h
  refine ⟨h.1, ?_⟩
  rintro d hd rfl
  rw [List.contains_iff_mem.mpr hd] at h
  cases h.2

/-- The characters of names stand for themselves. -/
theorem isOrdinary_of_isNameChar {c : Char} (h : isNameChar c = true) : isOrdinary c = true := by
  have hRange : c.toNat = 0x5F ∨ 0x30 ≤ c.toNat ∧ c.toNat ≤ 0x39 ∨ 0x41 ≤ c.toNat ∧ c.toNat ≤ 0x5A ∨
      0x61 ≤ c.toNat ∧ c.toNat ≤ 0x7A := by
    rw [isNameChar, Bool.or_eq_true, decide_eq_true_eq] at h
    obtain hAlphanum | rfl := h
    · obtain hAlpha | hDigit := Bool.or_eq_true_iff.mp hAlphanum
      · obtain hUpper | hLower := Bool.or_eq_true_iff.mp hAlpha
        · exact .inr (.inr (.inl (of_decide_eq_true hUpper)))
        · obtain ⟨hFirst, hLast⟩ := Bool.and_eq_true_iff.mp hLower
          exact .inr (.inr (.inr ⟨of_decide_eq_true hFirst, of_decide_eq_true hLast⟩))
      · exact .inr (.inl (Char.isDigit_iff_toNat.mp hDigit))
    · exact .inl rfl
  have hBlank : Text.isBlank c = false := by
    rw [Text.isBlank, List.any_eq_false]
    simp only [Text.blankRanges, List.forall_mem_cons, Bool.and_eq_true, decide_eq_true_eq]
    refine ⟨?_, ?_, ?_, ?_, ?_, ?_, ?_, ?_, ?_, ?_, fun _ hNone => (List.not_mem_nil hNone).elim⟩ <;> omega
  rw [isOrdinary, hBlank, Bool.false_or, Bool.not_eq_true', ← Bool.not_eq_true, List.contains_iff_mem]
  intro hMem
  have hOther : ['\'', '"', '\\', '$', ';', '&', '|'].all (fun d => !isNameChar d) = true := by decide
  rw [List.all_eq_true] at hOther
  have hc := hOther c hMem
  rw [h] at hc
  cases hc

theorem lexemes_ordinary {word : List Char} (h : ∀ c ∈ word, isOrdinary c = true) (rest : List Char) :
    lexemes none (word ++ rest) = word.map .bare ++ lexemes none rest := by
  induction word with
  | nil => rfl
  | cons c word ih =>
    have hc := (outside_of_ordinary (h c List.mem_cons_self)).2
    have hRead : lexemes none (c :: (word ++ rest)) = .bare c :: lexemes none (word ++ rest) := by
      rw [lexemes] <;> simp [hc]
    rw [List.cons_append, hRead, ih fun d hd => h d (List.mem_cons_of_mem c hd)]
    rfl

theorem openQuote_bare (start : Option Quote) (word : List Char) : openQuote start (word.map .bare) = start := by
  induction word with
  | nil => rfl
  | cons c word ih => exact ih

theorem expandPieces_ordinary {word : List Char} (h : ∀ c ∈ word, isOrdinary c = true)
    {resolve : Reference → Except LineError (List Char)} {rest expanded : List Char}
    (hRest : expandPieces resolve (piecesOf none rest) = .ok expanded) :
    expandPieces resolve (piecesOf none (word ++ rest)) = .ok (word ++ expanded) := by
  induction word with
  | nil => exact hRest
  | cons c word ih =>
    have hc := (outside_of_ordinary (h c List.mem_cons_self)).2
    have hOutside : quoteAfter none c = none := by
      rw [quoteAfter.eq_5] <;> simp [hc]
    refine expandPieces_cons (fun h => ?_) (fun h => ?_) ?_
    · exact absurd h (hc '\\' (by decide))
    · exact absurd h (hc '$' (by decide))
    · rw [hOutside]
      exact ih fun d hd => h d (List.mem_cons_of_mem c hd)

theorem spells_ordinary {word : List Char} (hNonempty : word ≠ []) (h : ∀ c ∈ word, isOrdinary c = true) :
    Spells (word.map .bare) [word] := by
  refine ⟨fun c hc hMem => ?_, openQuote_bare none word, ?_⟩
  · obtain ⟨d, hd, hSame⟩ := List.mem_map.mp hMem
    cases hSame
    exact (outside_of_ordinary (h c hd)).2 c (List.mem_append_right ['\'', '"', '\\', '$'] hc) rfl
  · have hUnblank : ∀ lexeme ∈ word.map Lexeme.bare, lexeme.isBlank = false := by
      intro lexeme hLexeme
      obtain ⟨c, hc, rfl⟩ := List.mem_map.mp hLexeme
      exact (outside_of_ordinary (h c hc)).1
    have hWord : isWord (word.map .bare) = true := by
      obtain ⟨c, rest, rfl⟩ := List.exists_cons_of_ne_nil hNonempty
      rfl
    rw [wordsOf_of_unblank hUnblank, if_pos hWord, List.flatMap_map]
    exact congrArg (fun letters => [letters]) (List.flatMap_singleton' word)

/-- A word of ordinary characters is written as it is. -/
theorem writes_ordinary {word : List Char} (hNonempty : word ≠ []) (hAll : word.all isOrdinary = true) :
    Writes word [word] := by
  have h := List.all_eq_true.mp hAll
  have hOwn := lexemes_of_apart (lexemes_ordinary h)
  refine ⟨?_, ?_, fun _ _ => expandPieces_ordinary h, ⟨word.head hNonempty, List.head?_eq_some_head hNonempty, ?_⟩,
    ⟨word.getLast hNonempty, List.getLast?_eq_some_getLast hNonempty, ?_⟩⟩
  · rw [hOwn]
    exact spells_ordinary hNonempty h
  · rw [hOwn]
    exact lexemes_ordinary h
  · exact (outside_of_ordinary (h _ (List.head_mem hNonempty))).1
  · exact (outside_of_ordinary (h _ (List.getLast_mem hNonempty))).1

end Line

end OptionShell
