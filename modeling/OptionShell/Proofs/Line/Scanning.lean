import OptionShell.Proofs.Line.Lexemes

/-!
# The splitter and the reader of words

A line is scanned twice, for its commands and for the words of a command, and inside double quotes the two take a
backslash differently: the splitter takes any character with it, and the reader only one that it protects. Both go
through the lexemes of the line all the same, so they open and close the same quotes.
-/
namespace OptionShell.Line

variable {own first rest : List Lexeme} {others : List (Connective × List Lexeme)}

/-! ## Commands -/

/-- The lexemes of a connective, except for the start of the line. -/
def Connective.mark : Connective → List Lexeme
  | always => [.bare ';']
  | onSuccess => [.bare '&', .bare '&']
  | onFailure => [.bare '|', .bare '|']

theorem cut_cons_bare {c : Char} {text : List Char} (hAlways : c ≠ ';')
    (hSuccess : ∀ tail, c = '&' → text = '&' :: tail → False)
    (hFailure : ∀ tail, c = '|' → text = '|' :: tail → False) :
    cut (.bare c :: lexemes none text) = (.bare c :: (cut (lexemes none text)).1, (cut (lexemes none text)).2) := by
  have hText : ∀ {d back}, lexemes none text = .bare d :: back → text = d :: source back := fun h => by
    rw [← source_lexemes none text, h]
    rfl
  refine cut.eq_5 _ _ (fun h => hAlways (Lexeme.bare.inj h)) (fun back h hRest => ?_) (fun back h hRest => ?_)
  · exact hSuccess _ (Lexeme.bare.inj h) (hText hRest)
  · exact hFailure _ (Lexeme.bare.inj h) (hText hRest)

namespace Splitter

variable {s : Splitter}

/-- What a splitter finds that has read `own` of the command it is in, and has `rest` before it. -/
def found (s : Splitter) (own rest : List Lexeme) : Except LineError (List Segment) :=
  (segmentsOf ((s.connective, own ++ (cut rest).1) :: (cut rest).2)).map (s.segments.toList ++ ·)

/-- A lexeme that is no part of a connective belongs to the command. -/
theorem found_push {lexeme : Lexeme} (h : cut (lexeme :: rest) = (lexeme :: (cut rest).1, (cut rest).2)) :
    found s own (lexeme :: rest) = found (s.push lexeme.source) (own ++ [lexeme]) rest := by
  rw [found, found, h, List.append_assoc]
  rfl

theorem source_push (hOwn : source own = s.current.toList) (lexeme : Lexeme) :
    source (own ++ [lexeme]) = (s.push lexeme.source).current.toList := by
  rw [source, List.flatMap_append, ← source, hOwn, List.flatMap_singleton, push, Array.toList_appendList]

/-- A command that is ended stands before those that follow the connective. -/
theorem finish_bind (next : Connective) (hOwn : source own = s.current.toList)
    {splitRest : Splitter → Except LineError (List Segment)}
    (hRest : ∀ after : Splitter, after.connective = next → source [] = after.current.toList →
      splitRest after = found after [] rest) :
    (s.finish next).bind splitRest = found s own (next.mark ++ rest) := by
  have hCut : cut (next.mark ++ rest) = startAt next (cut rest) := by cases next <;> rfl
  have hFound : ∀ segments, splitRest ⟨segments, next, #[]⟩ =
      (segmentsOf ((next, (cut rest).1) :: (cut rest).2)).map (segments.toList ++ ·) := fun segments => hRest _ rfl rfl
  rw [found, hCut, startAt, List.append_nil, segmentsOf, hOwn, finish]
  by_cases hBlank : (Text.trim s.current.toList).isEmpty = true
  · by_cases hNext : next = .always
    · subst hNext
      simp [hBlank, Except.bind, hFound]
    · simp [hBlank, hNext, Except.bind, Except.map]
  · simp only [hBlank, Bool.not_false, if_true, Except.bind, hFound]
    cases segmentsOf ((next, (cut rest).1) :: (cut rest).2) <;> simp [Except.map]

theorem finish_end (hOwn : source own = s.current.toList) :
    (s.finish .always).bind (fun after => .ok after.segments.toList) = found s own [] := by
  rw [found, cut, List.append_nil, segmentsOf, hOwn, finish]
  by_cases hBlank : (Text.trim s.current.toList).isEmpty = true <;> simp [hBlank, segmentsOf, Except.map, Except.bind]

/-- The splitter cuts the lexemes of the line. -/
theorem split_eq (quote : Option Quote) (s : Splitter) (text : List Char) (hOwn : source own = s.current.toList) :
    split quote s text = found s own (lexemes quote text) := by
  fun_induction split quote s text generalizing own with
  | case1 quote s =>
    have hNone : lexemes quote [] = [] := by cases quote <;> rfl
    rw [hNone]
    exact finish_end hOwn
  | case2 s rest ih => exact (ih (source_push hOwn (.closing .single))).trans (found_push rfl).symm
  | case3 s c rest hSingle ih =>
    rw [lexemes.eq_8 c rest hSingle]
    exact (ih (source_push hOwn (.quoted c))).trans (found_push rfl).symm
  | case4 s rest ih => exact (ih (source_push hOwn (.closing .double))).trans (found_push rfl).symm
  | case5 s c rest ih => exact (ih (source_push hOwn (.quotedEscape c))).trans (found_push rfl).symm
  | case6 s c rest hDouble hEscape ih =>
    by_cases hBackslash : c = '\\'
    · cases rest with
      | nil =>
        subst hBackslash
        exact (ih (source_push hOwn .quotedDangling)).trans (found_push rfl).symm
      | cons d rest => exact (hEscape d rest hBackslash rfl).elim
    · rw [lexemes.eq_12 c rest (fun h => absurd h hBackslash) (fun _ _ h => absurd h hBackslash) hDouble]
      exact (ih (source_push hOwn (.quoted c))).trans (found_push rfl).symm
  | case7 s rest ih => exact (ih (source_push hOwn (.opening .single))).trans (found_push rfl).symm
  | case8 s rest ih => exact (ih (source_push hOwn (.opening .double))).trans (found_push rfl).symm
  | case9 s c rest ih => exact (ih (source_push hOwn (.escaped c))).trans (found_push rfl).symm
  | case10 s rest ih => exact finish_bind .always hOwn fun after _ => ih after
  | case11 s rest ih => exact finish_bind .onSuccess hOwn fun after _ => ih after
  | case12 s rest ih => exact finish_bind .onFailure hOwn fun after _ => ih after
  | case13 s c rest hSingle hDouble hEscape hAlways hSuccess hFailure ih =>
    by_cases hBackslash : c = '\\'
    · cases rest with
      | nil =>
        subst hBackslash
        exact (ih (source_push hOwn .dangling)).trans (found_push rfl).symm
      | cons d rest => exact (hEscape d rest hBackslash rfl).elim
    · rw [lexemes.eq_6 c rest (fun h => absurd h hBackslash) (fun _ _ h => absurd h hBackslash) hSingle hDouble]
      exact (ih (source_push hOwn (.bare c))).trans (found_push (cut_cons_bare hAlways hSuccess hFailure)).symm

end Splitter

/-- The commands of a line are cut from its lexemes. -/
theorem segments_eq_segmentsAfter (line : List Char) : segments line = segmentsAfter .always line := by
  rw [segments, Splitter.split_eq none {} line (rfl : source [] = _), Splitter.found, List.nil_append, ← segmentsAfter]
  cases segmentsAfter .always line <;> rfl

/-! ## Words -/

namespace WordReader

variable {r : WordReader}

/-- A reader after one more lexeme. -/
def after (r : WordReader) (lexeme : Lexeme) : WordReader :=
  if lexeme.isBlank then r.endWord else ⟨r.words, r.letters ++ lexeme.letters, r.quoted || lexeme.isOpening⟩

/-- What a reader makes of the lexemes to the end, read from inside the given quotes. -/
def result (quote : Option Quote) (r : WordReader) (own : List Lexeme) : Except LineError (List (List Char)) :=
  match openQuote quote own with
  | some quote => .error quote.unterminated
  | none => .ok (own.foldl after r).endWord.words.toList

theorem result_cons (quote : Option Quote) (r : WordReader) (lexeme : Lexeme) (own : List Lexeme) :
    result quote r (lexeme :: own) = result (openQuote quote [lexeme]) (r.after lexeme) own := rfl

theorem after_letter {lexeme : Lexeme} {c : Char} (hLetters : lexeme.letters = [c]) (hBlank : lexeme.isBlank = false)
    (hOpening : lexeme.isOpening = false) : r.after lexeme = r.push c := by
  rw [after, hBlank, hLetters, hOpening, Bool.or_false]
  rfl

theorem after_mark {lexeme : Lexeme} (hLetters : lexeme.letters = []) (hBlank : lexeme.isBlank = false) :
    r.after lexeme = if lexeme.isOpening then r.opened else r := by
  rw [after, hBlank, hLetters, Array.appendList_nil]
  cases lexeme.isOpening with
  | false => rw [Bool.or_false]; rfl
  | true => rw [Bool.or_true]; rfl

/-- The reader goes through the lexemes of the command. -/
theorem read_eq (quote : Option Quote) (r : WordReader) (text : List Char) :
    read quote r text = result quote r (lexemes quote text) := by
  have hMark : ∀ {quote r own} (lexeme : Lexeme), lexeme.letters = [] → lexeme.isBlank = false →
      result quote r (lexeme :: own) =
        result (openQuote quote [lexeme]) (if lexeme.isOpening then r.opened else r) own :=
    fun lexeme hLetters hBlank => by rw [result_cons, after_mark hLetters hBlank]
  have hLetter : ∀ {quote r own} (lexeme : Lexeme) (c : Char), lexeme.letters = [c] → lexeme.isBlank = false →
      lexeme.isOpening = false →
      result quote r (lexeme :: own) = result (openQuote quote [lexeme]) (r.push c) own :=
    fun lexeme c hLetters hBlank hOpening => by rw [result_cons, after_letter hLetters hBlank hOpening]
  fun_induction read quote r text with
  | case1 r => rfl
  | case2 quote r => cases quote <;> rfl
  | case3 r rest ih => exact ih.trans (hMark (.closing .single) rfl rfl).symm
  | case4 r c rest hSingle ih =>
    rw [lexemes.eq_8 c rest hSingle]
    exact ih.trans (hLetter (.quoted c) c rfl rfl rfl).symm
  | case5 r rest ih => exact ih.trans (hMark (.closing .double) rfl rfl).symm
  | case6 r rest ih => exact ih.trans (hLetter (.quotedEscape '"') '"' rfl rfl rfl).symm
  | case7 r rest ih => exact ih.trans (hLetter (.quotedEscape '\\') '\\' rfl rfl rfl).symm
  | case8 r rest ih => exact ih.trans (hLetter (.quotedEscape '$') '$' rfl rfl rfl).symm
  | case9 r c rest hDouble hQuote hBackslash hDollar ih =>
    rw [ih]
    by_cases hc : c = '\\'
    · subst hc
      cases rest with
      | nil => rfl
      | cons d rest =>
        -- Here the reader takes the backslash alone, and the splitter takes the next character with it.
        have hd : d ≠ '"' ∧ d ≠ '\\' ∧ d ≠ '$' :=
          ⟨fun h => hQuote rest rfl (h ▸ rfl), fun h => hBackslash rest rfl (h ▸ rfl),
            fun h => hDollar rest rfl (h ▸ rfl)⟩
        have hLetters : (Lexeme.quotedEscape d).letters = ['\\', d] := by simp [Lexeme.letters, hd]
        rw [lexemes.eq_12 d rest (fun h => absurd h hd.2.1) (fun _ _ h => absurd h hd.2.1) hd.1,
          hLetter (.quoted d) d rfl rfl rfl]
        change _ = result (some .double) r (.quotedEscape d :: lexemes (some .double) rest)
        rw [result_cons, after, hLetters]
        simp [push, openQuote, Lexeme.isBlank, Lexeme.isOpening]
    · rw [lexemes.eq_12 c rest (fun h => absurd h hc) (fun _ _ h => absurd h hc) hDouble]
      exact (hLetter (.quoted c) c rfl rfl rfl).symm
  | case10 r rest ih => exact ih.trans (hMark (.opening .single) rfl rfl).symm
  | case11 r rest ih => exact ih.trans (hMark (.opening .double) rfl rfl).symm
  | case12 r => exact (@hMark none r [] .dangling rfl rfl).symm
  | case13 r c rest ih => exact ih.trans (hLetter (.escaped c) c rfl rfl rfl).symm
  | case14 r c rest hSingle hDouble hEnd hEscape ih =>
    have hc : c ≠ '\\' := by
      intro hc
      cases rest with
      | nil => exact hEnd hc rfl
      | cons d rest => exact hEscape d rest hc rfl
    rw [ih, lexemes.eq_6 c rest (fun h => absurd h hc) (fun _ _ h => absurd h hc) hSingle hDouble, result_cons]
    congr 1
    cases hBlank : Text.isBlank c with
    | true => exact (if_pos hBlank).symm
    | false => exact (@after_letter r (.bare c) c rfl hBlank rfl).symm

/-- A reader with the lexemes `word` behind the last blank, of which none is a blank. -/
structure Holds (r : WordReader) (word : List Lexeme) : Prop where
  letters : r.letters.toList = word.flatMap Lexeme.letters
  quoted : r.quoted = word.any Lexeme.isOpening
  unblank : ∀ lexeme ∈ word, lexeme.isBlank = false

theorem Holds.endWord_words {word : List Lexeme} (h : r.Holds word) :
    r.endWord.words.toList = r.words.toList ++ wordsOf word := by
  rw [wordsOf_of_unblank h.unblank, isWord_eq, endWord, ← h.letters, ← h.quoted, Array.isEmpty_toList]
  split
  · exact Array.toList_push
  · exact (List.append_nil _).symm

theorem holds_endWord (r : WordReader) : r.endWord.Holds [] := by
  rw [endWord]
  split
  · exact ⟨rfl, rfl, nofun⟩
  · rename_i hNone
    obtain ⟨hLetters, hQuoted⟩ := Bool.or_eq_false_iff.mp (Bool.not_eq_true _ ▸ hNone)
    rw [Bool.not_eq_false'] at hLetters
    exact ⟨Array.toList_eq_nil_iff.mpr (Array.isEmpty_iff.mp hLetters), hQuoted, nofun⟩

theorem Holds.words_foldl {word : List Lexeme} (h : r.Holds word) (own : List Lexeme) :
    (own.foldl after r).endWord.words.toList = r.words.toList ++ wordsOf (word ++ own) := by
  induction own generalizing r word with
  | nil => rw [List.append_nil]; exact h.endWord_words
  | cons lexeme own ih =>
    rw [List.foldl_cons]
    cases hBlank : lexeme.isBlank with
    | true =>
      rw [after, if_pos hBlank, ih r.holds_endWord, h.endWord_words, wordsOf_append_of_isBlank hBlank,
        List.append_assoc, List.nil_append]
    | false =>
      have hNext : (r.after lexeme).Holds (word ++ [lexeme]) := by
        rw [after, if_neg (by rw [hBlank]; decide)]
        refine ⟨?_, ?_, ?_⟩
        · rw [Array.toList_appendList, h.letters, List.flatMap_append, List.flatMap_singleton]
        · simp [h.quoted]
        · exact List.forall_mem_append.mpr ⟨h.unblank, List.forall_mem_singleton.mpr hBlank⟩
      rw [ih hNext, List.append_assoc]
      rw [after, hBlank]
      rfl

end WordReader

/-- The words of a command are between the blanks among its lexemes. -/
theorem words_eq_wordsOf (command : List Char) :
    words command = match openQuote none (lexemes none command) with
      | some quote => .error quote.unterminated
      | none => .ok (wordsOf (lexemes none command)) := by
  rw [words, WordReader.read_eq, WordReader.result]
  have hNone : ({} : WordReader).Holds [] := ⟨rfl, rfl, nofun⟩
  rw [hNone.words_foldl]
  rfl

end OptionShell.Line
