import Mathlib.Data.List.Induction
import Mathlib.Data.List.TakeWhile
import OptionShell.Proofs.Line.Cutting

/-!
# Blanks at the ends of a line

A line is read without the blanks at its ends. Trimming makes no connectives and no open quotes, and takes no words
away. But it does not look for backslashes: a blank that one of them protects is trimmed too if nothing but blanks
follows it, and then the last word is one character shorter.
-/
namespace OptionShell

namespace Text

theorem exists_blanks_trimEnd (text : List Char) :
    ∃ tail, text = trimEnd text ++ tail ∧ ∀ c ∈ tail, isBlank c = true := by
  refine ⟨(text.reverse.takeWhile isBlank).reverse, ?_,
    fun c hc => List.mem_takeWhile_imp (List.mem_reverse.mp hc)⟩
  rw [trimEnd, ← List.reverse_append, List.takeWhile_append_dropWhile, List.reverse_reverse]

theorem exists_blanks_trim (text : List Char) : ∃ lead tail, text = lead ++ (trim text ++ tail) ∧
    (∀ c ∈ lead, isBlank c = true) ∧ ∀ c ∈ tail, isBlank c = true := by
  obtain ⟨tail, hTail, hBlank⟩ := exists_blanks_trimEnd (trimStart text)
  refine ⟨text.takeWhile isBlank, tail, ?_, fun c hc => List.mem_takeWhile_imp hc, hBlank⟩
  rw [trim, ← hTail, trimStart, List.takeWhile_append_dropWhile]

theorem isBlank_of_getLast?_trim {text : List Char} {c : Char} (h : (trim text).getLast? = some c) :
    isBlank c = false := by
  rw [trim, trimEnd, List.getLast?_reverse] at h
  have hHead := List.head?_dropWhile_not isBlank (trimStart text).reverse
  rw [h] at hHead
  exact hHead

theorem trim_trim (text : List Char) : trim (trim text) = trim text := by
  cases hFirst : (trim text).head? with
  | none =>
    rw [List.head?_eq_none_iff.mp hFirst]
    rfl
  | some first =>
    have hBlank : isBlank first = false := by
      obtain ⟨tail, hTail, -⟩ := exists_blanks_trimEnd (trimStart text)
      have hStart := List.head?_dropWhile_not isBlank text
      rwa [← trimStart, hTail, ← trim, List.head?_append, hFirst] at hStart
    have hNonempty : trim text ≠ [] := fun hNone => by
      rw [hNone] at hFirst
      cases hFirst
    have hLast := List.getLast?_eq_some_getLast hNonempty
    have hTrim := trim_append ⟨first, hFirst, hBlank⟩ ⟨_, hLast, isBlank_of_getLast?_trim hLast⟩ []
    rw [List.append_nil] at hTrim
    exact hTrim.trans (List.append_nil _)

theorem trim_concat {c : Char} (hc : isBlank c = true) (text : List Char) : trim (text ++ [c]) = trim text := by
  have hEnd : ∀ front, trimEnd (front ++ [c]) = trimEnd front := fun front => by
    rw [trimEnd, List.reverse_append, List.reverse_singleton, List.singleton_append, List.dropWhile_cons_of_pos hc]
    rfl
  rw [trim, trimStart, List.dropWhile_append]
  split
  · rename_i hNone
    rw [List.dropWhile_cons_of_pos hc, trim, trimStart, List.isEmpty_iff.mp hNone]
    rfl
  · exact hEnd (trimStart text)

end Text

namespace Line

variable {start : Option Quote} {line text : List Char} {own front back : List Lexeme} {c : Char}

/-! ## Texts one after the other -/

/-- Lexemes before which no backslash dangles are read alike if the text goes on. -/
theorem lexemes_append {front : List Lexeme} (h : lexemes start text = front ++ back)
    (hFront : ∀ lexeme ∈ front, lexeme.isDangling = false) (rest : List Char) :
    lexemes start (text ++ rest) = front ++ lexemes (openQuote start front) (source back ++ rest) := by
  induction front generalizing start text with
  | nil =>
    rw [← source_lexemes start text, h]
    rfl
  | cons lexeme front ih =>
    obtain ⟨first, tail, rfl, hEnd, hRead⟩ := exists_first_lexeme start (ne_nil_of_lexemes_eq_cons h)
    rw [hRead tail hEnd] at h
    obtain ⟨rfl, hTail⟩ := List.cons.inj h
    obtain ⟨hFirst, hOthers⟩ := List.forall_mem_cons.mp hFront
    rw [List.append_assoc, hRead _ (by rw [hFirst]; nofun), ih hTail hOthers]
    rfl

theorem exists_dangling_end (start : Option Quote) (text : List Char) :
    ∃ front back, lexemes start text = front ++ back ∧ (∀ lexeme ∈ front, lexeme.isDangling = false) ∧
      (back = [] ∨ ∃ last, back = [last] ∧ last.isDangling = true) := by
  generalize hOwn : lexemes start text = own
  induction own generalizing start text with
  | nil => exact ⟨[], [], rfl, nofun, .inl rfl⟩
  | cons lexeme own ih =>
    obtain ⟨first, tail, rfl, hEnd, hRead⟩ := exists_first_lexeme start (ne_nil_of_lexemes_eq_cons hOwn)
    rw [hRead tail hEnd] at hOwn
    obtain ⟨rfl, hTail⟩ := List.cons.inj hOwn
    cases hDangling : first.isDangling with
    | false =>
      obtain ⟨front, back, rfl, hFront, hBack⟩ := ih _ _ hTail
      exact ⟨first :: front, back, rfl, List.forall_mem_cons.mpr ⟨hDangling, hFront⟩, hBack⟩
    | true =>
      rw [hEnd hDangling, lexemes] at hTail
      exact ⟨[], [first], by rw [← hTail]; rfl, nofun, .inr ⟨first, rfl, hDangling⟩⟩

/-- What dangles outside quotes is a single backslash. -/
theorem eq_dangling_of_openAfter {front : List Lexeme} {last : Lexeme} (h : openAfter text = none)
    (hText : lexemes none text = front ++ [last]) (hLast : last.isDangling = true) :
    openQuote none front = none ∧ last = .dangling := by
  have hRead := (lexemes_source_of_append front hText).2
  have hSame : openQuote (openQuote none front) [last] = openQuote none front := by
    cases last <;> first | rfl | cases hLast
  rw [openAfter, hText, openQuote_append, hSame] at h
  rw [h] at hRead
  refine ⟨h, ?_⟩
  cases last <;> first | rfl | cases hLast
  cases hRead

theorem lexemes_of_blanks (h : ∀ c ∈ text, Text.isBlank c = true) (rest : List Char) :
    lexemes none (text ++ rest) = text.map .bare ++ lexemes none rest := by
  induction text with
  | nil => rfl
  | cons c text ih =>
    obtain ⟨hc, hText⟩ := List.forall_mem_cons.mp h
    rw [List.cons_append, lexemes_cons_of_isBlank hc, ih hText]
    rfl

theorem lexemes_blanks (h : ∀ c ∈ text, Text.isBlank c = true) : lexemes none text = text.map .bare := by
  have hAll := lexemes_of_blanks h []
  rwa [List.append_nil, lexemes, List.append_nil] at hAll

/-! ## Lines that are not cut -/

/-- No connective stands among the lexemes. -/
def Undivided (own : List Lexeme) : Prop := ∀ connective : Connective, ¬connective.mark <:+: own

theorem not_mark_prefix_cons {lexeme : Lexeme} {rest : List Lexeme} (hStart : lexeme ≠ .bare ';')
    (hAnd : ∀ back, lexeme = .bare '&' → rest ≠ .bare '&' :: back)
    (hOr : ∀ back, lexeme = .bare '|' → rest ≠ .bare '|' :: back) (connective : Connective) :
    ¬connective.mark <+: lexeme :: rest := by
  rintro ⟨back, hBack⟩
  cases connective with
  | always => exact hStart (List.cons.inj hBack).1.symm
  | onSuccess =>
    obtain ⟨hSame, hRest⟩ := List.cons.inj hBack
    exact hAnd _ hSame.symm hRest.symm
  | onFailure =>
    obtain ⟨hSame, hRest⟩ := List.cons.inj hBack
    exact hOr _ hSame.symm hRest.symm

theorem cut_eq_iff : cut own = (own, []) ↔ Undivided own := by
  fun_induction cut own with
  | case1 => exact iff_of_true rfl fun connective h => by cases connective <;> cases List.infix_nil.mp h
  | case2 rest => exact iff_of_false (by simp [startAt]) fun h => h .always ⟨[], rest, rfl⟩
  | case3 rest => exact iff_of_false (by simp [startAt]) fun h => h .onSuccess ⟨[], rest, rfl⟩
  | case4 rest => exact iff_of_false (by simp [startAt]) fun h => h .onFailure ⟨[], rest, rfl⟩
  | case5 lexeme rest hStart hAnd hOr first others hCut ih =>
    have hPrefix := not_mark_prefix_cons hStart hAnd hOr
    have hSplit : Undivided (lexeme :: rest) ↔ Undivided rest :=
      forall_congr' fun connective => by rw [List.infix_cons_iff, or_iff_right (hPrefix connective)]
    rw [hSplit, ← ih, hCut]
    simp

/-- A lexeme that is in no connective ends none. -/
theorem undivided_concat {last : Lexeme} (hLast : ∀ connective : Connective, last ∉ connective.mark) :
    Undivided (own ++ [last]) ↔ Undivided own := by
  refine forall_congr' fun connective => not_congr ?_
  rw [List.infix_concat_iff, or_iff_right]
  rintro ⟨before, hBefore⟩
  have hEnd : (before ++ connective.mark).getLast? = some last := by rw [hBefore, List.getLast?_concat]
  rw [List.getLast?_append, Option.or_of_isSome (by cases connective <;> rfl)] at hEnd
  exact hLast connective (List.mem_of_getLast? hEnd)

theorem undivided_trim (h : Undivided (lexemes none line)) : Undivided (lexemes none (Text.trim line)) := by
  obtain ⟨lead, tail, hLine, hLead, -⟩ := Text.exists_blanks_trim line
  rw [hLine, lexemes_of_blanks hLead] at h
  generalize Text.trim line = text at hLine h
  obtain ⟨front, back, hText, hFront, hBack⟩ := exists_dangling_end none text
  rw [lexemes_append hText hFront tail] at h
  have hUndivided : Undivided front := fun connective hMark =>
    h connective ((hMark.trans (List.prefix_append _ _).isInfix).trans (List.suffix_append _ _).isInfix)
  rw [hText]
  obtain rfl | ⟨last, rfl, hLast⟩ := hBack
  · rwa [List.append_nil]
  · -- A connective does not end in a backslash.
    refine (undivided_concat fun connective hMark => ?_).mpr hUndivided
    cases connective <;> simp [Connective.mark] at hMark <;> subst hMark <;> cases hLast

/-- A line without connectives is one command: what is left of it without the blanks at its ends. -/
theorem segments_trim (h : Undivided (lexemes none line)) (hLine : Text.trim line ≠ []) :
    segments (Text.trim line) = .ok [⟨.always, Text.trim line⟩] := by
  rw [segments_eq_segmentsAfter, segmentsAfter, cut_eq_iff.mpr (undivided_trim h), segmentsOf, source_lexemes,
    Text.trim_trim, List.isEmpty_eq_false_iff.mpr hLine]
  rfl

/-! ## Parts of a line -/

theorem trim_sublist (text : List Char) : (Text.trim text).Sublist text := by
  obtain ⟨lead, tail, hText, -, -⟩ := Text.exists_blanks_trim text
  conv_rhs => rw [hText]
  exact (List.sublist_append_left _ tail).trans (List.sublist_append_right lead _)

theorem source_sublist_of_mem_cut {command : Connective × List Lexeme} {connective : Connective}
    (h : command ∈ (connective, (cut own).1) :: (cut own).2) : (source command.2).Sublist (source own) := by
  have hOwn := uncut_cut own
  obtain rfl | hLater := List.mem_cons.mp h
  · conv_rhs => rw [← hOwn, uncut, source, List.flatMap_append]
    exact List.sublist_append_left _ _
  · obtain ⟨front, back, hSplit⟩ := List.append_of_mem hLater
    conv_rhs => rw [← hOwn, uncut, hSplit]
    simp only [source, List.flatMap_append, List.flatMap_cons, List.append_assoc]
    refine .trans ?_ (List.sublist_append_right _ _)
    refine .trans ?_ (List.sublist_append_right _ _)
    exact .trans (List.sublist_append_left _ _) (List.sublist_append_right _ _)

/-! ## The last blank -/

def Lexeme.isProtectedBlank : Lexeme → Bool
  | .escaped c => Text.isBlank c
  | _ => false

/-- Whether nothing but blanks follows a blank that a backslash protects. -/
def endsProtected (own : List Lexeme) : Bool :=
  (own.reverse.dropWhile Lexeme.isBlank).head?.any Lexeme.isProtectedBlank

theorem dropWhile_blanks (h : ∀ c ∈ text, Text.isBlank c = true) :
    (text.map Lexeme.bare).reverse.dropWhile Lexeme.isBlank = [] := by
  rw [List.dropWhile_eq_nil_iff]
  intro lexeme hLexeme
  obtain ⟨c, hc, rfl⟩ := List.mem_map.mp (List.mem_reverse.mp hLexeme)
  exact h c hc

theorem endsProtected_append_blanks (own : List Lexeme) (h : ∀ c ∈ text, Text.isBlank c = true) :
    endsProtected (own ++ text.map .bare) = endsProtected own := by
  rw [endsProtected, List.reverse_append, List.dropWhile_append, dropWhile_blanks h]
  rfl

theorem endsProtected_blanks_append (h : ∀ c ∈ text, Text.isBlank c = true) (own : List Lexeme) :
    endsProtected (text.map .bare ++ own) = endsProtected own := by
  rw [endsProtected, List.reverse_append, List.dropWhile_append, dropWhile_blanks h]
  cases hOwn : own.reverse.dropWhile Lexeme.isBlank with
  | nil =>
    rw [endsProtected, hOwn]
    rfl
  | cons last rest =>
    rw [endsProtected, hOwn]
    rfl

theorem endsProtected_concat {lexeme : Lexeme} (h : lexeme.isBlank = false) (own : List Lexeme) :
    endsProtected (own ++ [lexeme]) = lexeme.isProtectedBlank := by
  rw [endsProtected, List.reverse_append, List.reverse_singleton, List.singleton_append,
    List.dropWhile_cons_of_neg (by rw [h]; decide)]
  rfl

theorem endsProtected_eq_false (h : ∀ c, text.getLast? = some c → Text.isBlank c = false) :
    endsProtected (lexemes none text) = false := by
  rw [← source_lexemes none text] at h
  obtain hNone | ⟨own, last, hOwn⟩ := List.eq_nil_or_concat (lexemes none text)
  · rw [hNone]
    rfl
  · rw [hOwn, source, List.concat_eq_append, List.flatMap_append, List.flatMap_singleton, List.getLast?_append] at h
    rw [hOwn, List.concat_eq_append]
    cases last with
    | bare c => exact @endsProtected_concat (.bare c) (h c rfl) own
    | escaped c => exact (endsProtected_concat rfl own).trans (h c rfl)
    | _ => exact endsProtected_concat rfl own

/-! ## Words -/

theorem wordsOf_blanks_append (h : ∀ c ∈ text, Text.isBlank c = true) (own : List Lexeme) :
    wordsOf (text.map .bare ++ own) = wordsOf own := by
  induction text with
  | nil => rfl
  | cons c text ih =>
    obtain ⟨hc, hText⟩ := List.forall_mem_cons.mp h
    exact (@wordsOf_append_of_isBlank (.bare c) hc [] _).trans (ih hText)

theorem wordsOf_append_blanks (own : List Lexeme) (h : ∀ c ∈ text, Text.isBlank c = true) :
    wordsOf (own ++ text.map .bare) = wordsOf own := by
  cases text with
  | nil => rw [List.map_nil, List.append_nil]
  | cons c text =>
    obtain ⟨hc, hText⟩ := List.forall_mem_cons.mp h
    have hNone : wordsOf (text.map .bare ++ []) = wordsOf [] := wordsOf_blanks_append hText []
    rw [List.append_nil] at hNone
    rw [List.map_cons, @wordsOf_append_of_isBlank (.bare c) hc, hNone]
    exact List.append_nil _

/-- Only the lexemes after the last blank are in one word with what is put behind them. -/
theorem exists_last_word (own : List Lexeme) : ∃ front word, (∀ lexeme ∈ word, lexeme.isBlank = false) ∧
    ∀ back, wordsOf (own ++ back) = front ++ wordsOf (word ++ back) := by
  induction own using List.reverseRecOn with
  | nil => exact ⟨[], [], nofun, fun _ => rfl⟩
  | append_singleton own lexeme ih =>
    cases hBlank : lexeme.isBlank with
    | true =>
      refine ⟨wordsOf own, [], nofun, fun back => ?_⟩
      rw [List.append_assoc, List.singleton_append, wordsOf_append_of_isBlank hBlank, List.nil_append]
    | false =>
      obtain ⟨front, word, hWord, hOwn⟩ := ih
      refine ⟨front, word ++ [lexeme], ?_, fun back => ?_⟩
      · exact List.forall_mem_append.mpr ⟨hWord, List.forall_mem_singleton.mpr hBlank⟩
      · rw [List.append_assoc, hOwn, List.append_assoc]

/-- Only the last word changes if a protected blank at the end of a line is replaced by nothing. -/
theorem wordsOf_dangling (own : List Lexeme) (c : Char) : ∃ front last,
    wordsOf (own ++ [.escaped c]) = front ++ [last ++ [c]] ∧
      (wordsOf (own ++ [.dangling]) = front ++ [last] ∨ last = [] ∧ wordsOf (own ++ [.dangling]) = front) := by
  obtain ⟨front, word, hWord, hOwn⟩ := exists_last_word own
  have hUnblank : ∀ last : Lexeme, last.isBlank = false → ∀ lexeme ∈ word ++ [last], lexeme.isBlank = false :=
    fun last hLast => List.forall_mem_append.mpr ⟨hWord, List.forall_mem_singleton.mpr hLast⟩
  have hLetters : ∀ last : Lexeme,
      (word ++ [last]).flatMap Lexeme.letters = word.flatMap Lexeme.letters ++ last.letters :=
    fun last => by rw [List.flatMap_append, List.flatMap_singleton]
  refine ⟨front, word.flatMap Lexeme.letters, ?_, ?_⟩
  · have hIsWord : isWord (word ++ [.escaped c]) = true := by simp [isWord, Lexeme.letters]
    rw [hOwn, wordsOf_of_unblank (hUnblank _ rfl), if_pos hIsWord, hLetters]
    rfl
  · rw [hOwn, wordsOf_of_unblank (hUnblank _ rfl), hLetters, Lexeme.letters, List.append_nil]
    split
    · exact .inl rfl
    · rename_i hIsWord
      have hNone := List.any_eq_false.mp (Bool.eq_false_iff.mpr hIsWord)
      refine .inr ⟨List.flatMap_eq_nil_iff.mpr fun lexeme hLexeme => ?_, List.append_nil front⟩
      have hLexeme := hNone lexeme (List.mem_append_left _ hLexeme)
      rw [Bool.not_eq_true, Bool.or_eq_false_iff, Bool.not_eq_false'] at hLexeme
      exact List.isEmpty_iff.mp hLexeme.1

/-- The last word without its last character, which is lost if it was all of the word. -/
def EndsShorter (ws shorter : List (List Char)) : Prop :=
  ∃ front last c, ws = front ++ [last ++ [c]] ∧ (shorter = front ++ [last] ∨ last = [] ∧ shorter = front)

theorem EndsShorter.ne {ws shorter : List (List Char)} (h : EndsShorter ws shorter) : shorter ≠ ws := by
  obtain ⟨front, last, c, rfl, hShorter⟩ := h
  intro hSame
  have hLength := congrArg (fun words => words.flatten.length) hSame
  obtain rfl | ⟨rfl, rfl⟩ := hShorter <;> simp at hLength

/-- The words of a line without the blanks at its ends are those of the line, unless it ends in a protected blank. -/
theorem words_trim (h : openAfter line = none) :
    words (Text.trim line) = .ok (wordsOf (lexemes none (Text.trim line))) ∧
    (endsProtected (lexemes none line) = false →
      wordsOf (lexemes none (Text.trim line)) = wordsOf (lexemes none line)) ∧
    (endsProtected (lexemes none line) = true →
      EndsShorter (wordsOf (lexemes none line)) (wordsOf (lexemes none (Text.trim line)))) := by
  have hTrim : openAfter (Text.trim line) = none := (openAfter_trim line).trans h
  obtain ⟨lead, tail, hLine, hLead, hTail⟩ := Text.exists_blanks_trim line
  have hEnd : endsProtected (lexemes none (Text.trim line)) = false :=
    endsProtected_eq_false fun c hc => Text.isBlank_of_getLast?_trim hc
  refine ⟨by rw [words_eq, hTrim], ?_⟩
  generalize Text.trim line = text at hTrim hLine hEnd
  rw [hLine, lexemes_of_blanks hLead, wordsOf_blanks_append hLead, endsProtected_blanks_append hLead]
  obtain ⟨front, back, hText, hFront, rfl | ⟨last, rfl, hLast⟩⟩ := exists_dangling_end none text
  · have hLexemes := lexemes_append hText hFront tail
    rw [List.append_nil] at hText
    rw [← hText, ← openAfter, hTrim, source, List.flatMap_nil, List.nil_append, lexemes_blanks hTail] at hLexemes
    rw [hLexemes, wordsOf_append_blanks _ hTail, endsProtected_append_blanks _ hTail, hEnd]
    exact ⟨fun _ => rfl, fun h => absurd h Bool.false_ne_true⟩
  · obtain ⟨hOpen, rfl⟩ := eq_dangling_of_openAfter hTrim hText hLast
    have hLexemes := lexemes_append hText hFront tail
    rw [hOpen] at hLexemes
    cases tail with
    | nil =>
      rw [List.append_nil, hEnd]
      exact ⟨fun _ => rfl, fun h => absurd h Bool.false_ne_true⟩
    | cons c tail =>
      obtain ⟨hc, hRest⟩ := List.forall_mem_cons.mp hTail
      -- The backslash that dangles in the trimmed text protects the first blank after it in the line.
      have hLine : lexemes none (text ++ c :: tail) = (front ++ [.escaped c]) ++ tail.map .bare := by
        rw [hLexemes, List.append_assoc, List.singleton_append, ← lexemes_blanks hRest]
        rfl
      rw [hLine, hText, wordsOf_append_blanks _ hRest, endsProtected_append_blanks _ hRest, endsProtected_concat rfl]
      refine ⟨fun hProtected => absurd (hProtected.symm.trans hc) (by decide), fun _ => ?_⟩
      obtain ⟨others, word, hWords, hShorter⟩ := wordsOf_dangling front c
      exact ⟨others, word, c, hWords, hShorter⟩

end Line
end OptionShell
