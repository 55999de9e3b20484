import OptionShell.Proofs.Line.Quoting

/-!
# Commands and open quotes

A line is cut into commands only at connectives outside quotes and escapes. So each command but the last closes its
quotes, and the last one leaves those open that the line leaves open. The blanks that are trimmed from a command have
no part in this, not even one that a backslash protects.
-/
namespace OptionShell.Line

variable {start final : Option Quote} {line : List Char} {own back : List Lexeme} {c : Char}

/-! ## One lexeme after the other -/

/-- A backslash that protects nothing, since the line ends after it. -/
def Lexeme.isDangling : Lexeme → Bool
  | .dangling | .quotedDangling => true
  | _ => false

theorem openQuote_cons (start : Option Quote) (lexeme : Lexeme) (own : List Lexeme) :
    openQuote start (lexeme :: own) = openQuote (openQuote start [lexeme]) own := rfl

theorem source_cons (lexeme : Lexeme) (own : List Lexeme) : source (lexeme :: own) = lexeme.source ++ source own :=
  List.flatMap_cons

/-- The first lexeme of a line is read alike before any text, unless it is a dangling backslash. -/
theorem exists_first_lexeme (start : Option Quote) (h : line ≠ []) :
    ∃ lexeme rest, line = lexeme.source ++ rest ∧ (lexeme.isDangling = true → rest = []) ∧
      ∀ other, (lexeme.isDangling = true → other = []) →
        lexemes start (lexeme.source ++ other) = lexeme :: lexemes (openQuote start [lexeme]) other := by
  have hWhole : ∀ {rest : List Char}, false = true → rest = [] := fun h => absurd h Bool.false_ne_true
  fun_cases lexemes start line with
  | case1 => exact absurd rfl h
  | case2 => exact ⟨.dangling, [], rfl, fun _ => rfl, fun other hOther => hOther rfl ▸ rfl⟩
  | case3 c rest => exact ⟨.escaped c, rest, rfl, hWhole, fun other _ => rfl⟩
  | case4 rest => exact ⟨.opening .single, rest, rfl, hWhole, fun other _ => rfl⟩
  | case5 rest => exact ⟨.opening .double, rest, rfl, hWhole, fun other _ => rfl⟩
  | case6 c rest hEnd hEscape hSingle hDouble =>
    have hBackslash : c ≠ '\\' := by
      intro hc
      cases rest with
      | nil => exact hEnd hc rfl
      | cons d rest => exact hEscape d rest hc rfl
    refine ⟨.bare c, rest, rfl, hWhole, fun other _ => ?_⟩
    change lexemes none (c :: other) = .bare c :: lexemes none other
    rw [lexemes] <;> simp_all
  | case7 rest => exact ⟨.closing .single, rest, rfl, hWhole, fun other _ => rfl⟩
  | case8 c rest hSingle => exact ⟨.quoted c, rest, rfl, hWhole, fun other _ => lexemes.eq_8 c other hSingle⟩
  | case9 => exact ⟨.quotedDangling, [], rfl, fun _ => rfl, fun other hOther => hOther rfl ▸ rfl⟩
  | case10 c rest => exact ⟨.quotedEscape c, rest, rfl, hWhole, fun other _ => rfl⟩
  | case11 rest => exact ⟨.closing .double, rest, rfl, hWhole, fun other _ => rfl⟩
  | case12 c rest hEnd hEscape hDouble =>
    have hBackslash : c ≠ '\\' := by
      intro hc
      cases rest with
      | nil => exact hEnd hc rfl
      | cons d rest => exact hEscape d rest hc rfl
    refine ⟨.quoted c, rest, rfl, hWhole, fun other _ => ?_⟩
    change lexemes (some .double) (c :: other) = .quoted c :: lexemes (some .double) other
    rw [lexemes] <;> simp_all

theorem ne_nil_of_lexemes_eq_cons {lexeme : Lexeme} (h : lexemes start line = lexeme :: own) : line ≠ [] := by
  rintro rfl
  rw [lexemes] at h
  cases h

/-- The lexemes of a line, cut in two, are those of the two texts that they come from. -/
theorem lexemes_source_of_append (front : List Lexeme) (h : lexemes start line = front ++ back) :
    lexemes start (source front) = front ∧ lexemes (openQuote start front) (source back) = back := by
  induction front generalizing start line with
  | nil =>
    rw [List.nil_append] at h
    refine ⟨by cases start <;> rfl, ?_⟩
    rw [← h]
    exact congrArg (lexemes start) (source_lexemes start line)
  | cons lexeme front ih =>
    obtain ⟨first, rest, rfl, hEnd, hFirst⟩ := exists_first_lexeme start (ne_nil_of_lexemes_eq_cons h)
    rw [hFirst rest hEnd, List.cons_append] at h
    obtain ⟨rfl, hRest⟩ := List.cons.inj h
    obtain ⟨hFront, hBack⟩ := ih hRest
    refine ⟨?_, hBack⟩
    rw [source_cons, hFirst, hFront]
    intro hDangling
    rw [hEnd hDangling, lexemes] at hRest
    rw [(List.append_eq_nil_iff.mp hRest.symm).1]
    rfl

theorem eq_none_of_lexemes_eq_bare_cons (h : lexemes start line = .bare c :: back) : start = none := by
  fun_induction lexemes start line
  all_goals first | rfl | cases h

/-! ## Blanks at the ends -/

theorem ne_of_isBlank {d : Char} (hc : Text.isBlank c = true) (hd : Text.isBlank d = false) : c ≠ d := by
  rintro rfl
  rw [hc] at hd
  cases hd

theorem lexemes_cons_of_isBlank (hc : Text.isBlank c = true) (rest : List Char) :
    lexemes none (c :: rest) = .bare c :: lexemes none rest := by
  have hBackslash : c ≠ '\\' := ne_of_isBlank hc (by decide)
  have hSingle : c ≠ '\'' := ne_of_isBlank hc (by decide)
  have hDouble : c ≠ '"' := ne_of_isBlank hc (by decide)
  rw [lexemes] <;> simp [hBackslash, hSingle, hDouble]

theorem openQuote_lexemes_blank (hc : Text.isBlank c = true) (start : Option Quote) :
    openQuote start (lexemes start [c]) = start := by
  have hBackslash : c ≠ '\\' := ne_of_isBlank hc (by decide)
  match start with
  | none =>
    rw [lexemes_cons_of_isBlank hc]
    rfl
  | some .single =>
    rw [lexemes.eq_8 c [] (ne_of_isBlank hc (by decide))]
    rfl
  | some .double =>
    rw [lexemes.eq_12 c [] (fun h => absurd h hBackslash) (fun _ _ h => absurd h hBackslash)
      (ne_of_isBlank hc (by decide))]
    rfl

/-- A blank at the end of a line opens and closes no quotes. -/
theorem openQuote_lexemes_concat (hc : Text.isBlank c = true) (start : Option Quote) (line : List Char) :
    openQuote start (lexemes start (line ++ [c])) = openQuote start (lexemes start line) := by
  generalize hOwn : lexemes start line = own
  induction own generalizing start line with
  | nil =>
    rw [← source_lexemes start line, hOwn]
    exact openQuote_lexemes_blank hc start
  | cons first own ih =>
    obtain ⟨lexeme, rest, rfl, hEnd, hRead⟩ := exists_first_lexeme start (ne_nil_of_lexemes_eq_cons hOwn)
    rw [hRead rest hEnd] at hOwn
    obtain ⟨rfl, hRest⟩ := List.cons.inj hOwn
    cases hDangling : lexeme.isDangling with
    | false =>
      rw [List.append_assoc, hRead _ (by rw [hDangling]; nofun), openQuote_cons, openQuote_cons _ _ own]
      exact ih _ rest hRest
    | true =>
      -- The backslash protects the blank, and opens and closes nothing either way.
      have hBefore : openQuote start [lexeme] = start ∧ lexeme.source = ['\\'] := by
        cases lexeme <;> first | exact ⟨rfl, rfl⟩ | cases hDangling
      have hAfter : openQuote start (lexemes start ['\\', c]) = start := by
        match start with
        | none | some .double => rfl
        | some .single => exact openQuote_lexemes_blank hc (some .single)
      rw [← hRest, hEnd hDangling, hBefore.2, hBefore.1, openQuote_cons, hBefore.1]
      exact hAfter.trans (by cases start <;> rfl)

/-- The quotes that a text opens and does not close. -/
def openAfter (text : List Char) : Option Quote := openQuote none (lexemes none text)

theorem openAfter_trimStart (text : List Char) : openAfter (Text.trimStart text) = openAfter text := by
  induction text with
  | nil => rfl
  | cons c text ih =>
    rw [Text.trimStart, List.dropWhile_cons]
    split
    · rename_i hc
      rw [openAfter, openAfter, lexemes_cons_of_isBlank hc, openQuote_cons]
      exact ih
    · rfl

theorem openAfter_trimEnd (text : List Char) : openAfter (Text.trimEnd text) = openAfter text := by
  have hBack : ∀ reversed : List Char,
      openAfter (reversed.dropWhile Text.isBlank).reverse = openAfter reversed.reverse := by
    intro reversed
    induction reversed with
    | nil => rfl
    | cons c reversed ih =>
      rw [List.dropWhile_cons]
      split
      · rename_i hc
        rw [ih, List.reverse_cons]
        exact (openQuote_lexemes_concat hc none reversed.reverse).symm
      · rfl
  have hText := hBack text.reverse
  rwa [List.reverse_reverse] at hText

theorem openAfter_trim (text : List Char) : openAfter (Text.trim text) = openAfter text := by
  rw [Text.trim, openAfter_trimEnd, openAfter_trimStart]

/-! ## Words and open quotes -/

theorem words_eq (command : List Char) :
    words command = match openAfter command with
      | some quote => .error quote.unterminated
      | none => .ok (wordsOf (lexemes none command)) :=
  words_eq_wordsOf command

theorem exists_words_iff (command : List Char) : (∃ ws, words command = .ok ws) ↔ openAfter command = none := by
  rw [words_eq]
  cases openAfter command <;> simp

theorem words_eq_error_iff {command : List Char} {error : LineError} :
    words command = .error error ↔ ∃ quote, openAfter command = some quote ∧ quote.unterminated = error := by
  rw [words_eq]
  cases openAfter command <;> simp

/-! ## The commands of a line -/

/-- The lexemes of commands with the connectives between them. -/
def uncut (first : List Lexeme) (others : List (Connective × List Lexeme)) : List Lexeme :=
  first ++ others.flatMap fun command => command.1.mark ++ command.2

/-- Nothing but connectives is lost by cutting. -/
theorem uncut_cut (own : List Lexeme) : uncut (cut own).1 (cut own).2 = own := by
  fun_induction cut own with
  | case1 => rfl
  | case2 rest ih | case3 rest ih | case4 rest ih =>
    rw [uncut, startAt, List.nil_append, List.flatMap_cons, List.append_assoc, ← uncut, ih]
    rfl
  | case5 lexeme rest hStart hAnd hOr first others hCut ih =>
    rw [hCut] at ih
    exact congrArg (lexeme :: ·) ih

/-- Commands whose lexemes are read from their own sources. Each closes its quotes, except that the last one leaves
`final` open. -/
def Ends (final : Option Quote) : Option Quote → List Lexeme → List (Connective × List Lexeme) → Prop
  | start, first, [] => lexemes start (source first) = first ∧ openQuote start first = final
  | start, first, next :: others =>
    lexemes start (source first) = first ∧ openQuote start first = none ∧ Ends final none next.2 others

theorem ends_cut (h : lexemes start line = own) : Ends (openQuote start own) start (cut own).1 (cut own).2 := by
  fun_induction cut own generalizing start line with
  | case1 => exact ⟨by cases start <;> rfl, rfl⟩
  | case2 rest ih =>
    obtain rfl := eq_none_of_lexemes_eq_bare_cons h
    exact ⟨rfl, rfl, ih (lexemes_source_of_append [.bare ';'] h).2⟩
  | case3 rest ih =>
    obtain rfl := eq_none_of_lexemes_eq_bare_cons h
    exact ⟨rfl, rfl, ih (lexemes_source_of_append [.bare '&', .bare '&'] h).2⟩
  | case4 rest ih =>
    obtain rfl := eq_none_of_lexemes_eq_bare_cons h
    exact ⟨rfl, rfl, ih (lexemes_source_of_append [.bare '|', .bare '|'] h).2⟩
  | case5 lexeme rest hStart hAnd hOr first others hCut ih =>
    have hRest := ih (lexemes_source_of_append [lexeme] h).2
    have hOwn : lexeme :: rest = uncut (lexeme :: first) others := by
      have hJoin := uncut_cut rest
      rw [hCut] at hJoin
      exact congrArg (lexeme :: ·) hJoin.symm
    have hFirst := (lexemes_source_of_append (lexeme :: first) (h.trans hOwn)).1
    rw [hCut] at hRest
    cases others with
    | nil => exact ⟨hFirst, hRest.2⟩
    | cons next others => exact ⟨hFirst, hRest.2⟩

/-- The commands that are not blank, without the blanks at their ends. -/
def kept (commands : List (Connective × List Lexeme)) : List Segment :=
  (commands.map fun command => ⟨command.1, Text.trim (source command.2)⟩).filter fun segment =>
    !segment.command.isEmpty

theorem kept_cons (connective : Connective) (first : List Lexeme) (others : List (Connective × List Lexeme)) :
    kept ((connective, first) :: others) =
      if (Text.trim (source first)).isEmpty then kept others
      else ⟨connective, Text.trim (source first)⟩ :: kept others := by
  rw [kept, List.map_cons, List.filter_cons]
  dsimp only
  cases (Text.trim (source first)).isEmpty <;> rfl

theorem eq_kept_of_segmentsOf {commands : List (Connective × List Lexeme)} {segs : List Segment}
    (h : segmentsOf commands = .ok segs) : segs = kept commands := by
  induction commands generalizing segs with
  | nil =>
    cases h
    rfl
  | cons command rest ih =>
    rw [segmentsOf] at h
    rw [kept_cons]
    cases hBlank : (Text.trim (source command.2)).isEmpty with
    | true =>
      simp only [hBlank, Bool.not_true, Bool.false_eq_true, if_false] at h
      split at h
      · cases h
      · exact ih h
    | false =>
      simp only [hBlank, Bool.not_false, if_true] at h
      cases hRest : segmentsOf rest with
      | error error =>
        rw [hRest] at h
        cases h
      | ok others =>
        rw [hRest] at h
        cases h
        rw [ih hRest]
        rfl

theorem eq_kept_of_segments {segs : List Segment} (h : segments line = .ok segs) :
    segs = kept ((.always, (cut (lexemes none line)).1) :: (cut (lexemes none line)).2) := by
  rw [segments_eq_segmentsAfter] at h
  exact eq_kept_of_segmentsOf h

theorem openAfter_trim_source {own : List Lexeme} (h : lexemes none (source own) = own) :
    openAfter (Text.trim (source own)) = openQuote none own := by
  rw [openAfter_trim, openAfter, h]

theorem openAfter_kept {first : List Lexeme} {others : List (Connective × List Lexeme)}
    (h : Ends final none first others) (connective : Connective) :
    (∀ segment ∈ (kept ((connective, first) :: others)).dropLast, openAfter segment.command = none) ∧
      (kept ((connective, first) :: others)).getLast?.bind (fun segment => openAfter segment.command) = final := by
  induction others generalizing connective first with
  | nil =>
    have hOpen := openAfter_trim_source h.1
    rw [kept_cons]
    split
    · rename_i hBlank
      rw [List.isEmpty_iff.mp hBlank] at hOpen
      exact ⟨nofun, hOpen.trans h.2⟩
    · exact ⟨nofun, hOpen.trans h.2⟩
  | cons next others ih =>
    obtain ⟨hRead, hClosed, hRest⟩ := h
    obtain ⟨hInner, hLast⟩ := ih hRest next.1
    have hOpen := (openAfter_trim_source hRead).trans hClosed
    rw [kept_cons]
    split
    · exact ⟨hInner, hLast⟩
    · cases hKept : kept (next :: others) with
      | nil =>
        rw [hKept] at hLast
        exact ⟨nofun, hOpen.trans hLast⟩
      | cons segment rest =>
        rw [hKept] at hInner hLast
        exact ⟨List.forall_mem_cons.mpr ⟨hOpen, hInner⟩, hLast⟩

end OptionShell.Line
