import Mathlib.Data.List.DropRight
import Mathlib.Data.Nat.ModEq
import OptionShell.Proofs.Line.Trimming

/-!
# Operators without a command before them

A line has its operators outside quotes and escapes. It is refused exactly if a `&&` or `||` has nothing but blanks
between it and the operator before it, or the start of the line. The blanks at the ends of the line have no part in
this.
-/
namespace OptionShell.Line

variable {own front rest back before : List Lexeme} {connective other : Connective}

/-! ## Where operators stand -/

/-- An operator comes after these lexemes. Of ampersands or bars in a row two and two are an operator, from the first
on, so an even number of them is right before one. -/
structure OperatorAfter (own front : List Lexeme) (connective : Connective) : Prop where
  stands : front ++ connective.mark <+: own
  paired : connective.mark.length ∣ (front.rtakeWhile (· ∈ connective.mark)).length

/-- Only blanks stand between a `&&` or `||` and the operator before it, or the start of the line. -/
def MissesCommand (own : List Lexeme) : Prop :=
  ∃ connective before blanks, connective ≠ .always ∧ OperatorAfter own (before ++ blanks) connective ∧
    (∀ lexeme ∈ blanks, lexeme.isBlank = true) ∧
    (before = [] ∨ ∃ front prior, before = front ++ prior.mark ∧ OperatorAfter own front prior)

theorem eq_of_mem_marks {lexeme : Lexeme} (h : lexeme ∈ connective.mark) (hOther : lexeme ∈ other.mark) :
    connective = other := by
  cases connective <;> cases other <;> simp_all [Connective.mark]

theorem Connective.mark_ne_nil (connective : Connective) : connective.mark ≠ [] := by cases connective <;> nofun

theorem isBlank_of_mem_mark {lexeme : Lexeme} (h : lexeme ∈ connective.mark) : lexeme.isBlank = false := by
  cases connective <;> simp [Connective.mark] at h <;> subst h <;> decide

/-- No connective stands before the end of these lexemes. -/
def NoneBefore (own front : List Lexeme) : Prop :=
  ∀ (other : Connective) before, before ++ other.mark <+: own → front.length ≤ before.length

/-- A line is cut at its first connective, if it has one. -/
theorem cut_cases (own : List Lexeme) :
    (cut own = (own, []) ∧ Undivided own) ∨ ∃ front connective rest, own = front ++ (connective.mark ++ rest) ∧
      cut own = (front, (connective, (cut rest).1) :: (cut rest).2) ∧ NoneBefore own front := by
  fun_induction cut own with
  | case1 => exact .inl ⟨rfl, cut_eq_iff.mp rfl⟩
  | case2 rest => exact .inr ⟨[], .always, rest, rfl, rfl, fun _ _ _ => Nat.zero_le _⟩
  | case3 rest => exact .inr ⟨[], .onSuccess, rest, rfl, rfl, fun _ _ _ => Nat.zero_le _⟩
  | case4 rest => exact .inr ⟨[], .onFailure, rest, rfl, rfl, fun _ _ _ => Nat.zero_le _⟩
  | case5 lexeme rest hStart hAnd hOr first others hCut ih =>
    have hPrefix := not_mark_prefix_cons hStart hAnd hOr
    obtain ⟨hRest, hUndivided⟩ | ⟨_, connective, back, rfl, hRest, hNone⟩ := ih
    · rw [hCut] at hRest
      cases hRest
      exact .inl ⟨rfl, fun connective hMark =>
        (List.infix_cons_iff.mp hMark).elim (hPrefix connective) (hUndivided connective)⟩
    · rw [hCut] at hRest
      cases hRest
      refine .inr ⟨lexeme :: first, connective, back, rfl, rfl, fun other before hBefore => ?_⟩
      cases before with
      | nil => exact absurd hBefore (hPrefix other)
      | cons _ before => exact Nat.succ_le_succ (hNone other before (List.cons_prefix_cons.mp hBefore).2)

/-! ## Operators after the first one -/

/-- What stands before the first connective does not end in a character of it. -/
theorem rtakeWhile_eq_nil_of_noneBefore (h : NoneBefore (front ++ (connective.mark ++ rest)) front) :
    front.rtakeWhile (· ∈ connective.mark) = [] := by
  rw [List.rtakeWhile_eq_nil_iff]
  intro hFront hLast
  have hTwice : connective.mark <+: front.getLast hFront :: connective.mark := by
    cases connective <;> simp_all [Connective.mark]
  have hEarlier : front.dropLast ++ connective.mark <+: front ++ (connective.mark ++ rest) := by
    conv => rhs; rw [← List.dropLast_append_getLast hFront, List.append_assoc]
    exact (List.prefix_append_right_inj _).mpr (hTwice.trans ⟨rest, rfl⟩)
  have hLength := h connective _ hEarlier
  rw [List.length_dropLast] at hLength
  have hPos := List.length_pos_iff.mpr hFront
  omega

/-- A number of characters in pairs before a text does not change how they are paired in it. -/
theorem rtakeWhile_append_modEq {width : Nat} {p : Lexeme → Bool} (h : width ∣ (front.rtakeWhile p).length)
    (back : List Lexeme) : ((front ++ back).rtakeWhile p).length ≡ (back.rtakeWhile p).length [MOD width] := by
  induction back using List.reverseRecOn with
  | nil =>
    rw [List.append_nil, List.rtakeWhile_nil]
    exact (Nat.modEq_zero_iff_dvd).mpr h
  | append_singleton back last ih =>
    rw [← List.append_assoc, List.rtakeWhile_concat, List.rtakeWhile_concat]
    split
    · rw [List.length_append, List.length_append]
      exact ih.add_right 1
    · rfl

theorem dvd_rtakeWhile_of_noneBefore (h : NoneBefore (front ++ (connective.mark ++ rest)) front) (other : Connective) :
    other.mark.length ∣ ((front ++ connective.mark).rtakeWhile (· ∈ other.mark)).length := by
  by_cases hSame : connective = other
  · subst hSame
    have hFront : connective.mark.length ∣ (front.rtakeWhile (· ∈ connective.mark)).length := by
      rw [rtakeWhile_eq_nil_of_noneBefore h]
      exact Nat.dvd_zero _
    rw [(rtakeWhile_append_modEq hFront connective.mark).dvd_iff (dvd_refl _),
      List.rtakeWhile_eq_self_iff.mpr fun lexeme hMem => decide_eq_true hMem]
  · have hNone : (front ++ connective.mark).rtakeWhile (· ∈ other.mark) = [] := by
      rw [List.rtakeWhile_eq_nil_iff]
      intro hOwn hLast
      rw [List.getLast_append_of_ne_nil _ connective.mark_ne_nil] at hLast
      exact hSame (eq_of_mem_marks (List.getLast_mem connective.mark_ne_nil) (of_decide_eq_true hLast))
    rw [hNone]
    exact Nat.dvd_zero _

/-- An operator is the first connective, or an operator of what comes after it. -/
theorem operatorAfter_append (h : NoneBefore (front ++ (connective.mark ++ rest)) front) :
    OperatorAfter (front ++ (connective.mark ++ rest)) before other ↔
      before = front ∧ other = connective ∨
        ∃ after, before = front ++ (connective.mark ++ after) ∧ OperatorAfter rest after other := by
  have hShift : ∀ after,
      other.mark.length ∣ ((front ++ (connective.mark ++ after)).rtakeWhile (· ∈ other.mark)).length ↔
        other.mark.length ∣ (after.rtakeWhile (· ∈ other.mark)).length := by
    intro after
    rw [← List.append_assoc]
    exact (rtakeWhile_append_modEq (dvd_rtakeWhile_of_noneBefore h other) after).dvd_iff (dvd_refl _)
  constructor
  · intro hOther
    obtain ⟨after, rfl⟩ := List.prefix_of_prefix_length_le (List.prefix_append front _)
      ((List.prefix_append before _).trans hOther.stands) (h other before hOther.stands)
    have hAfter := hOther.stands
    rw [List.append_assoc, List.prefix_append_right_inj] at hAfter
    by_cases hLength : connective.mark.length ≤ after.length
    · obtain ⟨after, rfl⟩ := List.prefix_of_prefix_length_le (List.prefix_append _ rest)
        ((List.prefix_append after _).trans hAfter) hLength
      rw [List.append_assoc, List.prefix_append_right_inj] at hAfter
      exact .inr ⟨after, rfl, hAfter, (hShift after).mp hOther.paired⟩
    · -- The operator starts within the first connective, so only at the start of it two and two are an operator.
      obtain ⟨first, more, hMark⟩ := List.exists_cons_of_ne_nil (other.mark_ne_nil)
      have hWithin : after ++ [first] <+: connective.mark := by
        refine List.prefix_of_prefix_length_le ?_ (List.prefix_append _ rest) ?_
        · rw [hMark] at hAfter
          exact List.IsPrefix.trans ⟨more, by simp⟩ hAfter
        · rw [List.length_append, List.length_singleton]
          omega
      have hSame : connective = other :=
        eq_of_mem_marks (hWithin.subset (by simp)) (hMark ▸ List.mem_cons_self)
      subst hSame
      have hFront : connective.mark.length ∣ (front.rtakeWhile (· ∈ connective.mark)).length := by
        rw [rtakeWhile_eq_nil_of_noneBefore h]
        exact Nat.dvd_zero _
      have hPaired := ((rtakeWhile_append_modEq hFront after).dvd_iff (dvd_refl _)).mp hOther.paired
      rw [List.rtakeWhile_eq_self_iff.mpr fun lexeme hMem =>
        decide_eq_true (hWithin.subset (List.mem_append_left _ hMem))] at hPaired
      have hNone := List.length_eq_zero_iff.mp (Nat.eq_zero_of_dvd_of_lt hPaired (by omega))
      rw [hNone, List.append_nil]
      exact .inl ⟨rfl, rfl⟩
  · rintro (⟨rfl, rfl⟩ | ⟨after, rfl, hOther⟩)
    · refine ⟨⟨rest, List.append_assoc _ _ _⟩, ?_⟩
      rw [rtakeWhile_eq_nil_of_noneBefore h]
      exact Nat.dvd_zero _
    · refine ⟨?_, (hShift after).mpr hOther.paired⟩
      rw [List.append_assoc, List.append_assoc, List.prefix_append_right_inj, List.prefix_append_right_inj]
      exact hOther.stands

/-! ## Refused lines -/

theorem missesCommand_append (h : NoneBefore (front ++ (connective.mark ++ rest)) front) :
    MissesCommand (front ++ (connective.mark ++ rest)) ↔
      connective ≠ .always ∧ (∀ lexeme ∈ front, lexeme.isBlank = true) ∨ MissesCommand rest := by
  constructor
  · rintro ⟨other, before, blanks, hOther, hStands, hBlanks, hPrior⟩
    obtain ⟨hFront, rfl⟩ | ⟨after, hAfter, hRest⟩ := (operatorAfter_append h).mp hStands
    · obtain rfl | ⟨earlier, prior, rfl, hEarlier⟩ := hPrior
      · exact .inl ⟨hOther, hFront ▸ hBlanks⟩
      · have hLength := h prior earlier hEarlier.stands
        have hMark := List.length_pos_iff.mpr prior.mark_ne_nil
        rw [← hFront, List.length_append, List.length_append] at hLength
        omega
    · obtain rfl | ⟨earlier, prior, rfl, hEarlier⟩ := hPrior
      · obtain ⟨first, more, hMark⟩ := List.exists_cons_of_ne_nil connective.mark_ne_nil
        rw [List.nil_append] at hAfter
        have hBlank := hBlanks first (by rw [hAfter, hMark]; simp)
        rw [isBlank_of_mem_mark (hMark ▸ List.mem_cons_self)] at hBlank
        cases hBlank
      · obtain ⟨rfl, rfl⟩ | ⟨before, rfl, hBefore⟩ := (operatorAfter_append h).mp hEarlier
        · rw [List.append_assoc, List.append_cancel_left_eq, List.append_cancel_left_eq] at hAfter
          subst hAfter
          exact .inr ⟨other, [], blanks, hOther, hRest, hBlanks, .inl rfl⟩
        · rw [List.append_assoc, List.append_assoc, List.append_assoc, List.append_cancel_left_eq,
            List.append_cancel_left_eq, ← List.append_assoc] at hAfter
          subst hAfter
          exact .inr ⟨other, _, blanks, hOther, hRest, hBlanks, .inr ⟨before, prior, rfl, hBefore⟩⟩
  · rintro (⟨hConnective, hBlanks⟩ | ⟨other, before, blanks, hOther, hStands, hBlanks, hPrior⟩)
    · exact ⟨connective, [], front, hConnective, (operatorAfter_append h).mpr (.inl ⟨rfl, rfl⟩), hBlanks, .inl rfl⟩
    · refine ⟨other, front ++ (connective.mark ++ before), blanks, hOther,
        (operatorAfter_append h).mpr (.inr ⟨before ++ blanks, by simp, hStands⟩), hBlanks, .inr ?_⟩
      obtain rfl | ⟨earlier, prior, rfl, hEarlier⟩ := hPrior
      · exact ⟨front, connective, by rw [List.append_nil], (operatorAfter_append h).mpr (.inl ⟨rfl, rfl⟩)⟩
      · exact ⟨front ++ (connective.mark ++ earlier), prior, by simp,
          (operatorAfter_append h).mpr (.inr ⟨earlier, rfl, hEarlier⟩)⟩

theorem not_missesCommand (h : Undivided own) : ¬MissesCommand own := by
  rintro ⟨connective, before, blanks, -, hStands, -⟩
  exact h connective ((List.suffix_append _ _).isInfix.trans hStands.stands.isInfix)

theorem trim_source_eq_nil_iff (hRead : lexemes none (source own) = own) :
    Text.trim (source own) = [] ↔ ∀ lexeme ∈ own, lexeme.isBlank = true := by
  constructor
  · intro hTrim
    obtain ⟨lead, tail, hSource, hLead, hTail⟩ := Text.exists_blanks_trim (source own)
    rw [hTrim, List.nil_append] at hSource
    have hBlank : ∀ c ∈ source own, Text.isBlank c = true := by
      rw [hSource]
      exact List.forall_mem_append.mpr ⟨hLead, hTail⟩
    rw [← hRead, lexemes_blanks hBlank]
    exact List.forall_mem_map.mpr hBlank
  · intro hBlank
    have hSource : ∀ c ∈ source own, Text.isBlank c = true := by
      intro c hc
      obtain ⟨lexeme, hMem, hc⟩ := List.mem_flatMap.mp hc
      have hLexeme := hBlank lexeme hMem
      cases lexeme <;> first | cases hLexeme | exact List.mem_singleton.mp hc ▸ hLexeme
    rw [Text.trim, Text.trimStart, List.dropWhile_eq_nil_iff.mpr hSource]
    rfl

theorem exists_error_cons_iff (connective : Connective) (first : List Lexeme) (next : Connective × List Lexeme)
    (others : List (Connective × List Lexeme)) :
    (∃ error, segmentsOf ((connective, first) :: next :: others) = .error error) ↔
      next.1 ≠ .always ∧ Text.trim (source first) = [] ∨ ∃ error, segmentsOf (next :: others) = .error error := by
  rw [segmentsOf]
  by_cases hFirst : Text.trim (source first) = []
  · by_cases hNext : next.1 = .always <;> simp [hFirst, hNext]
  · have hKept : (Text.trim (source first)).isEmpty = false := List.isEmpty_eq_false_iff.mpr hFirst
    cases hOthers : segmentsOf (next :: others) <;> simp [hFirst, hKept, Except.map]

/-- A text is refused exactly if a `&&` or `||` in it has no command before it. -/
theorem exists_error_segmentsAfter_iff (start : Connective) (text : List Char) :
    (∃ error, segmentsAfter start text = .error error) ↔ MissesCommand (lexemes none text) := by
  generalize hRead : lexemes none text = own
  rw [segmentsAfter, hRead]
  obtain ⟨hCut, hUndivided⟩ | ⟨front, connective, rest, rfl, hCut, hNone⟩ := cut_cases own
  · rw [hCut]
    refine iff_of_false ?_ (not_missesCommand hUndivided)
    rintro ⟨error, hError⟩
    rw [segmentsOf] at hError
    split at hError <;> cases hError
  · obtain ⟨hFront, hBack⟩ := lexemes_source_of_append front hRead
    have hClosed : openQuote none front = none := by
      cases connective <;> exact eq_none_of_lexemes_eq_bare_cons hBack
    have hRest : lexemes none (source rest) = rest := by
      have hRest := (lexemes_source_of_append connective.mark hBack).2
      rw [hClosed] at hRest
      cases connective <;> exact hRest
    have hOthers := exists_error_segmentsAfter_iff connective (source rest)
    rw [segmentsAfter, hRest] at hOthers
    rw [hCut, exists_error_cons_iff, hOthers, missesCommand_append hNone, trim_source_eq_nil_iff hFront]
termination_by text.length
decreasing_by
  have hText : text = source (front ++ (connective.mark ++ rest)) := by rw [← hRead, source_lexemes]
  have hMark : 0 < (source connective.mark).length := by cases connective <;> decide
  rw [hText]
  simp only [source, List.flatMap_append, List.length_append] at hMark ⊢
  omega

theorem eq_missingCommand_of_segmentsOf {commands : List (Connective × List Lexeme)} {error : LineError}
    (h : segmentsOf commands = .error error) : error = .missingCommand := by
  induction commands with
  | nil => cases h
  | cons command rest ih =>
    rw [segmentsOf] at h
    split at h
    · cases hRest : segmentsOf rest with
      | ok segs =>
        rw [hRest] at h
        cases h
      | error other =>
        rw [hRest] at h
        cases h
        exact ih hRest
    · split at h
      · cases h
        rfl
      · exact ih h

theorem eq_missingCommand_of_segments {line : List Char} {error : LineError} (h : segments line = .error error) :
    error = .missingCommand := by
  rw [segments_eq_segmentsAfter] at h
  exact eq_missingCommand_of_segmentsOf h

/-! ## Blanks at the ends -/

theorem isBlank_of_mem_signs : ∀ c ∈ [';', '&', '|'], Text.isBlank c = false :=
  List.forall_mem_cons.mpr ⟨by decide, List.forall_mem_cons.mpr ⟨by decide, List.forall_mem_singleton.mpr (by decide)⟩⟩

theorem segmentsAfter_of_isBlank {c : Char} (hc : Text.isBlank c = true) (start : Connective) (text : List Char) :
    segmentsAfter start (c :: text) = segmentsAfter start text := by
  have hUncut : ∀ d ∈ [';', '&', '|'], Lexeme.bare d ∉ [Lexeme.bare c] := by
    intro d hd hMem
    cases List.mem_singleton.mp hMem
    exact ne_of_isBlank hc (isBlank_of_mem_signs c hd) rfl
  have hCut := cut_append_of_cut (cut_of_uncut hUncut)
    (fun d hd hEnd => hUncut d (List.mem_cons_of_mem ';' hd) (List.mem_of_getLast? hEnd)) (lexemes none text)
  have hRead : lexemes none (c :: text) = [.bare c] ++ lexemes none text := lexemes_cons_of_isBlank hc text
  have hTrim : ∀ own, Text.trim (source ([.bare c] ++ own)) = Text.trim (source own) := fun own => by
    change Text.trim (c :: source own) = _
    rw [Text.trim, Text.trimStart, List.dropWhile_cons_of_pos hc]
    rfl
  rw [segmentsAfter, hRead, hCut, segmentsAfter, segmentsOf, segmentsOf, hTrim]

theorem segmentsAfter_trimStart (start : Connective) (text : List Char) :
    segmentsAfter start (Text.trimStart text) = segmentsAfter start text := by
  induction text with
  | nil => rfl
  | cons c text ih =>
    rw [Text.trimStart, List.dropWhile_cons]
    split
    · rename_i hc
      rw [segmentsAfter_of_isBlank hc]
      exact ih
    · rfl

theorem missesCommand_append_right (hBack : ∀ lexeme ∈ back, ∀ connective : Connective, lexeme ∉ connective.mark) :
    MissesCommand (own ++ back) ↔ MissesCommand own := by
  have hStands : ∀ front (connective : Connective),
      OperatorAfter (own ++ back) front connective ↔ OperatorAfter own front connective := by
    intro front connective
    refine ⟨fun h => ⟨?_, h.paired⟩, fun h => ⟨h.stands.trans (List.prefix_append own back), h.paired⟩⟩
    by_cases hLength : (front ++ connective.mark).length ≤ own.length
    · exact List.prefix_of_prefix_length_le h.stands (List.prefix_append own back) hLength
    · obtain ⟨extra, hExtra⟩ :=
        List.prefix_of_prefix_length_le (List.prefix_append own back) h.stands (Nat.le_of_not_le hLength)
      have hWithin : extra <+: back := by
        have hStands := h.stands
        rwa [← hExtra, List.prefix_append_right_inj] at hStands
      have hLast : (own ++ extra).getLast? = connective.mark.getLast? := by
        rw [hExtra, List.getLast?_append, Option.or_of_isSome (by cases connective <;> rfl)]
      cases hExtraLast : extra.getLast? with
      | none =>
        rw [List.getLast?_eq_none_iff.mp hExtraLast, List.append_nil] at hExtra
        exact absurd (hExtra ▸ Nat.le_refl _) hLength
      | some last =>
        rw [List.getLast?_append, hExtraLast, Option.some_or] at hLast
        exact absurd (List.mem_of_getLast? hLast.symm)
          (hBack last (hWithin.subset (List.mem_of_getLast? hExtraLast)) connective)
  simp only [MissesCommand, hStands]

theorem notMem_mark_of_lexemes (start : Option Quote) {text : List Char} (h : ∀ c ∈ [';', '&', '|'], c ∉ text) :
    ∀ lexeme ∈ lexemes start text, ∀ connective : Connective, lexeme ∉ connective.mark := by
  intro lexeme hLexeme connective hMark
  obtain ⟨c, hc, rfl⟩ : ∃ c ∈ [';', '&', '|'], lexeme = .bare c := by
    cases connective <;> simp_all [Connective.mark]
  apply h c hc
  rw [← source_lexemes start text]
  exact List.mem_flatMap.mpr ⟨_, hLexeme, List.mem_singleton_self c⟩

theorem missesCommand_trimEnd (text : List Char) :
    MissesCommand (lexemes none (Text.trimEnd text)) ↔ MissesCommand (lexemes none text) := by
  obtain ⟨tail, hText, hTail⟩ := Text.exists_blanks_trimEnd text
  obtain ⟨front, back, hFront, hDangling, hBack⟩ := exists_dangling_end none (Text.trimEnd text)
  have hRead := lexemes_append hFront hDangling tail
  rw [← hText] at hRead
  have hSource : ∀ c ∈ source back, c = '\\' := by
    obtain rfl | ⟨last, rfl, hLast⟩ := hBack
    · nofun
    · intro c hc
      cases last <;> first | exact List.mem_singleton.mp hc | cases hLast
  have hSigns : ∀ c ∈ [';', '&', '|'], c ∉ source back := fun c hc hMem => by
    rw [hSource c hMem] at hc
    exact absurd hc (by decide)
  have hAll : ∀ c ∈ [';', '&', '|'], c ∉ source back ++ tail := fun c hc hMem =>
    (List.mem_append.mp hMem).elim (hSigns c hc) fun hMem => ne_of_isBlank (hTail c hMem) (isBlank_of_mem_signs c hc) rfl
  have hOwn := notMem_mark_of_lexemes (openQuote none front) hSigns
  rw [(lexemes_source_of_append front hFront).2] at hOwn
  rw [hRead, hFront, missesCommand_append_right (notMem_mark_of_lexemes _ hAll), missesCommand_append_right hOwn]

/-- The blanks at the ends of a line do not decide whether it is refused. -/
theorem exists_error_segments_trim_iff (line : List Char) :
    (∃ error, segments (Text.trim line) = .error error) ↔ ∃ error, segments line = .error error := by
  have hStart : segments (Text.trimStart line) = segments line := by
    rw [segments_eq_segmentsAfter, segments_eq_segmentsAfter, segmentsAfter_trimStart]
  have hEnd := missesCommand_trimEnd (Text.trimStart line)
  rw [← exists_error_segmentsAfter_iff .always, ← exists_error_segmentsAfter_iff .always, ← segments_eq_segmentsAfter,
    ← segments_eq_segmentsAfter, hStart] at hEnd
  exact hEnd

end OptionShell.Line
