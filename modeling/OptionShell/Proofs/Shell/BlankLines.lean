import OptionShell.Proofs.Shell.InputForms

/-!
# Blank lines

A blank line leaves the options, the variables, the loaded extensions and the last status alone. But it is a line that
ran, and its status is zero. So blank lines in a text are noticed exactly where one of them is the last line that runs.
-/
namespace OptionShell

namespace Text

/-- The second text is the first with lines put in that hold nothing but blanks. -/
inductive PaddedText (text : List Char) : List Char → Prop
  | same : PaddedText text text
  | insert (front blank back : List Char) (hStart : front = [] ∨ front.getLast? = some '\n')
      (hBlank : ∀ c ∈ blank, isBlank c = true) (h : PaddedText text (front ++ back)) :
      PaddedText text (front ++ (blank ++ '\n' :: back))
  | append (front blank : List Char) (hStart : front = [] ∨ front.getLast? = some '\n')
      (hBlank : ∀ c ∈ blank, isBlank c = true) (h : PaddedText text front) : PaddedText text (front ++ blank)
  /-- The last line may lack its line feed. -/
  | extend (front blank : List Char) (hBlank : ∀ c ∈ blank, isBlank c = true) (h : PaddedText text front) :
      PaddedText text (front ++ '\n' :: blank)

/-- The second list of lines is the first with blank lines put in, up to blanks at the ends of lines. -/
inductive Padded : List (List Char) → List (List Char) → Prop
  | nil : Padded [] []
  | line {line line' : List Char} {lines lines' : List (List Char)} (hLine : trim line' = trim line)
      (h : Padded lines lines') : Padded (line :: lines) (line' :: lines')
  | blank {line : List Char} {lines lines' : List (List Char)} (hLine : trim line = []) (h : Padded lines lines') :
      Padded lines (line :: lines')

/-- Whether the last line of the text is blank. -/
def endsBlank (text : List Char) : Bool := (cutAfter (· = '\n') text).getLast?.any fun line => (trim line).isEmpty

namespace Padded

variable {items front back blanks : List (List Char)}

theorem refl (items : List (List Char)) : Padded items items := by
  induction items with
  | nil => exact .nil
  | cons item rest ih => exact .line rfl ih

theorem insert (hBlanks : ∀ line ∈ blanks, trim line = []) (h : Padded items (front ++ back)) :
    Padded items (front ++ (blanks ++ back)) := by
  induction front generalizing items with
  | nil =>
    induction blanks with
    | nil => exact h
    | cons line blanks ih =>
      obtain ⟨hLine, hBlanks⟩ := List.forall_mem_cons.mp hBlanks
      exact .blank hLine (ih hBlanks)
  | cons line front ih =>
    cases h with
    | line hLine h => exact .line hLine (ih h)
    | blank hLine h => exact .blank hLine (ih h)

theorem append (hBlanks : ∀ line ∈ blanks, trim line = []) (h : Padded items front) :
    Padded items (front ++ blanks) := by
  have hAll : Padded items (front ++ (blanks ++ [])) := insert hBlanks (by rwa [List.append_nil])
  rwa [List.append_nil] at hAll

theorem congr (h : Padded items front) (hTrim : List.Forall₂ (fun line line' => trim line' = trim line) front back) :
    Padded items back := by
  induction h generalizing back with
  | nil =>
    cases hTrim
    exact .nil
  | line hLine _ ih =>
    cases hTrim with
    | cons hSame hTrim => exact .line (hSame.trans hLine) (ih hTrim)
  | blank hLine _ ih =>
    cases hTrim with
    | cons hSame hTrim => exact .blank (hSame.trans hLine) (ih hTrim)

end Padded

/-! ## Cutting padded texts -/

section Cutting

variable {α : Type} {p : α → Bool}

theorem cutAfter_append_of_cut {front : List α} (hStart : front = [] ∨ ∃ c, p c = true ∧ front.getLast? = some c)
    (rest : List α) : cutAfter p (front ++ rest) = cutAfter p front ++ cutAfter p rest := by
  induction front with
  | nil => rfl
  | cons c front ih =>
    obtain hNone | ⟨last, hLast, hEnd⟩ := hStart
    · cases hNone
    · rw [List.cons_append, cutAfter, cutAfter]
      cases front with
      | nil =>
        obtain rfl : c = last := Option.some.inj hEnd
        rw [if_pos hLast, if_pos hLast]
        rfl
      | cons d front =>
        rw [ih (.inr ⟨last, hLast, hEnd⟩)]
        split
        · rfl
        · cases hPieces : cutAfter p (d :: front) with
          | nil =>
            have hFlat := flatten_cutAfter p (d :: front)
            rw [hPieces] at hFlat
            cases hFlat
          | cons piece pieces => rfl

end Cutting

theorem cut_start {front : List Char} (hStart : front = [] ∨ front.getLast? = some '\n') :
    front = [] ∨ ∃ c, decide (c = '\n') = true ∧ front.getLast? = some c :=
  hStart.imp_right fun hLast => ⟨'\n', rfl, hLast⟩

theorem trim_of_blanks {line : List Char} (h : ∀ c ∈ line, isBlank c = true) : trim line = [] :=
  show trim ([] ++ line) = trim [] from trim_append_blanks h

theorem blank_pieces {blank : List Char} (hBlank : ∀ c ∈ blank, isBlank c = true) :
    ∀ piece ∈ cutAfter (· = '\n') blank, trim piece = [] := by
  intro piece hPiece
  refine trim_of_blanks fun c hc => hBlank c ?_
  rw [← flatten_cutAfter (· = '\n') blank]
  exact List.mem_flatten_of_mem hPiece hc

theorem blank_lineFeed : ∀ c ∈ ['\n'], isBlank c = true :=
  List.forall_mem_singleton.mpr rfl

/-- A line feed after text that does not end with one goes to the last line. -/
theorem forall₂_cutAfter_concat {front : List Char} (hNonempty : front ≠ []) (hLast : front.getLast? ≠ some '\n') :
    List.Forall₂ (fun piece piece' => ∃ tail, piece' = piece ++ tail ∧ ∀ c ∈ tail, isBlank c = true)
      (cutAfter (· = '\n') front) (cutAfter (· = '\n') (front ++ ['\n'])) := by
  induction front with
  | nil => exact absurd rfl hNonempty
  | cons c front ih =>
    rw [List.cons_append, cutAfter, cutAfter]
    cases front with
    | nil =>
      have hFeed : ¬decide (c = '\n') = true := fun hc => hLast (by rw [of_decide_eq_true hc]; rfl)
      rw [if_neg hFeed, if_neg hFeed]
      exact .cons ⟨['\n'], rfl, blank_lineFeed⟩ .nil
    | cons d front =>
      have hRest := ih (List.cons_ne_nil d front) hLast
      have hSame : ∀ piece : List Char, ∃ tail, piece = piece ++ tail ∧ ∀ c ∈ tail, isBlank c = true := fun piece =>
        ⟨[], (List.append_nil piece).symm, List.forall_mem_nil _⟩
      split
      · exact .cons (hSame [c]) hRest
      · generalize cutAfter (· = '\n') (d :: front) = pieces at hRest
        generalize cutAfter (· = '\n') (d :: front ++ ['\n']) = pieces' at hRest
        cases hRest with
        | nil => exact .cons (hSame [c]) .nil
        | cons hFirst hOthers =>
          obtain ⟨tail, rfl, hTail⟩ := hFirst
          exact .cons ⟨tail, rfl, hTail⟩ hOthers

theorem Padded.cutAfter_concat {items : List (List Char)} {front : List Char}
    (h : Padded items (cutAfter (· = '\n') front)) : Padded items (cutAfter (· = '\n') (front ++ ['\n'])) := by
  by_cases hStart : front = [] ∨ front.getLast? = some '\n'
  · rw [cutAfter_append_of_cut (cut_start hStart)]
    exact h.append (blank_pieces blank_lineFeed)
  · obtain ⟨hNonempty, hLast⟩ := not_or.mp hStart
    refine h.congr ((forall₂_cutAfter_concat hNonempty hLast).imp ?_)
    rintro piece _ ⟨tail, rfl, hTail⟩
    exact trim_append_blanks hTail

/-- Padded texts are cut into padded lines. -/
theorem PaddedText.padded {text padded : List Char} (h : PaddedText text padded) :
    Padded (cutAfter (· = '\n') text) (cutAfter (· = '\n') padded) := by
  induction h with
  | same => exact .refl _
  | insert front blank back hStart hBlank _ ih =>
    have hEnd : ∃ c, decide (c = '\n') = true ∧ (blank ++ ['\n']).getLast? = some c :=
      ⟨'\n', rfl, List.getLast?_concat⟩
    have hAll : ∀ c ∈ blank ++ ['\n'], isBlank c = true := List.forall_mem_append.mpr ⟨hBlank, blank_lineFeed⟩
    rw [cutAfter_append_of_cut (cut_start hStart)] at ih ⊢
    rw [List.append_cons, cutAfter_append_of_cut (.inr hEnd)]
    exact ih.insert (blank_pieces hAll)
  | append front blank hStart hBlank _ ih =>
    rw [cutAfter_append_of_cut (cut_start hStart)]
    exact ih.append (blank_pieces hBlank)
  | extend front blank hBlank _ ih =>
    have hEnd : ∃ c, decide (c = '\n') = true ∧ (front ++ ['\n']).getLast? = some c :=
      ⟨'\n', rfl, List.getLast?_concat⟩
    rw [List.append_cons, cutAfter_append_of_cut (.inr hEnd)]
    exact ih.cutAfter_concat.append (blank_pieces hBlank)

end Text

namespace Shell

open Execution Interpreter

variable {shell shell' : Shell}

/-- A blank line answers nothing, with status zero, and leaves a shell in which lines do the same. -/
theorem exists_submit_blank (shell : Shell) (line : String) (hLine : Text.trim line.toList = []) :
    ∃ result last, shell.submit line = some (result, last) ∧ result.status = 0 ∧ result.exit? = none ∧
      Alike shell last := by
  obtain ⟨depth, hDepth⟩ : ∃ depth, scopeDepth = depth + 1 := ⟨99999, rfl⟩
  have hRun : (interpreter.execute scopeDepth line).run shell.silentStart =
      some (.ok .silent, shell.silentStart) := by
    rw [hDepth, execute, runChain, hLine]
    rfl
  rw [submit_eq, hRun]
  exact ⟨_, _, rfl, rfl, rfl, rfl, rfl, rfl, rfl, rfl⟩

/-- Whether the last of the lines is blank, or `before` if there are none. -/
def lastBlank (before : Bool) (lines : List (List Char)) : Bool :=
  (lines.getLast?.map fun line => (Text.trim line).isEmpty).getD before

theorem lastBlank_cons (before : Bool) (line : List Char) (lines : List (List Char)) :
    lastBlank before (line :: lines) = lastBlank (Text.trim line).isEmpty lines := by
  cases lines with
  | nil => rfl
  | cons next rest =>
    rw [lastBlank, List.getLast?_cons_cons, lastBlank, List.getLast?_cons]
    rfl

/-- The status is zero if a blank line was the last that ran. Otherwise it is that of the lines without padding. -/
theorem runLines_padded {read : List Char → String} (hRead : ∀ line, Text.trim (read line).toList = Text.trim line)
    {lines lines' : List (List Char)} (hPadded : Text.Padded lines lines') (hShells : Alike shell shell')
    {status status' : Int32} {before : Bool} (hStatus : status' = if before then 0 else status)
    (hExit : before = true → shell'.session.exit? = none) :
    Option.Rel (fun ran ran' => Alike ran.2 ran'.2 ∧
        ran'.1 = if ran'.2.session.exit?.isNone && lastBlank before lines' then 0 else ran.1)
      (shell.runLines status (lines.map read)) (shell'.runLines status' (lines'.map read)) := by
  induction hPadded generalizing shell shell' status status' before with
  | nil =>
    refine .some ⟨hShells, ?_⟩
    cases before with
    | false => simpa [lastBlank] using hStatus
    | true => simpa [lastBlank, hExit rfl] using hStatus
  | @line line line' lines lines' hLine _ ih =>
    have hTrim : Text.trim (read line').toList = Text.trim (read line).toList := by rw [hRead, hRead, hLine]
    rw [List.map_cons, List.map_cons, runLines, runLines, hShells.submit_eq, lastBlank_cons]
    refine rel_bind (rel_attach (submit_of_trim_eq hTrim)) fun ran ran' hRan => ?_
    obtain ⟨⟨hResult, hAfter⟩, -, hSubmit⟩ := hRan
    have hExit' := exit?_of_submit hSubmit
    rw [hResult.exit?] at hExit' ⊢
    cases hGoes : ran.1.exit? with
    | some stopped =>
      refine .some ⟨hAfter, ?_⟩
      rw [hExit', hGoes]
      rfl
    | none =>
      refine ih hAfter ?_ fun _ => hExit'.trans hGoes
      rw [hResult.status]
      cases hBlank : (Text.trim line').isEmpty with
      | false => rfl
      | true =>
        obtain ⟨result, last, hSame, hZero, -⟩ := exists_submit_blank shell (read line')
          (by rw [hRead, List.isEmpty_iff.mp hBlank])
        obtain rfl : ran' = (result, last) := Option.some.inj (hSubmit.symm.trans hSame)
        exact hResult.status.symm.trans hZero
  | @blank line lines lines' hLine _ ih =>
    obtain ⟨result, last, hSubmit, hZero, hGoes, hLast⟩ := exists_submit_blank shell' (read line)
      (by rw [hRead, hLine])
    rw [List.map_cons, runLines, hSubmit, lastBlank_cons, hLine, Option.bind_some]
    dsimp only
    rw [hGoes]
    refine ih (hShells.trans hLast) ?_ fun _ => ?_
    · rw [hZero]
      rfl
    · rw [exit?_of_submit hSubmit, hGoes]

theorem lastBlank_cutAfter (text : List Char) :
    lastBlank false (Text.cutAfter (· = '\n') text) = Text.endsBlank text := by
  rw [lastBlank, Text.endsBlank]
  cases (Text.cutAfter (· = '\n') text).getLast? <;> rfl

end Shell

namespace Terminal

open Shell (Alike)

/-- Blank lines that are put into a text change no option, variable or last status. They change the status of the input
to zero if one of them is the last line of all and nothing has stopped the shell before. -/
theorem blank_lines_noticed_at_end (terminal : Terminal) (text padded : String)
    (hPadded : Text.PaddedText text.toList padded.toList) (interactive : Bool) :
    Option.Rel (fun ran ran' => Alike ran.2.shell ran'.2.shell ∧
        ran'.1 = if ran'.2.shell.session.exit?.isNone && Text.endsBlank padded.toList then 0 else ran.1)
      (terminal.runScript text) (terminal.runScript padded) ∧
    Option.Rel (fun ran ran' => Alike ran.2.shell ran'.2.shell ∧
        ran'.1 = if ran'.2.shell.session.exit?.isNone && Text.endsBlank padded.toList then .ok 0 else ran.1)
      (terminal.runBytes text.toUTF8.data.toList interactive)
      (terminal.runBytes padded.toUTF8.data.toList interactive) := by
  have hLines : ∀ read : List Char → String, (∀ line, Text.trim (read line).toList = Text.trim line) →
      Option.Rel (fun ran ran' => Alike ran.2 ran'.2 ∧
          ran'.1 = if ran'.2.session.exit?.isNone && Text.endsBlank padded.toList then 0 else ran.1)
        (terminal.shell.runLines 0 ((Text.cutAfter (· = '\n') text.toList).map read))
        (terminal.shell.runLines 0 ((Text.cutAfter (· = '\n') padded.toList).map read)) := fun read hRead => by
    rw [← Shell.lastBlank_cutAfter]
    exact Shell.runLines_padded hRead hPadded.padded (.refl terminal.shell) rfl nofun
  constructor
  · have hScript : ∀ text : String, (terminal.runScript text).map (fun ran => (ran.1, ran.2.shell)) =
        terminal.shell.runLines 0
          ((Text.cutAfter (· = '\n') text.toList).map fun line => String.ofList (Text.dropTerminator line)) :=
      fun text => by
        rw [runScript, submitAll_runLines, Text.lines, List.map_map]
        rfl
    have hRun := hLines (fun line => String.ofList (Text.dropTerminator line)) fun line => by
      rw [String.toList_ofList, Text.trim_dropTerminator]
    rw [← hScript, ← hScript, rel_map_iff] at hRun
    exact hRun
  · have hStream : ∀ text : String,
        (terminal.runBytes text.toUTF8.data.toList interactive).map (fun ran => (ran.1, ran.2.shell)) =
          (terminal.shell.runLines 0 ((Text.cutAfter (· = '\n') text.toList).map fun line =>
            String.ofList (Text.dropLineEnd line))).map fun ran => (.ok ran.1, ran.2) := fun text => by
      rw [runBytes, runStream_runLines interactive 0 terminal (decoded_lines text), Text.lines, List.map_map]
      simp only [Function.comp_def, Text.dropLineEnd_dropTerminator]
    have hRun := hLines (fun line => String.ofList (Text.dropLineEnd line)) fun line => by
      rw [String.toList_ofList, Text.trim_dropLineEnd]
    have hMapped := (rel_map_iff (f := fun ran => ((.ok ran.1 : Except ReadError Int32), ran.2))
      (g := fun ran => ((.ok ran.1 : Except ReadError Int32), ran.2))
      (U := fun ran ran' => Alike ran.2 ran'.2 ∧
        ran'.1 = if ran'.2.session.exit?.isNone && Text.endsBlank padded.toList then .ok 0 else ran.1)).mpr
      (rel_mono hRun fun ran ran' hRan => ⟨hRan.1, by rw [hRan.2]; split <;> rfl⟩)
    rw [← hStream, ← hStream, rel_map_iff] at hMapped
    exact hMapped

/-- A blank line before the only command is not noticed. -/
theorem blank_line_unnoticed_before_command :
    Text.PaddedText "false".toList " \nfalse".toList ∧
      ∃ shell ran ran', Shell.start {} {} [] = some (.ok shell) ∧ ({ shell } : Terminal).runScript "false" = some ran ∧
        ({ shell } : Terminal).runScript " \nfalse" = some ran' ∧ Alike ran.2.shell ran'.2.shell ∧ ran'.1 = ran.1 := by
  have hPadded : Text.PaddedText "false".toList " \nfalse".toList :=
    .insert [] [' '] "false".toList (.inl rfl) (List.forall_mem_singleton.mpr rfl) .same
  have hRuns : ((Shell.start {} {} []).bind Except.toOption).any (fun shell =>
      (({ shell } : Terminal).runScript "false").isSome && (({ shell } : Terminal).runScript " \nfalse").isSome) =
        true := by decide +kernel
  obtain ⟨shell, hStart, hBoth⟩ := Shell.exists_of_any_start hRuns
  obtain ⟨hText, hPad⟩ := Bool.and_eq_true_iff.mp hBoth
  obtain ⟨ran, hRan⟩ := Option.isSome_iff_exists.mp hText
  obtain ⟨ran', hRan'⟩ := Option.isSome_iff_exists.mp hPad
  have hRel := (blank_lines_noticed_at_end { shell } "false" " \nfalse" hPadded false).1
  rw [hRan, hRan'] at hRel
  obtain ⟨hShells, hStatus⟩ := Option.rel_some_some.mp hRel
  have hEnd : Text.endsBlank " \nfalse".toList = false := by decide
  rw [hEnd, Bool.and_false] at hStatus
  exact ⟨hPadded, shell, ran, ran', hStart, hRan, hRan', hShells, hStatus⟩

/-- A blank line after the only command makes the input succeed, while the last status is still that of the command. -/
theorem status_lost_to_blank_line :
    Text.PaddedText "false\n".toList "false\n\n".toList ∧
      ∃ shell ran ran', Shell.start {} {} [] = some (.ok shell) ∧ ({ shell } : Terminal).runScript "false\n" = some ran ∧
        ({ shell } : Terminal).runScript "false\n\n" = some ran' ∧ ran.1 = 1 ∧ ran'.1 = 0 ∧
        ran'.2.shell.session.lastStatus = 1 := by
  have hPadded : Text.PaddedText "false\n".toList "false\n\n".toList :=
    .insert "false\n".toList [] [] (.inr rfl) nofun .same
  have hRuns : ((Shell.start {} {} []).bind Except.toOption).any (fun shell =>
      (({ shell } : Terminal).runScript "false\n").any (fun ran => ran.1 = 1) &&
        (({ shell } : Terminal).runScript "false\n\n").any fun ran =>
          decide (ran.1 = 0) && decide (ran.2.shell.session.lastStatus = 1)) = true := by decide +kernel
  obtain ⟨shell, hStart, hBoth⟩ := Shell.exists_of_any_start hRuns
  obtain ⟨hText, hPad⟩ := Bool.and_eq_true_iff.mp hBoth
  obtain ⟨ran, hRan, hOne⟩ := (Option.any_eq_true _ _).mp hText
  obtain ⟨ran', hRan', hZero⟩ := (Option.any_eq_true _ _).mp hPad
  obtain ⟨hZero, hLast⟩ := Bool.and_eq_true_iff.mp hZero
  exact ⟨hPadded, shell, ran, ran', hStart, hRan, hRan', of_decide_eq_true hOne, of_decide_eq_true hZero,
    of_decide_eq_true hLast⟩

end Terminal

end OptionShell
