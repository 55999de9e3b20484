import OptionShell.Line.Chain
import OptionShell.Line.Word

/-!
# Lexemes of a command line

What each character of a line stands for: for itself, for an escape, or for a quotation mark. The lexemes lose nothing:
their sources concatenate to the line. A line has its commands between the connectives outside quotes and escapes, and
a command its words between the blanks there.
-/
namespace OptionShell.Line

inductive Lexeme where
  | bare (c : Char)
  /-- A backslash outside quotes with the character that it protects. -/
  | escaped (c : Char)
  /-- A backslash outside quotes at the end of the line. -/
  | dangling
  | opening (q : Quote)
  | closing (q : Quote)
  | quoted (c : Char)
  /-- A backslash inside double quotes with the character after it. -/
  | quotedEscape (c : Char)
  /-- A backslash inside double quotes at the end of the line. -/
  | quotedDangling
deriving DecidableEq, Repr

def Lexeme.source : Lexeme → List Char
  | bare c | quoted c => [c]
  | escaped c | quotedEscape c => ['\\', c]
  | dangling | quotedDangling => ['\\']
  | opening q | closing q => [q.mark]

def source (lexemes : List Lexeme) : List Char := lexemes.flatMap Lexeme.source

/-- Reads lexemes from inside the given quotes, or from outside quotes. -/
def lexemes : Option Quote → List Char → List Lexeme
  | _, [] => []
  | none, ['\\'] => [.dangling]
  | none, '\\' :: c :: rest => .escaped c :: lexemes none rest
  | none, '\'' :: rest => .opening .single :: lexemes (some .single) rest
  | none, '"' :: rest => .opening .double :: lexemes (some .double) rest
  | none, c :: rest => .bare c :: lexemes none rest
  | some .single, '\'' :: rest => .closing .single :: lexemes none rest
  | some .single, c :: rest => .quoted c :: lexemes (some .single) rest
  | some .double, ['\\'] => [.quotedDangling]
  | some .double, '\\' :: c :: rest => .quotedEscape c :: lexemes (some .double) rest
  | some .double, '"' :: rest => .closing .double :: lexemes none rest
  | some .double, c :: rest => .quoted c :: lexemes (some .double) rest

/-- The quotes that are still open at the end of a list of lexemes. -/
def openQuote (start : Option Quote) (lexemes : List Lexeme) : Option Quote :=
  lexemes.foldl (fun current lexeme =>
    match lexeme with
    | .opening q => some q
    | .closing _ => none
    | _ => current) start

theorem source_lexemes (start : Option Quote) (line : List Char) : source (lexemes start line) = line := by
  fun_induction lexemes start line <;> simp_all [source, Lexeme.source, Quote.mark]

/-! ## Commands -/

/-- The commands from a connective on: nothing stands before it, and the first of them follows it. -/
def startAt (connective : Connective) (commands : List Lexeme × List (Connective × List Lexeme)) :
    List Lexeme × List (Connective × List Lexeme) :=
  ([], (connective, commands.1) :: commands.2)

/-- The lexemes of the first command, and those of each other command with its connective. -/
def cut : List Lexeme → List Lexeme × List (Connective × List Lexeme)
  | [] => ([], [])
  | .bare ';' :: rest => startAt .always (cut rest)
  | .bare '&' :: .bare '&' :: rest => startAt .onSuccess (cut rest)
  | .bare '|' :: .bare '|' :: rest => startAt .onFailure (cut rest)
  | lexeme :: rest =>
    let (first, others) := cut rest
    (lexeme :: first, others)

def segmentsOf : List (Connective × List Lexeme) → Except LineError (List Segment)
  | [] => .ok []
  | (connective, command) :: rest =>
    let text := Text.trim (source command)
    if !text.isEmpty then (segmentsOf rest).map (⟨connective, text⟩ :: ·)
    else if rest.head?.any fun next => next.1 ≠ .always then .error .missingCommand
    else segmentsOf rest

/-- The commands of a text that comes after an operator. -/
def segmentsAfter (connective : Connective) (text : List Char) : Except LineError (List Segment) :=
  segmentsOf ((connective, (cut (lexemes none text)).1) :: (cut (lexemes none text)).2)

/-! ## Words -/

def Lexeme.letters : Lexeme → List Char
  | .bare c | .escaped c | .quoted c => [c]
  | .quotedEscape c => if c = '"' || c = '\\' || c = '$' then [c] else ['\\', c]
  | .quotedDangling => ['\\']
  | .dangling | .opening _ | .closing _ => []

def Lexeme.isBlank : Lexeme → Bool
  | .bare c => Text.isBlank c
  | _ => false

def Lexeme.isOpening : Lexeme → Bool
  | .opening _ => true
  | _ => false

/-- Whether the lexemes between two blanks are a word: they have letters or quotes. -/
def isWord (lexemes : List Lexeme) : Bool := lexemes.any fun lexeme => !lexeme.letters.isEmpty || lexeme.isOpening

theorem isWord_eq (own : List Lexeme) :
    isWord own = (!(own.flatMap Lexeme.letters).isEmpty || own.any Lexeme.isOpening) := by
  induction own with
  | nil => rfl
  | cons lexeme own ih =>
    rw [isWord, List.any_cons, ← isWord, ih, List.flatMap_cons, List.any_cons]
    cases lexeme.letters <;> cases lexeme.isOpening <;> simp

def wordsOf (lexemes : List Lexeme) : List (List Char) :=
  ((lexemes.splitOnP Lexeme.isBlank).filter isWord).map fun word => word.flatMap Lexeme.letters

/-- Only characters that stand for themselves separate words. -/
theorem isBlank_eq_false_of_bare_notMem {own : List Lexeme} (h : ∀ c, Lexeme.bare c ∉ own) :
    ∀ lexeme ∈ own, lexeme.isBlank = false := by
  intro lexeme hLexeme
  cases lexeme with
  | bare c => exact absurd hLexeme (h c)
  | _ => rfl

/-- Lexemes without blanks are one word, if they have letters or quotes. -/
theorem wordsOf_of_unblank {own : List Lexeme} (hUnblank : ∀ lexeme ∈ own, lexeme.isBlank = false) :
    wordsOf own = if isWord own then [own.flatMap Lexeme.letters] else [] := by
  have hSplit : own.splitOnP Lexeme.isBlank = [own] :=
    List.splitOnP_eq_singleton fun lexeme hLexeme => by rw [hUnblank lexeme hLexeme]
  rw [wordsOf, hSplit, List.filter_cons]
  cases isWord own <;> rfl

theorem wordsOf_append_of_isBlank {blank : Lexeme} (h : blank.isBlank = true) (front back : List Lexeme) :
    wordsOf (front ++ blank :: back) = wordsOf front ++ wordsOf back := by
  rw [wordsOf, List.splitOnP_append_cons front back h, List.filter_append, List.map_append]
  rfl

theorem openQuote_append (start : Option Quote) (front back : List Lexeme) :
    openQuote start (front ++ back) = openQuote (openQuote start front) back :=
  List.foldl_append

end OptionShell.Line
