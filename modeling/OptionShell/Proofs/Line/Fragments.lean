import OptionShell.Proofs.Line.DoubleQuotes

/-!
# Commands with references

A command is written as plain runs, escapes and references, as texts in single quotes, and as texts in double quotes,
which have plain runs, escapes and references in turn. Expansion reads exactly these references in it, and everything
else as plain text.
-/
namespace OptionShell.Line

/-! ## The grammar -/

/-- How a reference is written. -/
inductive Spelling where
  | status
  | flags
  /-- A name between braces. -/
  | braced (name : List Char)
  /-- A name without braces. -/
  | bare (name : List Char)
deriving DecidableEq, Repr

/-- What is read alike outside quotes and between double quotes. -/
inductive Run where
  | plain (text : List Char)
  | escape (c : Char)
  | reference (spelling : Spelling)
deriving DecidableEq, Repr

inductive Fragment where
  | unquoted (run : Run)
  | singleQuoted (text : List Char)
  | doubleQuoted (runs : List Run)
deriving DecidableEq, Repr

namespace Spelling

def source : Spelling → List Char
  | status => ['$', '?']
  | flags => ['$', '-']
  | braced name => '$' :: '{' :: (name ++ ['}'])
  | bare name => '$' :: name

def reference : Spelling → Reference
  | status => .status
  | flags => .flags
  | braced name | bare name => .variableNamed name

/-- A name is a run of name characters. Without braces it goes on as long as they do. -/
def Fits (rest : List Char) : Spelling → Prop
  | status | flags => True
  | braced name => name ≠ [] ∧ ∀ c ∈ name, isNameChar c = true
  | bare name => name ≠ [] ∧ (∀ c ∈ name, isNameChar c = true) ∧ ∀ c ∈ rest.head?, isNameChar c = false

instance (rest : List Char) : (spelling : Spelling) → Decidable (spelling.Fits rest)
  | status | flags => .isTrue trivial
  | braced name =>
    have := List.decidableBAll (fun c => isNameChar c = true) name
    inferInstanceAs (Decidable (_ ∧ _))
  | bare name =>
    have := List.decidableBAll (fun c => isNameChar c = true) name
    have : Decidable (∀ c ∈ rest.head?, isNameChar c = false) := Option.decidableForallMem _
    inferInstanceAs (Decidable (_ ∧ _ ∧ _))

end Spelling

/-- Whether each of some items fits the text that comes after it. -/
def AllFit {β : Type} (fits : List Char → β → Prop) (source : β → List Char) : List β → List Char → Prop
  | [], _ => True
  | item :: items, rest => fits (items.flatMap source ++ rest) item ∧ AllFit fits source items rest

instance {β : Type} (fits : List Char → β → Prop) [∀ rest item, Decidable (fits rest item)]
    (source : β → List Char) : (items : List β) → (rest : List Char) → Decidable (AllFit fits source items rest)
  | [], _ => .isTrue trivial
  | _ :: items, rest =>
    have := instDecidableAllFit fits source items rest
    inferInstanceAs (Decidable (_ ∧ _))

namespace Run

/-- The text of a run in which references are written by `spell`. -/
def written (spell : Spelling → List Char) : Run → List Char
  | plain text => text
  | escape c => ['\\', c]
  | reference spelling => spell spelling

def references : Run → List Reference
  | plain _ | escape _ => []
  | reference spelling => [spelling.reference]

/-- Plain text has none of the marks. -/
def Fits (marks rest : List Char) : Run → Prop
  | plain text => ∀ c ∈ text, c ∉ marks
  | escape _ => True
  | reference spelling => spelling.Fits rest

instance (marks rest : List Char) : (run : Run) → Decidable (run.Fits marks rest)
  | plain text => List.decidableBAll (fun c => c ∉ marks) text
  | escape _ => .isTrue trivial
  | reference spelling => inferInstanceAs (Decidable (spelling.Fits rest))

end Run

namespace Fragment

def written (spell : Spelling → List Char) : Fragment → List Char
  | unquoted run => run.written spell
  | singleQuoted text => '\'' :: (text ++ ['\''])
  | doubleQuoted runs => '"' :: (runs.flatMap (Run.written spell) ++ ['"'])

def references : Fragment → List Reference
  | unquoted run => run.references
  | singleQuoted _ => []
  | doubleQuoted runs => runs.flatMap Run.references

/-- Between double quotes single quotes are plain text, and between single quotes all else is. -/
def Fits (rest : List Char) : Fragment → Prop
  | unquoted run => run.Fits ['\'', '"', '\\', '$'] rest
  | singleQuoted text => '\'' ∉ text
  | doubleQuoted runs => AllFit (Run.Fits ['"', '\\', '$']) (Run.written Spelling.source) runs ('"' :: rest)

instance (rest : List Char) : (fragment : Fragment) → Decidable (fragment.Fits rest)
  | unquoted run => inferInstanceAs (Decidable (run.Fits _ rest))
  | singleQuoted _ => inferInstanceAs (Decidable (¬_))
  | doubleQuoted runs => inferInstanceAs (Decidable (AllFit _ _ runs _))

end Fragment

/-- The text of a command in which references are written by `spell`. -/
def written (spell : Spelling → List Char) (fragments : List Fragment) : List Char :=
  fragments.flatMap (Fragment.written spell)

def references (fragments : List Fragment) : List Reference := fragments.flatMap Fragment.references

/-- The fragments are read apart when they are written one after the other. -/
def Fitting (fragments : List Fragment) : Prop :=
  AllFit Fragment.Fits (Fragment.written Spelling.source) fragments []

instance (fragments : List Fragment) : Decidable (Fitting fragments) := inferInstanceAs (Decidable (AllFit _ _ _ _))

/-! ## Reading the grammar -/

variable {quote : Option Quote} {rest : List Char}

/-- The plain pieces of a text, a piece for each character. -/
def plainPieces (text : List Char) : List Piece := text.map fun c => .plain [c]

def Run.pieces : Run → List Piece
  | plain text => plainPieces text
  | escape c => [.plain ['\\', c]]
  | reference spelling => [.reference spelling.reference]

def Fragment.pieces : Fragment → List Piece
  | unquoted run => run.pieces
  | singleQuoted text => .plain ['\''] :: (plainPieces text ++ [.plain ['\'']])
  | doubleQuoted runs => .plain ['"'] :: (runs.flatMap Run.pieces ++ [.plain ['"']])

/-- Items that are read one by one are read in a row. -/
theorem piecesOf_flatMap {β : Type} {fits : List Char → β → Prop} {source : β → List Char} {items : List β}
    (h : AllFit fits source items rest) {pieces : β → List Piece}
    (hEach : ∀ item rest, fits rest item →
      piecesOf quote (source item ++ rest) = pieces item ++ piecesOf quote rest) :
    piecesOf quote (items.flatMap source ++ rest) = items.flatMap pieces ++ piecesOf quote rest := by
  induction items with
  | nil => rfl
  | cons item items ih =>
    rw [List.flatMap_cons, List.flatMap_cons, List.append_assoc, List.append_assoc, hEach item _ h.1, ih h.2]

theorem piecesOf_plainPieces {text : List Char}
    (h : ∀ c ∈ text,
      quoteAfter quote c = quote ∧ (c = '\\' → quote = some .single) ∧ (c = '$' → quote = some .single)) :
    piecesOf quote (text ++ rest) = plainPieces text ++ piecesOf quote rest := by
  induction text with
  | nil => rfl
  | cons c text ih =>
    obtain ⟨⟨hQuote, hEscape, hReference⟩, hText⟩ := List.forall_mem_cons.mp h
    rw [List.cons_append, piecesOf_cons hEscape hReference, hQuote, ih hText]
    rfl

/-- A character that is no mark of its own kind leaves the quotes as they are. -/
theorem quoteAfter_eq_self {c : Char} (hSingle : c = '\'' → quote = some .double)
    (hDouble : c = '"' → quote = some .single) : quoteAfter quote c = quote := by
  rw [quoteAfter.eq_5] <;> intro hQuote hMark
  · cases hQuote.symm.trans (hSingle hMark)
  · cases hQuote.symm.trans (hDouble hMark)
  · cases hQuote.symm.trans (hSingle hMark)
  · cases hQuote.symm.trans (hDouble hMark)

theorem reference?_braced {name : List Char} (hChars : ∀ c ∈ name, isNameChar c = true) (rest : List Char) :
    reference? ('{' :: (name ++ ['}']) ++ rest) = some (.variableNamed name, rest) := by
  have hName : ∀ c ∈ name, decide (c ≠ '}') = true := by
    intro c hc
    refine decide_eq_true ?_
    rintro rfl
    cases hChars _ hc
  have hTake : (name ++ '}' :: rest).takeWhile (· ≠ '}') = name := by
    rw [List.takeWhile_append_of_pos hName, List.takeWhile_cons_of_neg (by decide), List.append_nil]
  have hDrop : (name ++ '}' :: rest).dropWhile (· ≠ '}') = '}' :: rest := by
    rw [List.dropWhile_append_of_pos hName, List.dropWhile_cons_of_neg (by decide)]
  have hClosed : (name ++ '}' :: rest).contains '}' = true :=
    List.contains_iff_mem.mpr (List.mem_append_right name List.mem_cons_self)
  rw [List.cons_append, List.append_assoc, List.singleton_append, reference?, if_pos hClosed, hTake, hDrop]
  rfl

theorem Spelling.piecesOf_source (hQuote : quote ≠ some .single) {spelling : Spelling} (h : spelling.Fits rest) :
    piecesOf quote (spelling.source ++ rest) = .reference spelling.reference :: piecesOf quote rest := by
  cases spelling with
  | status => exact piecesOf_reference hQuote rfl
  | flags => exact piecesOf_reference hQuote rfl
  | braced name => exact piecesOf_reference hQuote (reference?_braced h.2 rest)
  | bare name => exact piecesOf_reference hQuote (reference?_name h.1 h.2.1 h.2.2)

/-- Outside quotes and between double quotes runs are read alike. -/
theorem Run.piecesOf_written {marks : List Char} (hQuote : quote ≠ some .single) (hBackslash : '\\' ∈ marks)
    (hDollar : '$' ∈ marks) (hMarks : ∀ c, c ∉ marks → quoteAfter quote c = quote) {run : Run}
    (h : run.Fits marks rest) :
    piecesOf quote (run.written Spelling.source ++ rest) = run.pieces ++ piecesOf quote rest := by
  cases run with
  | plain text =>
    refine piecesOf_plainPieces fun c hc => ⟨hMarks c (h c hc), ?_, ?_⟩
    · rintro rfl
      exact absurd hBackslash (h _ hc)
    · rintro rfl
      exact absurd hDollar (h _ hc)
  | escape c => exact piecesOf_escape hQuote c rest
  | reference spelling => exact Spelling.piecesOf_source hQuote h

theorem Fragment.piecesOf_written {fragment : Fragment} (h : fragment.Fits rest) :
    piecesOf none (fragment.written Spelling.source ++ rest) = fragment.pieces ++ piecesOf none rest := by
  cases fragment with
  | unquoted run =>
    refine Run.piecesOf_written (by decide) (by decide) (by decide) (fun c hc => ?_) h
    exact quoteAfter_eq_self (fun hMark => absurd (by simp [hMark]) hc) fun hMark => absurd (by simp [hMark]) hc
  | singleQuoted text =>
    have hText : ∀ c ∈ text, quoteAfter (some .single) c = some .single := fun c hc =>
      quoteAfter_eq_self (fun hMark => absurd (hMark ▸ hc) h) fun _ => rfl
    have hPieces : piecesOf (some .single) (text ++ '\'' :: rest) =
        plainPieces text ++ piecesOf (some .single) ('\'' :: rest) :=
      piecesOf_plainPieces fun c hc => ⟨hText c hc, fun _ => rfl, fun _ => rfl⟩
    rw [piecesOf_cons (fun _ => rfl) fun _ => rfl] at hPieces
    rw [written, List.cons_append, List.append_assoc, piecesOf_cons (by decide) (by decide)]
    change _ :: piecesOf (some .single) (text ++ '\'' :: rest) = _
    rw [hPieces, pieces, List.cons_append, List.append_assoc]
    rfl
  | doubleQuoted runs =>
    have hMarks : ∀ c, c ∉ ['"', '\\', '$'] → quoteAfter (some .double) c = some .double := fun c hc =>
      quoteAfter_eq_self (fun _ => rfl) fun hMark => absurd (by simp [hMark]) hc
    have hFits : AllFit (Run.Fits ['"', '\\', '$']) (Run.written Spelling.source) runs ('"' :: rest) := h
    have hRuns := piecesOf_flatMap hFits fun _ _ =>
      Run.piecesOf_written (by decide) (by decide) (by decide) hMarks
    rw [piecesOf_cons (by decide) (by decide)] at hRuns
    rw [written, List.cons_append, List.append_assoc, piecesOf_cons (by decide) (by decide)]
    change _ :: piecesOf (some .double) (_ ++ '"' :: rest) = _
    rw [hRuns, pieces, List.cons_append, List.append_assoc]
    rfl

theorem pieces_written {fragments : List Fragment} (h : Fitting fragments) :
    pieces (written Spelling.source fragments) = fragments.flatMap Fragment.pieces := by
  have hFits : AllFit Fragment.Fits (Fragment.written Spelling.source) fragments [] := h
  have hRead := piecesOf_flatMap hFits fun _ _ => Fragment.piecesOf_written
  rw [List.append_nil, piecesOf, List.append_nil] at hRead
  exact hRead

/-! ## Replacing the references -/

section Expansion

variable {ε : Type} {resolve : Reference → Except ε (List Char)} {value : Reference → List Char}
  {fault? : Reference → Option ε}

def Piece.shown (value : Reference → List Char) : Piece → List Char
  | plain text => text
  | reference r => value r

def Piece.references : Piece → List Reference
  | plain _ => []
  | reference r => [r]

/-- The first reference with a fault decides the error, and without one each reference has its value. -/
theorem expandPieces_eq (hResolve : ∀ r, resolve r = (fault? r).elim (.ok (value r)) .error) (own : List Piece) :
    expandPieces resolve own =
      ((own.flatMap Piece.references).findSome? fault?).elim (.ok (own.flatMap (Piece.shown value))) .error := by
  induction own with
  | nil => rfl
  | cons piece own ih =>
    cases piece with
    | plain text =>
      rw [expandPieces, ih]
      change _ = ((own.flatMap Piece.references).findSome? fault?).elim _ _
      cases (own.flatMap Piece.references).findSome? fault? <;> rfl
    | reference r =>
      rw [expandPieces, ih, hResolve]
      change _ = ((r :: own.flatMap Piece.references).findSome? fault?).elim _ _
      rw [List.findSome?_cons]
      cases fault? r with
      | some error => rfl
      | none => cases (own.flatMap Piece.references).findSome? fault? <;> rfl

theorem shown_plainPieces (text : List Char) : (plainPieces text).flatMap (Piece.shown value) = text := by
  rw [plainPieces, List.flatMap_map]
  exact List.flatMap_singleton' text

theorem references_plainPieces (text : List Char) : (plainPieces text).flatMap Piece.references = [] := by
  rw [plainPieces, List.flatMap_map]
  exact List.flatMap_eq_nil_iff.mpr fun _ _ => rfl

theorem Run.shown_pieces (run : Run) :
    run.pieces.flatMap (Piece.shown value) = run.written fun spelling => value spelling.reference := by
  cases run with
  | plain text => exact shown_plainPieces text
  | escape c => rfl
  | reference spelling => exact List.append_nil _

theorem Run.references_pieces (run : Run) : run.pieces.flatMap Piece.references = run.references := by
  cases run with
  | plain text => exact references_plainPieces text
  | escape c | reference spelling => rfl

theorem Fragment.shown_pieces (fragment : Fragment) :
    fragment.pieces.flatMap (Piece.shown value) = fragment.written fun spelling => value spelling.reference := by
  cases fragment with
  | unquoted run => exact run.shown_pieces
  | singleQuoted text =>
    rw [pieces, List.flatMap_cons, List.flatMap_append, shown_plainPieces]
    rfl
  | doubleQuoted runs =>
    rw [pieces, List.flatMap_cons, List.flatMap_append, List.flatMap_assoc, funext Run.shown_pieces]
    rfl

theorem Fragment.references_pieces (fragment : Fragment) :
    fragment.pieces.flatMap Piece.references = fragment.references := by
  cases fragment with
  | unquoted run => exact run.references_pieces
  | singleQuoted text =>
    rw [pieces, List.flatMap_cons, List.flatMap_append, references_plainPieces]
    rfl
  | doubleQuoted runs =>
    rw [pieces, List.flatMap_cons, List.flatMap_append, List.flatMap_assoc, funext Run.references_pieces]
    exact List.append_nil _

theorem expand_written {fragments : List Fragment} (h : Fitting fragments)
    (hResolve : ∀ r, resolve r = (fault? r).elim (.ok (value r)) .error) :
    expand resolve (written Spelling.source fragments) =
      ((references fragments).findSome? fault?).elim
        (.ok (written (fun spelling => value spelling.reference) fragments)) .error := by
  rw [expand, pieces_written h, expandPieces_eq hResolve, List.flatMap_assoc, List.flatMap_assoc,
    funext Fragment.references_pieces, funext Fragment.shown_pieces]
  rfl

end Expansion

end OptionShell.Line
