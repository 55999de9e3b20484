import OptionShell.Line.LineError
import OptionShell.Line.Quote
import OptionShell.Text.Blank

/-!
# Words of a command

Words are separated by blanks outside quotes. A pair of quotes makes a word even if it is empty. Inside double quotes
a backslash protects only quotes, backslashes and dollar signs, and otherwise stands for itself.
-/
namespace OptionShell.Line

/-- What is wrong with a command that leaves quotes open. -/
def Quote.unterminated : Quote → LineError
  | single => .unterminatedSingleQuote
  | double => .unterminatedDoubleQuote

/-- What a reader of words has read: the words that are done, and the letters of the one after them. -/
structure WordReader where
  words : Array (List Char) := #[]
  letters : Array Char := #[]
  /-- Whether quotes were opened since the last blank: they make a word even without letters. -/
  quoted : Bool := false

namespace WordReader

def push (r : WordReader) (c : Char) : WordReader := { r with letters := r.letters.push c }

def opened (r : WordReader) : WordReader := { r with quoted := true }

def endWord (r : WordReader) : WordReader :=
  if !r.letters.isEmpty || r.quoted then ⟨r.words.push r.letters.toList, #[], false⟩ else r

/-- Reads the words of the rest of a command, from inside the given quotes or from outside quotes. Inside double quotes
a backslash looks at the next character, and takes it only if it protects it. -/
def read : Option Quote → WordReader → List Char → Except LineError (List (List Char))
  | none, r, [] => .ok r.endWord.words.toList
  | some quote, _, [] => .error quote.unterminated
  | some .single, r, '\'' :: rest => read none r rest
  | some .single, r, c :: rest => read (some .single) (r.push c) rest
  | some .double, r, '"' :: rest => read none r rest
  | some .double, r, '\\' :: '"' :: rest => read (some .double) (r.push '"') rest
  | some .double, r, '\\' :: '\\' :: rest => read (some .double) (r.push '\\') rest
  | some .double, r, '\\' :: '$' :: rest => read (some .double) (r.push '$') rest
  | some .double, r, c :: rest => read (some .double) (r.push c) rest
  | none, r, '\'' :: rest => read (some .single) r.opened rest
  | none, r, '"' :: rest => read (some .double) r.opened rest
  | none, r, ['\\'] => .ok r.endWord.words.toList
  | none, r, '\\' :: c :: rest => read none (r.push c) rest
  | none, r, c :: rest => read none (if Text.isBlank c then r.endWord else r.push c) rest

end WordReader

def words (command : List Char) : Except LineError (List (List Char)) := WordReader.read none {} command

end OptionShell.Line
