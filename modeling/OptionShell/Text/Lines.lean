/-!
# Lines

Text is cut into lines after each line feed. The last line may lack its line feed; an empty rest is no line. The
cut itself loses nothing: the pieces concatenate to the text.
-/
namespace OptionShell.Text

/-- Cuts a list after each element that `p` accepts. -/
def cutAfter {α : Type} (p : α → Bool) : List α → List (List α)
  | [] => []
  | c :: rest =>
    if p c then [c] :: cutAfter p rest
    else match cutAfter p rest with
      | [] => [[c]]
      | piece :: pieces => (c :: piece) :: pieces

theorem flatten_cutAfter {α : Type} (p : α → Bool) (text : List α) : (cutAfter p text).flatten = text := by
  induction text with
  | nil => rfl
  | cons c rest ih =>
    rw [cutAfter]
    split
    · simp [ih]
    · split <;> simp_all

/-- A line without its line feed, and without one carriage return before that line feed. -/
def dropTerminator (line : List Char) : List Char :=
  match line.reverse with
  | '\n' :: '\r' :: body => body.reverse
  | '\n' :: body => body.reverse
  | _ => line

def lines (text : List Char) : List (List Char) := (cutAfter (· = '\n') text).map dropTerminator

/-- A line without the line feeds and carriage returns at its end. -/
def dropLineEnd (line : List Char) : List Char :=
  (line.reverse.dropWhile fun c => c = '\n' || c = '\r').reverse

end OptionShell.Text
