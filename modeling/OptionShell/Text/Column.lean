/-!
# Columns

Left-aligned columns of listings. Widths count characters, and a text that is wider than its column keeps all of
its characters.
-/
namespace OptionShell.Text

/-- Fills a text up to `width` characters with spaces on the right. -/
def padRight (width : Nat) (text : String) : String :=
  text ++ String.ofList (List.replicate (width - text.length) ' ')

def joinLines (texts : List String) : String := "\n".intercalate texts

end OptionShell.Text
