/-!
# Quotes

Single quotes protect everything up to the next single quote. Double quotes protect everything but backslashes and
references.
-/
namespace OptionShell.Line

inductive Quote where
  | single
  | double
deriving DecidableEq, Repr

def Quote.mark : Quote → Char
  | single => '\''
  | double => '"'

end OptionShell.Line
