import OptionShell.Options.Flags
import OptionShell.Text.Column
import OptionShell.Text.Lines

/-!
# Listings

Options are shown as a name with its state, as the command that would bring the state about, or as a help text of
three lengths. A listing holds the visible options that have the kind of key its style needs.
-/
namespace OptionShell

inductive Style where
  | columns
  /-- As `set -x` or `set +x`. -/
  | letterCommand
  /-- As `set -o name` or `set +o name`. -/
  | setCommand
  /-- As `shopt -s name` or `shopt -u name`. -/
  | shoptCommand
  | summary
  | description
  /-- The description with the commands that show and change the option. -/
  | manual
deriving DecidableEq, Repr

namespace Style

def ofLevel : Nat → Style
  | 0 | 1 => summary
  | 2 => description
  | _ => manual

def usesLetter (style : Style) : Bool := style = letterCommand

end Style

def nameColumn : Nat := 23

def onOffText (on : Bool) : String := if on then "on" else "off"

/-- Whether the bit of a value is set in a mask. A value outside the mask has no bit. -/
def isMasked (mask : UInt64) (value? : Option Int32) : Bool :=
  value?.any fun value => 0 ≤ value && mask.toNat.testBit value.toInt.toNat

namespace Definition

variable {σ : Type}

def onOffLine (name : String) (on : Bool) : String := Text.padRight nameColumn name ++ "\t" ++ onOffText on

def flagText (letter : Char) (on : Bool) : String := String.singleton (Flag.sign on) ++ String.singleton letter

def summary (d : Definition σ) (on : Bool) : String :=
  match d.name?, d.letter? with
  | some name, some letter => onOffLine name on ++ "\t" ++ flagText letter on
  | some name, none => onOffLine name on
  | none, some letter => flagText letter on
  | none, none => "(This option has no name)"

def helpLines (d : Definition σ) : String :=
  match d.help? with
  | some help => String.join ((Text.lines help.toList).map fun line => "\t" ++ String.ofList line ++ "\n")
  | none => ""

def description (d : Definition σ) (on : Bool) : String :=
  "\n" ++ d.summary on ++ "\n" ++ (if d.readonly then "\n\t(This option is read-only.)\n" else "") ++ d.helpLines

/-- How scripts can ask for the state of the option. -/
def queryLines (d : Definition σ) : String :=
  let byName := match d.name? with
    | some name =>
      "\t\tshopt -q " ++ name ++ "\n" ++
        (if d.inBashopts then "\t\t[[ :$BASHOPTS: = *:" ++ name ++ ":* ]]\n" else "") ++
        (if d.inShellopts then "\t\t[[ :$SHELLOPTS: = *:" ++ name ++ ":* ]]\n" else "")
    | none => ""
  let byLetter := match d.letter? with
    | some letter => "\t\t[[ $- = *'" ++ String.singleton letter ++ "'* ]]\n"
    | none => ""
  "\n\tQuery:\n" ++ byName ++ byLetter

/-- The commands that turn the option on, or off. -/
def changeLines (d : Definition σ) (on : Bool) : String :=
  let heading := if on then "Turn on" else "Turn off"
  let shoptLetter := if on then "s" else "u"
  let sign := String.singleton (Flag.sign on)
  let byName := match d.name? with
    | some name => "\t\tshopt -" ++ shoptLetter ++ " " ++ name ++ "\n\t\tset " ++ sign ++ "o " ++ name ++ "\n"
    | none => ""
  let byLetter := match d.letter? with
    | some letter => "\t\tset " ++ sign ++ String.singleton letter ++ "\n"
    | none => ""
  "\n\t" ++ heading ++ ":\n" ++ byName ++ byLetter

def manual (d : Definition σ) (on : Bool) : String :=
  let display := match d.name? with
    | some name => "\n\tDisplay:\n\t\tshopt -P " ++ name ++ "\n"
    | none => ""
  d.description on ++ display ++ d.queryLines ++
    (if d.readonly then "" else d.changeLines true ++ d.changeLines false)

/-- The option in a style, as it reads when it is on or off. -/
def render (d : Definition σ) (style : Style) (on : Bool) : String :=
  let name := d.name?.getD ""
  match style with
  | .columns => onOffLine name on
  | .letterCommand => "set " ++ flagText (d.letter?.getD ' ') on
  | .setCommand => "set " ++ String.singleton (Flag.sign on) ++ "o " ++ name
  | .shoptCommand => "shopt -" ++ (if on then "s" else "u") ++ " " ++ name
  | .summary => d.summary on
  | .description => d.description on
  | .manual => d.manual on

end Definition

def dropLineFeeds (text : String) : String :=
  String.ofList (text.toList.reverse.dropWhile (· = '\n')).reverse

namespace Options

variable {σ : Type}

def display (s : Options σ) (d : Definition σ) (why : Access) (style : Style) : String :=
  dropLineFeeds (d.render style (s.isOn d why))

/-- One option, unless the mask holds the bit of its value. -/
def displayUnless (s : Options σ) (d : Definition σ) (why : Access) (mask : UInt64) (style : Style) : Option String :=
  if isMasked mask (s.get d why) then none else some (s.display d why style)

/-- The options that a listing of this style can show. -/
def listable (s : Options σ) (why : Access) (style : Style) : List (Definition σ) :=
  (s.registry.visible why).filter fun d => if style.usesLetter then d.letter?.isSome else d.name?.isSome

/-- The listing of the visible options, without those whose value the mask hides. -/
def listing (s : Options σ) (why : Access) (mask : UInt64) (style : Style) : String :=
  Text.joinLines ((s.listable why style).filterMap fun d => s.displayUnless d why mask style)

end Options

end OptionShell
