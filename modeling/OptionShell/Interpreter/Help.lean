import OptionShell.Interpreter.Command

/-!
# Help

`help` lists the commands by category, and describes one command. The two commands that the interpreter runs itself
are listed with the general ones.
-/
namespace OptionShell

abbrev CommandTable (α : Type) := Table String (Command α)

/-- The commands that the interpreter runs itself, with their descriptions. -/
def interpreterCommands : List (String × String) :=
  [("help", "List available commands"), ("scope", "Run a command line in a nested option scope")]

namespace CommandTable

variable {α : Type}

/-- Adds a command; it replaces one of the same name. -/
def add (command : Command α) (commands : CommandTable α) : CommandTable α := commands.insert command.name command

def addAll (added : List (Command α)) (commands : CommandTable α) : CommandTable α :=
  added.foldl (fun commands command => commands.add command) commands

def summaries (commands : CommandTable α) : List (String × String) :=
  commands.values.map fun command => (command.name, command.description)

def addToCategory (categories : Table String (List (String × String))) (category : String)
    (entry : String × String) : Table String (List (String × String)) :=
  categories.insert category ((categories.find? category).getD [] ++ [entry])

def categories (commands : CommandTable α) : Table String (List (String × String)) :=
  let own := interpreterCommands.foldl (fun table entry => addToCategory table "general" entry) .empty
  commands.values.foldl
    (fun table command => addToCategory table command.category (command.name, command.description)) own

def categoryText (category : String) (entries : List (String × String)) : String :=
  let sorted := entries.mergeSort fun a b => (compare a.1 b.1).isLE
  "\n  [" ++ category ++ "]\n" ++
    String.join (sorted.map fun e => "    " ++ Text.padRight 12 e.1 ++ " " ++ e.2 ++ "\n")

def overview (commands : CommandTable α) : String :=
  let sections := commands.categories.entries.map fun e => categoryText e.1 e.2
  "Commands (" ++ toString (interpreterCommands.length + commands.size) ++ "):\n" ++ String.join sections ++
    "\nType 'help <command>' for details."

def topic (commands : CommandTable α) (name : String) : Except ShellError String :=
  match interpreterCommands.lookup name with
  | some description => .ok (name ++ " (general)\n  " ++ description)
  | none =>
    match commands.find? name with
    | some command =>
      .ok (command.name ++ " (" ++ command.category ++ ")\n  " ++ command.description ++ "\n  Usage: " ++
        command.usage)
    | none => .error (.command ("help: no help topics match `" ++ name ++ "'"))

/-- What `help` answers. Arguments after the first count for nothing. -/
def help (commands : CommandTable α) : List String → Except ShellError Output
  | [] => .ok (.text commands.overview)
  | name :: _ => (commands.topic name).map .text

end CommandTable

end OptionShell
