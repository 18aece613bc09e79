import Nock.Text.Blank

/-!
# Commands

What a text asks a kernel to do.  A command word counts even when something follows it without a
space, so `:subject5` sets the subject; only a text that begins with none of the command words and
still begins with a colon defines a variable.  Everything else is a formula.
-/

namespace Nock.Notebook

/-- What a kernel is asked to do.  Texts are still to be read as nouns. -/
inductive Command where
  /-- Evaluate a formula against a subject given with it, and keep the subject. -/
  | apply (text : List Char)
  /-- Set the subject. -/
  | subject (text : List Char)
  /-- Evaluate a formula against the subject. -/
  | formula (text : List Char)
  /-- Evaluate a formula against a subject given with it. -/
  | nock (text : List Char)
  /-- Show everything. -/
  | showAll
  /-- Show a variable. -/
  | showVariable (name : String)
  /-- Show the commands. -/
  | help
  /-- Define a variable. -/
  | assign (name : String) (text : List Char)
  /-- A definition that is not understood. -/
  | malformed
  deriving DecidableEq, Repr

/-- What follows `start` in a text that begins with it. -/
def after? : (start text : List Char) → Option (List Char)
  | [], text => some text
  | _, [] => none
  | s :: start, c :: text => if s = c then after? start text else none

/-- May the character begin the name of a variable? -/
def isNameStart (c : Char) : Bool :=
  c.isAlpha || c == '_'

/-- May the character stand in the name of a variable? -/
def isNameChar (c : Char) : Bool :=
  c.isAlphanum || c == '_' || c == '-'

/-- The name and the value text of a definition, from what follows its colon.  White space must
separate the two, and the value ends with its line. -/
def assignment? (text : List Char) : Option (String × List Char) :=
  let text := Text.stripLeft text
  let name := text.takeWhile isNameChar
  let rest := text.dropWhile isNameChar
  let value := (Text.stripLeft rest).takeWhile (· != '\n')
  if name.head?.any isNameStart && rest.head?.any Text.isBlank && !value.isEmpty then
    some (String.ofList name, Text.strip value)
  else
    none

/-- The text between the parentheses of `.*( … )`. -/
def applied? (text : List Char) : Option (List Char) := do
  let rest ← after? ".*(".toList text
  if rest.getLast? = some ')' then some (Text.strip rest.dropLast) else none

/-- What a text that begins with the command word for showing asks for. -/
def shown (text : List Char) : Command :=
  match (Text.splitBlank text).2 with
  | [] => .showAll
  | name => .showVariable (String.ofList (Text.strip name))

/-- The command that a text without white space at its ends gives. -/
def Command.ofChars (text : List Char) : Command :=
  if let some inner := applied? text then .apply inner
  else if let some rest := after? ":subject".toList text then .subject (Text.strip rest)
  else if let some rest := after? ":formula".toList text then .formula (Text.strip rest)
  else if let some rest := after? ":nock".toList text then .nock (Text.strip rest)
  else if (after? ":show".toList text).isSome then shown text
  else if (after? ":help".toList text).isSome then .help
  else if let some rest := after? ":".toList text then
    match assignment? rest with
    | some (name, value) => .assign name value
    | none => .malformed
  else .formula text

end Nock.Notebook
