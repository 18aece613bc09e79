import Nock.Noun.Printer
import Nock.Text.Word

/-!
# Variables

Variables are kept in the order in which they were first defined.  Before a text is read as a noun,
every occurrence of a variable's name **as a whole word** is replaced by the text of its value: there
must be a word boundary on both sides of the occurrence.  One variable is replaced after the other,
each in the text that the one before it has left.
-/

namespace Nock.Notebook

/-- Defined names with what they stand for, in the order of first definition. -/
abbrev Bindings (ρ : Type) := List (String × ρ)

namespace Bindings

variable {ρ : Type}

/-- The value of a variable. -/
def get? (vars : Bindings ρ) (name : String) : Option ρ :=
  vars.lookup name

/-- Define a variable.  A new name goes to the end, a known one keeps its place. -/
def set : Bindings ρ → (name : String) → (value : ρ) → Bindings ρ
  | [], name, value => [(name, value)]
  | (other, old) :: rest, name, value =>
      if other = name then (name, value) :: rest else (other, old) :: set rest name value

end Bindings

/-- The defined names and their values. -/
abbrev Variables := Bindings Noun

/-- Does the text begin with the name, with a word boundary on both sides?  `before` is the
character in front of the text. -/
def occursHere (name : List Char) (before : Option Char) (text : List Char) : Bool :=
  name.isPrefixOf text
    && Text.isBoundary before text.head?
    && Text.isBoundary name.getLast? (text.drop name.length).head?

/-- Replace the name in a text, from left to right.  `skip` is the number of characters still to be
passed over because they belong to an occurrence that was replaced, and `before` is the character in
front of the text. -/
def replaceFrom (name value : List Char) :
    (skip : Nat) → (before : Option Char) → List Char → List Char
  | _, _, [] => []
  | skip + 1, _, c :: rest => replaceFrom name value skip (some c) rest
  | 0, before, c :: rest =>
      if occursHere name before (c :: rest) then
        value ++ replaceFrom name value (name.length - 1) (some c) rest
      else
        c :: replaceFrom name value 0 (some c) rest

/-- Replace every occurrence of a name as a whole word. -/
def replaceWord (name value text : List Char) : List Char :=
  replaceFrom name value 0 none text

/-- Replace every variable by the text of its value. -/
def Variables.substitute (vars : Variables) (text : List Char) : Except Fault (List Char) :=
  vars.foldlM (fun text (name, value) => do
    return replaceWord name.toList (← value.pretty false).toList text) text

end Nock.Notebook
