import Nock.Machine
import Nock.Noun.Parser
import Nock.Notebook.About
import Nock.Notebook.Command
import Nock.Notebook.Percent
import Nock.Notebook.Variables

/-!
# Kernels

A kernel keeps a subject and its last result.  It reads a text, does what the text asks for, and
answers with what it has to say.  The variables belong to the notebook and are shared by all its
kernels.

A command keeps what it computed **before** it prints it.  A result with too many digits is
therefore kept although the command is answered with a fault.

What a command does is said once, over the operations of a desk (`Deskwork`), so that it does not matter
how the nouns on the desk are held.
-/

namespace Nock.Notebook

/-- What a kernel keeps. -/
structure Kernel where
  subject : Noun := .atom 0
  last : Option Noun := none
  deriving DecidableEq, Repr, Inhabited

/-- What a command can see and change: a kernel, and the variables it shares with others. -/
structure Desk where
  kernel : Kernel := {}
  vars : Variables := []
  deriving DecidableEq, Repr, Inhabited

/-- Effects of a command.  What was changed before a failure stays changed. -/
abbrev CommandM := ExceptT Fault (StateM Desk)

namespace CommandM

/-- Read a noun from a text after replacing the variables. -/
def read (text : List Char) : CommandM Noun := do
  let text ← MonadExcept.ofExcept ((← get).vars.substitute text)
  MonadExcept.ofExcept (Noun.parseChars text)

/-- The text of a noun. -/
def write (n : Noun) : CommandM String :=
  MonadExcept.ofExcept (n.pretty false)

/-- Evaluate a formula against a subject. -/
def evaluate (bound : Nat) (subject formula : Noun) : CommandM Noun :=
  MonadExcept.ofExcept (Noun.nock bound subject formula)

/-- Keep a subject. -/
def setSubject (n : Noun) : CommandM Unit :=
  modify fun desk => { desk with kernel := { desk.kernel with subject := n } }

/-- Keep a result, or forget the last one. -/
def setLast (n : Option Noun) : CommandM Unit :=
  modify fun desk => { desk with kernel := { desk.kernel with last := n } }

/-- Define a variable. -/
def define (name : String) (value : Noun) : CommandM Unit :=
  modify fun desk => { desk with vars := desk.vars.set name value }

end CommandM

/-- One line for each variable. -/
def variableLines : Variables → Except Fault String
  | [] => pure ""
  | (name, value) :: rest => do
      let text ← value.pretty false
      let more ← variableLines rest
      pure ("  " ++ name ++ " = " ++ text ++ "\n" ++ more)

/-- The subject, the last result and all variables. -/
def overview (desk : Desk) : Except Fault String := do
  let subject ← desk.kernel.subject.pretty false
  let last ← match desk.kernel.last with
    | none => pure ""
    | some n => do
        let text ← n.pretty false
        pure ("Last result: " ++ text ++ "\n")
  let defined ← match desk.vars with
    | [] => pure "\nNo variables defined"
    | vars => do
        let lines ← variableLines vars
        pure ("\nVariables:\n" ++ lines)
  pure ("Subject: " ++ subject ++ "\n" ++ last ++ defined)

/-- What a command can do at a desk, where nouns are held as values of type `ρ`. -/
class Deskwork (m : Type → Type) (ρ : outParam Type) where
  /-- Read a noun from a text after replacing the variables. -/
  read : List Char → m ρ
  /-- The text of a noun. -/
  write : ρ → m String
  /-- The head and the tail of a cell. -/
  parts? : ρ → m (Option (ρ × ρ))
  /-- Evaluate a formula against a subject. -/
  evaluate : (bound : Nat) → (subject formula : ρ) → m ρ
  /-- The subject. -/
  subject : m ρ
  /-- The value of a variable. -/
  value? : (name : String) → m (Option ρ)
  /-- The subject, the last result and all variables as text. -/
  overview : m String
  /-- Keep a subject. -/
  setSubject : ρ → m Unit
  /-- Keep a result, or forget the last one. -/
  setLast : Option ρ → m Unit
  /-- Define a variable. -/
  define : (name : String) → (value : ρ) → m Unit

instance : Deskwork CommandM Noun where
  read := CommandM.read
  write := CommandM.write
  parts? n := pure n.parts?
  evaluate := CommandM.evaluate
  subject := return (← get).kernel.subject
  value? name := return (← get).vars.get? name
  overview := do MonadExcept.ofExcept (overview (← get))
  setSubject := CommandM.setSubject
  setLast := CommandM.setLast
  define := CommandM.define

section

open Deskwork

variable {m : Type → Type} {ρ : Type} [Monad m] [Deskwork m ρ]

/-- Do what a command asks for, and say so. -/
def perform (bound : Nat) : Command → m String
  | .apply text => do
      match ← parts? (← read text) with
      | none => pure "Error: .*() requires [subject formula]"
      | some (subject, formula) => do
          let result ← evaluate bound subject formula
          setLast (some result)
          setSubject subject
          write result
  | .subject text => do
      let subject ← read text
      setSubject subject
      return "Subject set to: " ++ (← write subject)
  | .formula text => do
      let formula ← read text
      let result ← evaluate bound (← Deskwork.subject) formula
      setLast (some result)
      write result
  | .nock text => do
      match ← parts? (← read text) with
      | none => pure "Error: :nock requires [subject formula]"
      | some (subject, formula) => do
          let result ← evaluate bound subject formula
          setLast (some result)
          write result
  | .showAll => Deskwork.overview
  | .showVariable name => do
      match ← value? name with
      | some value => return name ++ " = " ++ (← write value)
      | none => pure ("Variable '" ++ name ++ "' not found")
  | .help => pure About.help
  | .assign name text => do
      let value ← read text
      define name value
      return "Variable '" ++ name ++ "' set to: " ++ (← write value)
  | .malformed => do
      setLast none
      pure "Error: Invalid variable assignment syntax. Use :varname <noun>"

end

/-- Something a kernel says. -/
inductive Message where
  | output (text : String)
  | complaint (text : String)
  deriving DecidableEq, Repr

/-- The answer to a text: the fault if there was one, and what the kernel says. -/
structure Reply where
  fault : Option Fault := none
  messages : List Message := []
  deriving DecidableEq, Repr

/-- The answer that an outcome gives; a silent kernel says nothing.  A fault is named by its message
alone: the trace of calls that led to it, which follows the message and is part of the answer as well,
is left out. -/
def Reply.ofOutcome (silent : Bool) : Except Fault String → Reply
  | .ok text => ⟨none, if silent then [] else [.output (text ++ "\n")]⟩
  | .error fault =>
      ⟨some fault, if silent then [] else [.complaint ("Error: " ++ fault.message ++ "\n")]⟩

/-- Answer a text.  White space at its ends does not count, and a blank text asks for nothing. -/
def Desk.execute (bound : Nat) (silent : Bool) (code : List Char) (desk : Desk) : Reply × Desk :=
  let code := Text.strip code
  if code.isEmpty then
    ({}, desk)
  else
    let command := Command.ofChars (dropPercentChars code)
    let (outcome, desk) := (perform bound command : CommandM String).run.run desk
    (Reply.ofOutcome silent outcome, desk)

end Nock.Notebook
