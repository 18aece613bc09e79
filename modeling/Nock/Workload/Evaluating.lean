import Nock.Machine
import Nock.Workload.Report

/-!
# Evaluating formulas

Each opcode is used once, then a loop that counts a number down from above.
-/

namespace Nock.Workload

/-- A formula to be evaluated against a subject, both as text. -/
structure Example where
  name : String
  subject : String
  formula : String

/-- One example for each opcode, or two. -/
def examples : List Example := [
  ⟨"autocons", "[1 2 3 4 5 6 7 8]", "[[0 2] 0 3]"⟩,
  ⟨"op0", "[1 2 3 4 5 6 7 8]", "[0 7]"⟩,
  ⟨"op1", "[1 2 3 4 5 6 7 8]", "[1 42]"⟩,
  ⟨"op2", "[1 2 3 4 5 6 7 8]", "[2 [0 1] 1 0 2]"⟩,
  ⟨"op3a", "[1 2 3 4 5 6 7 8]", "[3 0 1]"⟩,
  ⟨"op3b", "5", "[3 0 1]"⟩,
  ⟨"op4", "10", "[4 0 1]"⟩,
  ⟨"op5", "[1 2 3 4 5 6 7 8]", "[5 [0 2] 0 2]"⟩,
  ⟨"op6t", "0", "[6 [1 0] [1 8] 1 9]"⟩,
  ⟨"op6f", "0", "[6 [1 1] [1 8] 1 9]"⟩,
  ⟨"op7", "[1 2 3 4 5 6 7 8]", "[7 [0 3] 0 2]"⟩,
  ⟨"op8", "5", "[8 [4 0 1] 0 1]"⟩,
  ⟨"op10", "[1 2 3 4 5 6 7 8]", "[10 [2 1 99] 0 1]"⟩,
  ⟨"op11a", "[1 2 3 4 5 6 7 8]", "[11 1 [0 2]]"⟩,
  ⟨"op11b", "[1 2 3 4 5 6 7 8]", "[11 [1 [1 0]] [0 2]]"⟩]

/-- The formula that subtracts one from its subject.  It counts up from 0 until the next number is
the subject. -/
def decrementText : String :=
  "[8 [1 0] 8 [1 6 [5 [0 7] 4 0 6] [0 6] 9 2 [0 2] [4 0 6] 0 7] 9 2 0 1]"

/-- Formulas that cannot be evaluated: an atom, an unknown opcode, and an edit without a target. -/
def brokenFormulas : List (Except Fault Noun) :=
  [.ok (.atom 5), Noun.parse "[99 0 1]", Noun.parse "[10 1 [0 1]]"]

/-- Evaluate a formula text against a subject text. -/
def evaluateText (bound : Nat) (subject formula : String) : Except Fault Noun := do
  let subject ← Noun.parse subject
  let formula ← Noun.parse formula
  Noun.nock bound subject formula

/-- Evaluate an example and report its name and the result. -/
def exampleEntry (bound : Nat) (e : Example) : Except Fault Entry := do
  let result ← evaluateText bound e.subject e.formula
  return .row [.text e.name, .text (← result.pretty false)]

/-- Subtract one from a number by counting. -/
def decrement (bound : Nat) (n : Int) : Except Fault Noun := do
  let formula ← Noun.parse decrementText
  Noun.nock bound (.atom n) formula

/-- Evaluate the examples, the loop for `start`, and the broken formulas. -/
def evaluating (bound : Nat) (start : Int) : Except Fault Report := do
  let entries ← examples.mapM (exampleEntry bound)
  let result ← decrement bound start
  let attempts := brokenFormulas.map (· >>= Noun.nock bound (.atom 0))
  return entries ++ [.row [.text "dec", .noun result], .number (failures attempts)]

end Nock.Workload
