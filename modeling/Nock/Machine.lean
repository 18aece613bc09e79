import Nock.Axis
import Nock.Noun.Printer

/-!
# The machine

`nock bound subject formula` evaluates a formula against a subject.  A formula whose head is a cell
is a pair of formulas, and gives the cell of their results.  Otherwise its head is an opcode:

* 0 looks up an axis of the subject, 1 gives a constant, 2 computes a subject and a formula and
  evaluates the one against the other;
* 3, 4 and 5 test for a cell, add one, and compare;
* 6 branches, 7 composes, 8 extends the subject, 9 calls a formula held inside a computed subject;
* 10 edits a computed noun at an axis, 11 evaluates a hint and drops it.

Opcodes 6 and 9 and the hints of 11 are **evaluated through formulas** made on the way, so that a
test that is neither 0 nor 1 fails inside an axis lookup.

Subject and formula are settled before anything else is done, but the head of a formula is not: it is
an opcode, or a formula only if it is a cell already.

The bound limits how deeply evaluations may nest, the last step of an evaluation included.  A
result found under one bound is found under every larger one.
-/

namespace Nock

open Memory

/-- A bound on nesting that is ample for programs that end. -/
def defaultBound : Nat := 4000

/-- The fault of an opcode without a rule, unless the opcode cannot be named. -/
def Fault.ofOpcode : (text : Except Fault String) → Fault
  | .ok text => .unknownOpcode text
  | .error fault => fault

variable {m : Type → Type} {ρ : Type} [Monad m] [MonadExceptOf Fault m] [Memory m ρ]

/-- Apply the rule of an opcode to its argument.  `run` evaluates a formula, and `bound` limits the
lookups that the rule makes itself. -/
@[specialize] def applyRule (bound : Nat) (run : ρ → ρ → m ρ) (subject : ρ) (opcode : Int)
    (arg : ρ) : m ρ :=
  match opcode with
  | 0 => slotAt bound arg subject
  | 1 => pure arg
  | 2 => do
      let (b, c) ← split arg
      let newSubject ← run subject b
      let newFormula ← run subject c
      run newSubject newFormula
  | 3 => do
      let result ← run subject arg
      return truth m (← isCell result)
  | 4 => do
      let result ← run subject arg
      bump result
  | 5 => do
      let (b, c) ← split arg
      let left ← run subject b
      let right ← run subject c
      return truth m (← equal left right)
  | 6 => do
      let (test, branches) ← split arg
      let (yes, no) ← split branches
      let twice ← run subject (← cell (atom m 4) (← cell (atom m 4) test))
      let choice ← run (← cell (atom m 2) (atom m 3)) (← cell (atom m 0) twice)
      let branch ← run (← cell yes no) (← cell (atom m 0) choice)
      run subject branch
  | 7 => do
      let (b, c) ← split arg
      let newSubject ← run subject b
      run newSubject c
  | 8 => do
      let (b, c) ← split arg
      let pinned ← run subject b
      run (← cell pinned subject) c
  | 9 => do
      let (axis, c) ← split arg
      let core ← run subject c
      let arm ← cell (atom m 0) (← copy axis)
      run core (← cell (atom m 2) (← cell (← cell (atom m 0) (atom m 1)) arm))
  | 10 => do
      let (target, d) ← split arg
      match ← look target with
      | .cell axis c => do
          let part ← run subject c
          let whole ← run subject d
          editAt bound axis part whole
      | _ => throw .malformedEdit
  | 11 => do
      let (hint, d) ← split arg
      match ← look hint with
      | .cell _ c => do
          let clue ← run subject c
          let result ← run subject d
          run (← cell clue result) (← cell (atom m 0) (atom m 3))
      | _ => run subject d
  | n => throw (Fault.ofOpcode (numberText n))

/-- Evaluate a formula against a subject. -/
@[specialize] def nock : (bound : Nat) → (subject formula : ρ) → m ρ
  | 0, _, _ => throw .tooDeep
  | bound + 1, subject, formula => do
      let subject ← settle subject
      let formula ← settle formula
      match ← look formula with
      | .cell op arg =>
          match ← look op with
          | .cell _ _ => do
              let left ← nock bound subject op
              let right ← nock bound subject arg
              cell left right
          | .atom opcode => applyRule bound (nock bound) subject opcode arg
          | .foreign text => throw (Fault.ofOpcode text)
      | _ => throw .atomFormula

/-- Evaluate a formula against a subject, both of them plain nouns. -/
abbrev Noun.nock (bound : Nat) (subject formula : Noun) : Except Fault Noun :=
  Nock.nock bound subject formula

end Nock
