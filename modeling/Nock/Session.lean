import Nock.Cue
import Nock.Machine
import Nock.Noun.Parser
import Nock.Notebook.Percent
import Nock.Store.Jam
import Nock.Store.Memory

/-!
# Sessions

A session is a sequence of steps on one store.  A step performs an action on operands, which are
written out or are the very results of earlier steps.  A step that fails does not end the session:
its result counts as nothing, and what it changed in the store stays changed, bits that were
appended included.
-/

namespace Nock

/-- What a step is asked to do. -/
inductive Action where
  /-- Count the bytes of a number. -/
  | byteLength
  /-- Take a number apart into bytes. -/
  | toBytes
  /-- Hash a number under a seed, with a fallback in case no seed gives a hash. -/
  | mugSearch
  /-- The mug of a cell from two mugs. -/
  | mugPair
  /-- Is it a cell, whatever it is? -/
  | isDeep
  | mug
  | pretty
  | gather
  | parse
  | jam
  /-- Append the bits of a noun to a bit string. -/
  | jamOnto
  | cue
  | cueBits
  | readNumber
  | copy
  | toNoun
  /-- Is the noun an atom?  Answered by an atom. -/
  | isAtom
  /-- Is the noun a cell?  Answered by an atom. -/
  | isCell
  | head
  | tail
  | bump
  /-- Are the nouns equal?  Answered by an atom. -/
  | same
  | slot
  | edit
  | nock
  | dropPercents
  /-- Make a cell, with a mug to remember or without. -/
  | makeCell
  /-- The hash of a number, or the mug that a cell remembers, computed if it remembers none. -/
  | rememberedMug
  /-- Compare two data as they are. -/
  | equal
  /-- Are both the very same cell? -/
  | identical
  /-- Show a datum with the mugs that its cells remember. -/
  | dump
  deriving DecidableEq, Repr

/-- An operand as it is written. -/
inductive Operand where
  | atom (n : Int)
  | cell (head tail : Operand)
  | result (step : Nat)
  | nothing
  | flag (b : Bool)
  | text (s : String)
  | bits (bs : List Bool)
  | list (items : List Operand)
  | tuple (items : List Operand)

/-- What an action gives. -/
inductive Result where
  | value (d : Datum)
  /-- A datum to be shown with the mugs that its cells remember. -/
  | dump (d : Datum)
  deriving Inhabited

namespace Result

/-- The datum of a result. -/
def datum : Result → Datum
  | .value d | .dump d => d

/-- A number as a result. -/
def number (n : Int) : Result :=
  .value (.atom n)

/-- A truth value as a result. -/
def flag (b : Bool) : Result :=
  .value (.flag b)

/-- A text as a result. -/
def text (s : String) : Result :=
  .value (.text s)

end Result

/-- Make the datum of an operand, with a new cell for every cell and a new bit string for all bits
that are written out. -/
def Operand.load (earlier : Array Datum) : Operand → StoreM Datum
  | .atom n => pure (.atom n)
  | .cell h t => do
      let head ← load earlier h
      let tail ← load earlier t
      StoreM.newCell head tail 0
  | .result i => pure (earlier[i]?.getD .nothing)
  | .nothing => pure .nothing
  | .flag b => pure (.flag b)
  | .text s => pure (.text s)
  | .bits bs => StoreM.newStream bs
  | .list items => do return .list (← loadAll items)
  | .tuple items => do return .tuple (← loadAll items)
where
  /-- Make the data of several operands. -/
  loadAll : List Operand → StoreM (List Datum)
    | [] => pure []
    | x :: xs => do
        let first ← load earlier x
        let rest ← loadAll xs
        pure (first :: rest)

namespace Session

open StoreM

/-- The number that an operand has to be. -/
def number (d : Datum) : StoreM Int :=
  match d.number? with
  | some n => pure n
  | none => throw .wrongOperands

/-- The bits of a bit string that an operand has to be. -/
def bits : Datum → StoreM (List Bool)
  | .stream i => return (← get).bitsOf i
  | _ => throw .wrongOperands

/-- The text of a datum, in tail position or not. -/
def prettyText (d : Datum) (tail : Bool) : StoreM Result := do
  return .text (← pretty d tail)

/-- Read a noun from a text into new cells. -/
def parse : Datum → StoreM Result
  | .text s => do
      let n ← MonadExcept.ofExcept (Noun.parse s)
      return .value (← hold n)
  | .nothing => throw .noSequence
  | _ => throw .wrongOperands

/-- Read a number from the first bits of a bit string, which is not looked at if no bits are to be
read. -/
def readNumber (count d : Datum) : StoreM Result := do
  let count ← number count
  if count ≤ 0 then
    pure (.number 0)
  else
    return .number (← MonadExcept.ofExcept (Bits.readNumber count (← bits d)))

/-- Perform an action.  `bound` limits the actions that may never end. -/
def perform (bound : Nat) : Action → List Datum → StoreM Result
  | .byteLength, [n] => return .number (byteLength (← number n))
  | .toBytes, [n] => return .value (.bytes (← MonadExcept.ofExcept (toBytes (← number n))))
  | .mugSearch, [seed, fallback, key] => do
      let found ← MonadExcept.ofExcept (Mug.search (← number seed) (← number key))
      return .value ((found.map fun mug => .atom mug).getD fallback)
  | .mugPair, [head, tail] =>
      return .number (← MonadExcept.ofExcept (Mug.pair (← number head) (← number tail)))
  | .isDeep, [d] => pure (.flag (match d with | .cell _ => true | _ => false))
  | .mug, [d] => return .number (← mug d)
  | .pretty, [d] => prettyText d false
  | .pretty, [d, tail] => do prettyText d (← view tail).isTrue
  | .gather, [d] => return .value (← gather d)
  | .parse, [d] => parse d
  | .jam, [d] => return .number (← jam d)
  | .jamOnto, [d, .stream i] => do
      jamOnto d i
      return .value (.stream i)
  | .cue, [n] => do return .value (← cue (← number n))
  | .cueBits, [d] => do return .value (← cueBits (← bits d))
  | .readNumber, [count, d] => readNumber count d
  | .copy, [d] => return .value (← copy d)
  | .toNoun, [d] => return .value (← toNoun d)
  | .isAtom, [d] => return .value (Memory.truth StoreM !(← Memory.isCell d))
  | .isCell, [d] => return .value (Memory.truth StoreM (← Memory.isCell d))
  | .head, [d] => return .value (← Memory.head d)
  | .tail, [d] => return .value (← Memory.tail d)
  | .bump, [d] => return .value (← Memory.bump d)
  | .same, [a, b] => return .value (Memory.truth StoreM (← Memory.equal a b))
  | .slot, [axis, n] => return .value (← slotAt bound axis n)
  | .edit, [axis, part, n] => return .value (← editAt bound axis part n)
  | .nock, [subject, formula] => return .value (← nock bound subject formula)
  | .dropPercents, [.text s] => pure (.text (Notebook.dropPercents s))
  | .makeCell, [h, t] => return .value (← newCell h t 0)
  | .makeCell, [h, t, mug] => do return .value (← newCell h t (← number mug))
  | .rememberedMug, [d] => return .number (← hash d)
  | .equal, [a, b] => return .flag (← same a b)
  | .identical, [a, b] => pure (.flag (Store.sameCell a b))
  | .dump, [d] => pure (.dump d)
  | _, _ => throw .wrongOperands

end Session

/-- A step of a session. -/
structure Step where
  action : Action
  operands : List Operand

/-- The store and the results of the steps so far. -/
structure Session where
  store : Store := {}
  results : Array Datum := #[]

namespace Session

/-- Make the operands of a step from the left to the right and perform its action. -/
def execute (bound : Nat) (earlier : Array Datum) (step : Step) : StoreM Result := do
  perform bound step.action (← step.operands.mapM (Operand.load earlier))

/-- Take one step. -/
def step (bound : Nat) (session : Session) (step : Step) : Except Fault Result × Session :=
  let (outcome, store) := (execute bound session.results step).run.run session.store
  let value := match outcome with
    | .ok result => result.datum
    | .error _ => .nothing
  (outcome, ⟨store, session.results.push value⟩)

end Session

end Nock
