import Nock.Datum
import Nock.Memory

/-!
# A store of cells and bit strings

A store keeps cells that have an identity.  Two cells may hold the same noun and still be two cells,
one cell may be part of several others, and a cell changes when it is compared or hashed: it may get
another head or tail **that holds an equal noun**, and it remembers its mug once computed.

A cell is made after its parts, so no cell is part of itself, and each cell records its `height`,
the length of the longest path down to something that is not a cell.  The height never changes and
bounds every walk through the store.

Bit strings have an identity as well, and grow when nouns are serialised onto them.
-/

namespace Nock

/-- A cell of a store. -/
structure Cell where
  head : Datum
  tail : Datum
  /-- The mug, or 0 while it is not known. -/
  mug : Int
  height : Nat
  deriving Inhabited

/-- The cells and the bit strings made so far, each under its index. -/
structure Store where
  cells : Array Cell := #[]
  streams : Array (List Bool) := #[]
  deriving Inhabited

/-- Effects on a store that may fail.  What was changed before a failure stays changed. -/
abbrev StoreM := ExceptT Fault (StateM Store)

namespace Store

/-- The height of a datum: 0 for anything without cells. -/
def heightOf (s : Store) (d : Datum) : Nat :=
  d.height fun c => (s.cells[c]?.map Cell.height).getD 0

/-- Add a cell. -/
def push (s : Store) (head tail : Datum) (mug : Int) : Store × CellId :=
  let height := max (s.heightOf head) (s.heightOf tail) + 1
  ({ s with cells := s.cells.push ⟨head, tail, mug, height⟩ }, s.cells.size)

/-- Change the cell with the given name. -/
def update (s : Store) (c : CellId) (f : Cell → Cell) : Store :=
  { s with cells := s.cells.modify c f }

/-- Add a bit string. -/
def pushStream (s : Store) (bits : List Bool) : Store × StreamId :=
  ({ s with streams := s.streams.push bits }, s.streams.size)

/-- Append bits to a bit string. -/
def appendTo (s : Store) (i : StreamId) (bits : List Bool) : Store :=
  { s with streams := s.streams.modify i (· ++ bits) }

/-- The bits of a bit string. -/
def bitsOf (s : Store) (i : StreamId) : List Bool :=
  s.streams[i]?.getD []

/-- What a datum looks like, going down at most `fuel` cells. -/
def viewWithin (s : Store) : (fuel : Nat) → Datum → View
  | 0 => Datum.spell (fun _ => .nothing) (.bits <| s.bitsOf ·)
  | fuel + 1 => Datum.spell
      (fun c =>
        match s.cells[c]? with
        | some cell => .cell cell.mug (s.viewWithin fuel cell.head) (s.viewWithin fuel cell.tail)
        | none => .nothing)
      (.bits <| s.bitsOf ·)

/-- What a datum looks like now. -/
def view (s : Store) (d : Datum) : View :=
  s.viewWithin (s.heightOf d) d

/-- The noun that a datum denotes now. -/
def noun? (s : Store) (d : Datum) : Option Noun :=
  (s.view d).noun?

/-- The text of a datum as it is, without taking cells apart. -/
def describe (s : Store) (d : Datum) : Except Fault String :=
  d.write s.bitsOf true

/-- The text of a datum, in tail position or not, going down at most `fuel` cells.  What is no cell
has the same text in both. -/
def prettyWithin (s : Store) : (fuel : Nat) → Datum → (tail : Bool) → Except Fault String
  | fuel + 1, .cell c, tail =>
      match s.cells[c]? with
      | some cell => do
          let headText ← s.prettyWithin fuel cell.head false
          let tailText ← s.prettyWithin fuel cell.tail true
          pure (cellText tail headText tailText)
      | none => s.describe (.cell c)
  | _, d, _ => s.describe d

/-- The text of a datum now, in tail position or not. -/
def pretty (s : Store) (d : Datum) (tail : Bool) : Except Fault String :=
  s.prettyWithin (s.heightOf d) d tail

end Store

namespace StoreM

/-- A new cell that remembers the given mug. -/
def newCell (head tail : Datum) (mug : Int) : StoreM Datum :=
  modifyGet fun s => let (s, c) := s.push head tail mug; (.cell c, s)

/-- A new bit string. -/
def newStream (bits : List Bool) : StoreM Datum :=
  modifyGet fun s => let (s, i) := s.pushStream bits; (.stream i, s)

/-- The cell with the given name. -/
def cell? (c : CellId) : StoreM (Option Cell) :=
  return (← get).cells[c]?

/-- What a datum looks like now. -/
def view (d : Datum) : StoreM View :=
  return (← get).view d

/-- The text of a datum now, in tail position or not. -/
def pretty (d : Datum) (tail : Bool) : StoreM String := do
  MonadExcept.ofExcept ((← get).pretty d tail)

/-- Hold a plain noun in new cells. -/
def hold : Noun → StoreM Datum
  | .atom n => pure (.atom n)
  | .cell h t => do
      let head ← hold h
      let tail ← hold t
      newCell head tail 0

end StoreM

end Nock
