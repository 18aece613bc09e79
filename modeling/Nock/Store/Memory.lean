import Nock.Store.Convert
import Nock.Store.Unify

/-!
# A store as a memory

The machine runs on a store through the operations collected here.  Values are settled by
conversion, comparison is the unifying one, and a copy consists of new cells down to its leaves, even
where the copied noun shares cells.
-/

namespace Nock.StoreM

/-- Compare two data, making equal cells share their parts. -/
def same (left right : Datum) : StoreM Bool :=
  modifyGet (Store.unify left right)

/-- A copy in new cells, going down at most `fuel` cells. -/
def copyWithin : (fuel : Nat) → Datum → StoreM Datum
  | fuel + 1, .cell c => do
      match ← cell? c with
      | none => pure (.cell c)
      | some cell =>
          let head ← copyWithin fuel cell.head
          let tail ← copyWithin fuel cell.tail
          newCell head tail 0
  | _, d => pure d

/-- A copy of a datum in new cells that remember no mug. -/
def copy (d : Datum) : StoreM Datum := do
  copyWithin ((← get).heightOf d) d

/-- Take a datum apart as it is. -/
def look : Datum → StoreM (Shape Datum)
  | .atom n => pure (.atom n)
  | .flag b => pure (.atom (flagNumber b))
  | .cell c => do
      match ← cell? c with
      | some cell => pure (.cell cell.head cell.tail)
      | none => throw .wrongOperands
  | d => do return .foreign ((← get).describe d)

/-- A store holds nouns as data. -/
instance : Memory StoreM Datum where
  atom := .atom
  settle := toNoun
  look := look
  cell h t := newCell h t 0
  same := same
  copy := copy

end Nock.StoreM
