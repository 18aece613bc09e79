import Nock.Mug
import Nock.Store.Basic

/-!
# Remembered mugs

The mug of a held noun is computed once per cell and remembered there.  The head of a cell is
hashed before its tail, so when a noun turns out to have no mug, what was computed on the way is
remembered all the same.

A cell can be made with any number as its mug.  A number that fits a signed word of 64 bits is handed
out as it is, any other as its **residue** modulo 2⁶¹ − 1 with the sign kept, and −2 stands in the
place of −1.  Computed mugs are handed out as they are.
-/

namespace Nock

namespace Mug

/-- A hash is never −1: −2 stands in its place. -/
def avoidMinusOne (n : Int) : Int :=
  if n = -1 then -2 else n

/-- The hash of a number: its residue modulo 2⁶¹ − 1 with the sign kept. -/
def residue (n : Int) : Int :=
  let magnitude : Int := (n.natAbs % 0x1fffffffffffffff : Nat)
  avoidMinusOne (if n < 0 then -magnitude else magnitude)

/-- Does a number fit a signed word of 64 bits? -/
def fitsWord (n : Int) : Bool :=
  -0x8000000000000000 ≤ n && n < 0x8000000000000000

/-- What a remembered mug is handed out as. -/
def handOut (mug : Int) : Int :=
  if fitsWord mug then avoidMinusOne mug else residue mug

end Mug

namespace StoreM

/-- The mug of a datum, going down at most `fuel` cells. -/
def mugWithin : (fuel : Nat) → Datum → StoreM Int
  | _, .atom n => MonadExcept.ofExcept (Mug.ofAtom n)
  | _, .flag b => MonadExcept.ofExcept (Mug.ofAtom (flagNumber b))
  | fuel + 1, .cell c => do
      match ← cell? c with
      | none => throw .wrongOperands
      | some cell =>
          if cell.mug ≠ 0 then
            pure (Mug.handOut cell.mug)
          else
            let head ← mugWithin fuel cell.head
            let tail ← mugWithin fuel cell.tail
            let mug ← MonadExcept.ofExcept (Mug.pair head tail)
            modify (·.update c ({ · with mug := mug }))
            pure mug
  | _, _ => throw .wrongOperands

/-- The mug of a datum, remembered in every cell below. -/
def mug (d : Datum) : StoreM Int := do
  mugWithin ((← get).heightOf d) d

/-- The hash of a number or a cell: the mug of a cell, the residue of a number. -/
def hash (d : Datum) : StoreM Int :=
  match d.number? with
  | some n => pure (Mug.residue n)
  | none => mug d

end StoreM

end Nock
