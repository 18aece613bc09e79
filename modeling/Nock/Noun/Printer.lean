import Nock.Fault
import Nock.Noun.Basic

/-!
# Writing nouns as text

A cell is written as its head, a space and its tail, in brackets unless the cell is itself the tail
of a cell.  So `[1 [2 3]]` becomes `[1 2 3]`, while the brackets of a head always stay.  Numbers with
too many digits are not written.
-/

namespace Nock

/-- The decimal text of a number that has not too many digits. -/
def numberText (n : Int) : Except Fault String :=
  if Decimal.fits n then .ok (Decimal.text n) else .error .longNumber

/-- The text of a cell from the texts of its parts; `tail` says whether the cell is itself a tail. -/
def cellText (tail : Bool) (headText tailText : String) : String :=
  let content := headText ++ " " ++ tailText
  if tail then content else "[" ++ content ++ "]"

/-- The text of a noun, in tail position or not. -/
def Noun.pretty : Noun → (tail : Bool) → Except Fault String
  | .atom n, _ => numberText n
  | .cell h t, tail => do
      let headText ← h.pretty false
      let tailText ← t.pretty true
      pure (cellText tail headText tailText)

end Nock
