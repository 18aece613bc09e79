import Nock.Text.Digit

/-!
# Numbers as decimal text

Numbers are read and written in decimal, and only up to `maxDigits` digits: a longer text is not
read, and a number that needs more digits is not written.  Leading zeros count when a text is read.
-/

namespace Nock.Decimal

/-- The most digits a number may have, read or written. -/
def maxDigits : Nat := 4300

/-- Can the number be written within `maxDigits` digits?  The sign is not counted. -/
def fits (n : Int) : Bool :=
  n.natAbs < Nat.pow 10 maxDigits

/-- The decimal text of a number of any size. -/
def text (n : Int) : String :=
  if n < 0 then "-" ++ Nat.repr n.natAbs else Nat.repr n.natAbs

/-- The number that a list of digit values spells, most significant first. -/
def ofDigits (ds : List Nat) : Nat :=
  ds.foldl (fun acc d => 10 * acc + d) 0

end Nock.Decimal
