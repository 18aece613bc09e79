import Nock.Fault
import Nock.Mug

/-!
# Bit strings

Numbers as bit strings, the least significant bit first, and the **self-delimiting code** for
numbers.  The code of zero is a single one bit.  The code of a number with `a` binary digits is the
number `b` of binary digits of `a` in unary, then `a` without its highest bit, then the number.  A
reader of the code knows where it ends.
-/

namespace Nock.Bits

/-- The `count` lowest bits of a number, negative ones in two's complement. -/
def low (n : Int) (count : Nat) : List Bool :=
  let residue := (n % (1 <<< count : Nat)).toNat
  (List.range count).map residue.testBit

/-- The bits of a positive number up to its highest one; none for other numbers. -/
def ofNumber (n : Int) : List Bool :=
  if n ≤ 0 then [] else low n (bitLength n)

/-- The number with the given bits. -/
def toNumber (bits : List Bool) : Nat :=
  bits.foldr (fun b n => 2 * n + b.toNat) 0

/-- The self-delimiting code of a number. -/
def mat (n : Int) : List Bool :=
  if n = 0 then
    [true]
  else
    let a := bitLength n
    let b := bitLength a
    List.replicate b false ++ [true] ++ low a (b - 1) ++ low n a

/-- A place in a bit string: the bits still to be read, and how many were read before. -/
structure Tape where
  rest : List Bool
  position : Nat := 0

/-- Read one bit. -/
def Tape.next (t : Tape) : Except Fault (Bool × Tape) :=
  match t.rest with
  | [] => .error .outOfBits
  | b :: rest => .ok (b, ⟨rest, t.position + 1⟩)

/-- Read `count` bits as a number. -/
def Tape.number (t : Tape) (count : Nat) : Except Fault (Nat × Tape) :=
  if t.rest.length < count then
    .error .outOfBits
  else
    .ok (toNumber (t.rest.take count), ⟨t.rest.drop count, t.position + count⟩)

/-- Read the number of zero bits before the next one bit, and the one bit itself. -/
def Tape.unary (t : Tape) : Except Fault (Nat × Tape) :=
  let zeros := t.rest.takeWhile (!·)
  match t.rest.drop zeros.length with
  | [] => .error .outOfBits
  | _ :: rest => .ok (zeros.length, ⟨rest, t.position + zeros.length + 1⟩)

/-- Read the self-delimiting code of a number. -/
def Tape.rub (t : Tape) : Except Fault (Nat × Tape) := do
  let (zeros, t) ← t.unary
  if zeros = 0 then
    pure (0, t)
  else
    let (low, t) ← t.number (zeros - 1)
    t.number ((1 <<< (zeros - 1)) + low)

/-- The number in the first `count` bits; nothing is read when `count` is not positive. -/
def readNumber (count : Int) (bits : List Bool) : Except Fault Nat := do
  return (← Tape.number ⟨bits, 0⟩ count.toNat).1

end Nock.Bits
