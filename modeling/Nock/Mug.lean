import Nock.Fault
import Nock.Murmur
import Nock.Noun.Basic

/-!
# Mugs

The **mug** of a noun is a 31-bit hash that is never zero, so that zero can mean "not computed".  An
atom is hashed by its bytes, a cell by the mugs of its head and its tail.  The 32-bit hash is folded
to 31 bits, and if that gives zero the next seed is tried.
-/

namespace Nock

/-- The number of binary digits of the absolute value. -/
def bitLength (n : Int) : Nat :=
  if n = 0 then 0 else n.natAbs.log2 + 1

/-- The number of bytes that hold the absolute value. -/
def byteLength (n : Int) : Nat :=
  (bitLength n + 7) / 8

/-- The `count` lowest bytes of a number, least significant first. -/
def lowBytes : (count n : Nat) → List UInt8
  | 0, _ => []
  | count + 1, n => UInt8.ofNat n :: lowBytes count (n / 256)

/-- The bytes of a number, least significant first, with none to spare. -/
def toBytes (n : Int) : Except Fault (List UInt8) :=
  if n < 0 then .error .negative else .ok (lowBytes (byteLength n) n.natAbs)

namespace Mug

/-- Fold a 32-bit hash to 31 bits: the highest bit is added to the lowest. -/
def fold (hash : UInt32) : Nat :=
  ((hash >>> 31) ^^^ (hash &&& 0x7fffffff)).toNat

/-- The first folded hash that is not zero, trying `tries` seeds from the given one on. -/
def firstNonzero (key : List UInt8) : (tries : Nat) → (seed : UInt32) → Option Nat
  | 0, _ => none
  | tries + 1, seed =>
      let folded := fold (Murmur.hash32 seed key)
      if folded = 0 then firstNonzero key tries (seed + 1) else some folded

/-- The word that a seed of any size stands for. -/
def seedWord (seed : Int) : UInt32 :=
  UInt32.ofNat (seed % 0x100000000).toNat

/-- The folded hash of a number under the first of eight seeds that gives one. -/
def search (seed key : Int) : Except Fault (Option Nat) := do
  let bytes ← toBytes key
  return firstNonzero bytes 8 (seedWord seed)

/-- The folded hash of a number, or the fallback if no seed gives one. -/
def hashOr (seed fallback key : Int) : Except Fault Int := do
  return (((← search seed key).map Int.ofNat).getD fallback)

/-- The mug of an atom. -/
def ofAtom (n : Int) : Except Fault Int :=
  hashOr 0xcafebabe 0x7fff n

/-- The mug of a cell from the mugs of its head and its tail. -/
def pair (head tail : Int) : Except Fault Int :=
  if head < 0 || tail < 0 then .error .negative
  else hashOr 0xdeadbeef 0xfffe ((tail.natAbs <<< 32 ||| head.natAbs : Nat) : Int)

end Mug

/-- The mug of a noun. -/
def Noun.mug : Noun → Except Fault Int
  | .atom n => Mug.ofAtom n
  | .cell h t => do
      let head ← h.mug
      let tail ← t.mug
      Mug.pair head tail

end Nock
