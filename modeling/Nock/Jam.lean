import Nock.Bits

/-!
# Serialising nouns

`Noun.jam` writes a noun as a bit string.  An atom is a zero bit and the code of its number, a cell
is a one bit, a zero bit, its head and its tail.  A noun that was written before may instead be
written as two one bits and the code of the **position** at which it began.  A repeated cell always
is; a repeated atom is unless its own number has fewer binary digits than the position.

Positions count from the start of the noun.  Position 0 belongs to the whole noun, which occurs
nowhere inside itself, so a position of 0 in the table counts as not found.
-/

namespace Nock

namespace Jam

/-- What the bits of a noun are made of. -/
inductive Token where
  /-- An atom in full. -/
  | atom (n : Int)
  /-- The beginning of a cell, followed by its head and its tail. -/
  | cell
  /-- The noun that began at a position. -/
  | reference (position : Nat)
  deriving DecidableEq, Repr

/-- The bits of a token. -/
def Token.bits : Token → List Bool
  | .atom n => false :: Bits.mat n
  | .cell => [true, false]
  | .reference position => true :: true :: Bits.mat position

/-- The bits of a sequence of tokens. -/
def bits (tokens : List Token) : List Bool :=
  tokens.flatMap Token.bits

/-- The token of a repeated atom: in full if the atom has fewer binary digits than the position. -/
def repeatedAtom (n : Int) (position : Nat) : Token :=
  if bitLength n < bitLength position then .atom n else .reference position

/-- The positions of the nouns written so far, the last one first. -/
abbrev Positions := List (Noun × Nat)

/-- The position of a noun written before, unless it is 0. -/
def Positions.find? (seen : Positions) (n : Noun) : Option Nat :=
  (seen.lookup n).filter (· ≠ 0)

/-- The tokens of a noun that begins at position `start`, and the positions known after it. -/
def encode : (start : Nat) → (seen : Positions) → Noun → List Token × Positions
  | start, seen, .atom n =>
      match seen.find? (.atom n) with
      | some position => ([repeatedAtom n position], seen)
      | none => ([.atom n], (.atom n, start) :: seen)
  | start, seen, .cell h t =>
      match seen.find? (.cell h t) with
      | some position => ([.reference position], seen)
      | none =>
          let (headTokens, seen) := encode (start + 2) ((.cell h t, start) :: seen) h
          let (tailTokens, seen) := encode (start + 2 + (bits headTokens).length) seen t
          (.cell :: headTokens ++ tailTokens, seen)

end Jam

namespace Noun

/-- The tokens of a noun. -/
def jamTokens (n : Noun) : List Jam.Token :=
  (Jam.encode 0 [] n).1

/-- The bits of a noun. -/
def jamBits (n : Noun) : List Bool :=
  Jam.bits n.jamTokens

/-- The number of a noun. -/
def jam (n : Noun) : Nat :=
  Bits.toNumber n.jamBits

end Noun

end Nock
