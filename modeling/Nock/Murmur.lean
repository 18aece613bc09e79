/-!
# MurmurHash3, 32 bits

The hash mixes four bytes at a time into a 32-bit state that starts as the seed, then the up to
three bytes that are left, then the length.  Every step is a bijection of the state for fixed
bytes, which is why two seeds never give the same hash of one key.
-/

namespace Nock.Murmur

/-- Turn the bits of a word to the left. -/
def rotate (w count : UInt32) : UInt32 :=
  (w <<< count) ||| (w >>> (32 - count))

/-- Stir a block before it meets the state. -/
def scramble (block : UInt32) : UInt32 :=
  rotate (block * 0xcc9e2d51) 15 * 0x1b873593

/-- Mix a full block into the state. -/
def mix (state block : UInt32) : UInt32 :=
  rotate (state ^^^ scramble block) 13 * 5 + 0xe6546b64

/-- Make every bit of the state depend on every other. -/
def avalanche (w : UInt32) : UInt32 :=
  let w := (w ^^^ (w >>> 16)) * 0x85ebca6b
  let w := (w ^^^ (w >>> 13)) * 0xc2b2ae35
  w ^^^ (w >>> 16)

/-- The word with the given bytes, least significant first. -/
def word : List UInt8 → UInt32
  | [] => 0
  | b :: rest => b.toUInt32 ||| (word rest <<< 8)

/-- Mix in all bytes of a key. -/
def absorb (state : UInt32) : List UInt8 → UInt32
  | a :: b :: c :: d :: rest => absorb (mix state (word [a, b, c, d])) rest
  | rest => state ^^^ scramble (word rest)

/-- The hash of a key under a seed. -/
def hash32 (seed : UInt32) (key : List UInt8) : UInt32 :=
  avalanche (absorb seed key ^^^ UInt32.ofNat key.length)

end Nock.Murmur
