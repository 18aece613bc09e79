import Nock.Bits

/-!
# Bit strings as text

A bit string is written in hexadecimal if its length allows it, four bits to a digit with the first
bit the highest.  A short one of another length is written in binary, a longer one in hexadecimal as
far as possible and the rest in binary.  A very long one is cut off.
-/

namespace Nock.Bits

/-- The most hexadecimal digits that are written. -/
def maxHexDigits : Nat := 250

/-- Bits as binary digits. -/
def binaryDigits (bits : List Bool) : List Char :=
  bits.map fun b => if b then '1' else '0'

/-- Bits as hexadecimal digits; up to three bits at the end are left out. -/
def hexDigits : List Bool → List Char
  | a :: b :: c :: d :: rest => Nat.digitChar (toNumber [d, c, b, a]) :: hexDigits rest
  | _ => []

/-- Is the bit string too long to be written in full? -/
def isCut (bits : List Bool) : Bool :=
  bits.length > 4 * maxHexDigits

/-- The text of a bit string. -/
def text (bits : List Bool) : String :=
  let odd := bits.length % 4
  if bits.isEmpty then ""
  else if isCut bits then
    "0x" ++ String.ofList (hexDigits (bits.take (4 * maxHexDigits))) ++ "..."
  else if odd = 0 then "0x" ++ String.ofList (hexDigits bits)
  else if bits.length < 32 then "0b" ++ String.ofList (binaryDigits bits)
  else
    "0x" ++ String.ofList (hexDigits bits)
      ++ ", 0b" ++ String.ofList (binaryDigits (bits.drop (bits.length - odd)))

/-- The text of a bit string that is an item of a list. -/
def itemText (bits : List Bool) : String :=
  "BitArray('" ++ text bits ++ "')"
    ++ if isCut bits then "  # length=" ++ Nat.repr bits.length else ""

end Nock.Bits
