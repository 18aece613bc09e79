import Nock.Text.Class

/-!
# White space

The white-space characters of Unicode, the four information separators U+001C to U+001F and the
next-line character included.  `strip` cuts them from both ends of a text and `splitBlank` divides a
text at its first run of them.
-/

namespace Nock.Text

/-- The class of white-space characters. -/
def blanks : CharClass where
  switches := [
    0x9, 0xe, 0x1c, 0x21, 0x85, 0x86, 0xa0, 0xa1, 0x1680, 0x1681, 0x2000, 0x200b, 0x2028, 0x202a,
    0x202f, 0x2030, 0x205f, 0x2060, 0x3000, 0x3001]

/-- Is the character white space? -/
def isBlank (c : Char) : Bool :=
  blanks.holds c

/-- The text without white space at its start. -/
def stripLeft (cs : List Char) : List Char :=
  cs.dropWhile isBlank

/-- The text without white space at its end. -/
def stripRight (cs : List Char) : List Char :=
  (stripLeft cs.reverse).reverse

/-- The text without white space at either end. -/
def strip (cs : List Char) : List Char :=
  stripRight (stripLeft cs)

/-- The first word of a text that starts with one, and what follows the white space after it. -/
def splitBlank (cs : List Char) : List Char × List Char :=
  (cs.takeWhile (!isBlank ·), stripLeft (cs.dropWhile (!isBlank ·)))

end Nock.Text
