import Nock.Fault
import Nock.Noun.Basic
import Nock.Text.Quoted

/-!
# Reading nouns from text

The text of a noun is a sequence of numbers and bracketed sequences.  Spaces separate numbers and
are otherwise free, dots inside a number are skipped, and the outermost brackets may be left out.
The text is read once from left to right by a small machine (`Scan`) that keeps the digits of the
number it is in, the items of the innermost open bracket, and the open brackets around that one.

A number is converted when it **ends**, so a fault in its digits is reported after any fault in the
characters before its end.
-/

namespace Nock.Noun

/-- An open sequence: where its bracket stands, and its items so far, the last one first. -/
structure Frame where
  opening : Nat
  items : List Noun := []
  deriving DecidableEq, Repr

/-- The state of the reader between two characters. -/
structure Scan where
  /-- The digits of the number being read, the last one first; none between numbers. -/
  digits : List Char := []
  /-- The innermost open sequence. -/
  inner : Frame := ⟨0, []⟩
  /-- The open sequences around it, from the inside out. -/
  outer : List Frame := []
  deriving DecidableEq, Repr

/-- How much of a run of digits that is no number is quoted. -/
def maxQuoted : Nat := 200

/-- The number that a run of digits spells.  The digits are counted before they are read, as far as
they are decimal. -/
def readNumber (digits : List Char) : Except Fault Nat :=
  let count := (digits.takeWhile Text.isDecimal).length
  if count > Decimal.maxDigits then
    .error (.longText count)
  else
    match digits.mapM Text.decimalValue? with
    | some ds => .ok (Decimal.ofDigits ds)
    | none => .error (.notDecimal (String.ofList ((Text.quoted digits).take maxQuoted)))

namespace Frame

/-- Add an item at the end. -/
def push (f : Frame) (n : Noun) : Frame :=
  { f with items := n :: f.items }

/-- The noun that the items form. -/
def close (f : Frame) : Noun :=
  Noun.ofList f.items.reverse

end Frame

namespace Scan

/-- Finish the number being read, if there is one. -/
def endNumber (s : Scan) : Except Fault Scan :=
  if s.digits.isEmpty then
    .ok s
  else do
    let n ← readNumber s.digits.reverse
    pure { s with digits := [], inner := s.inner.push (.atom n) }

/-- Read the character at the given position. -/
def step (s : Scan) (position : Nat) (c : Char) : Except Fault Scan :=
  if c = '[' then do
    let s ← s.endNumber
    pure { s with inner := ⟨position, []⟩, outer := s.inner :: s.outer }
  else if c = ']' then
    match s.outer with
    | [] => .error (.unmatched position)
    | around :: outer => do
        let s ← s.endNumber
        pure { s with inner := around.push s.inner.close, outer := outer }
  else if c = ' ' then
    s.endNumber
  else if c = '.' then
    if s.digits.isEmpty then .error (.strayDot position) else .ok s
  else if Text.isDigit c then
    .ok { s with digits := c :: s.digits }
  else
    .error (.strayChar c position)

/-- Read the characters from the given position on. -/
def run (s : Scan) (position : Nat) : List Char → Except Fault Scan
  | [] => .ok s
  | c :: rest => do (← s.step position c).run (position + 1) rest

/-- The noun read when the text ends here. -/
def finish (s : Scan) : Except Fault Noun :=
  if s.outer.isEmpty then do
    pure (← s.endNumber).inner.close
  else
    .error (.unclosed s.inner.opening)

end Scan

/-- Read a noun from a list of characters. -/
def parseChars (cs : List Char) : Except Fault Noun := do
  (← Scan.run {} 0 cs).finish

/-- Read a noun from text. -/
def parse (text : String) : Except Fault Noun :=
  parseChars text.toList

end Nock.Noun
