import Nock.Bits.Text
import Nock.Fault
import Nock.Noun.Printer
import Nock.Text.Quoted

/-!
# Data that may be nouns

Callers hand in more than nouns: truth values, nothing at all, text, bytes, bit strings, lists and
tuples, nested in any way.  A `Datum` is any of these.  Cells and bit strings have an identity and
can change, so a datum only holds the name they have in a store.  A `View` is what a datum looks like
at one moment, with every cell spelled out together with the mug it remembers.

A truth value is a number, 1 or 0, wherever a number is asked for, and only keeps its own spelling.
-/

namespace Nock

/-- The name of a cell in a store. -/
abbrev CellId := Nat

/-- The name of a bit string in a store. -/
abbrev StreamId := Nat

/-- A value that a caller can hand in or get back. -/
inductive Datum where
  | atom (n : Int)
  | flag (b : Bool)
  | cell (c : CellId)
  | nothing
  | text (s : String)
  | bytes (bs : List UInt8)
  | stream (i : StreamId)
  | list (items : List Datum)
  | tuple (items : List Datum)
  deriving Inhabited

/-- What a datum looks like at one moment. -/
inductive View where
  | atom (n : Int)
  | flag (b : Bool)
  | cell (mug : Int) (head tail : View)
  | nothing
  | text (s : String)
  | bytes (bs : List UInt8)
  | bits (bs : List Bool)
  | list (items : List View)
  | tuple (items : List View)
  deriving Inhabited

/-- The number that a truth value is. -/
def flagNumber (b : Bool) : Int :=
  if b then 1 else 0

namespace Datum

/-- The number that a datum is. -/
def number? : Datum → Option Int
  | .atom n => some n
  | .flag b => some (flagNumber b)
  | _ => none

/-- Spell out a datum, given how its cells and its bit strings look. -/
def spell (ofCell : CellId → View) (ofStream : StreamId → View) : Datum → View
  | .atom n => .atom n
  | .flag b => .flag b
  | .cell c => ofCell c
  | .nothing => .nothing
  | .text s => .text s
  | .bytes bs => .bytes bs
  | .stream i => ofStream i
  | .list xs => .list (spellAll xs)
  | .tuple xs => .tuple (spellAll xs)
where
  /-- Spell out the items of a list or a tuple. -/
  spellAll : List Datum → List View
    | [] => []
    | x :: xs => spell ofCell ofStream x :: spellAll xs

/-- The height of a datum from the heights of its cells. -/
def height (ofCell : CellId → Nat) : Datum → Nat
  | .cell c => ofCell c
  | .list xs | .tuple xs => heightAll xs
  | .atom _ | .flag _ | .nothing | .text _ | .bytes _ | .stream _ => 0
where
  /-- The greatest height in a list of data. -/
  heightAll : List Datum → Nat
    | [] => 0
    | x :: xs => max (height ofCell x) (heightAll xs)

/-- The texts of the items with commas between them. -/
def commas : List String → String
  | [] => ""
  | [s] => s
  | s :: rest => s ++ ", " ++ commas rest

/-- The text between the brackets of a tuple: a single item is followed by a comma. -/
def tupleText : List String → String
  | [s] => "(" ++ s ++ ",)"
  | items => "(" ++ commas items ++ ")"

/-- The text of a cell that is not taken apart.  It tells the cell from all others and nothing about
the noun. -/
def cellLabel (c : CellId) : String :=
  "<pinochle.noun.Cell object at 0x" ++ String.ofList (Nat.toDigits 16 c) ++ ">"

/-- The text of a datum as it is, given the bits of its bit strings.  Cells are not taken apart, so a
list that holds a cell has a text **whatever the cell holds**.  `bare` says whether text stands without
quotes, which it does unless it is an item of a list or a tuple. -/
def write (ofStream : StreamId → List Bool) (bare : Bool) : Datum → Except Fault String
  | .atom n => numberText n
  | .flag b => pure (if b then "True" else "False")
  | .cell c => pure (cellLabel c)
  | .nothing => pure "None"
  | .text s => pure (if bare then s else String.ofList (Text.quoted s.toList))
  | .bytes bs => pure (String.ofList (Text.quotedBytes bs))
  | .stream i => pure (if bare then Bits.text (ofStream i) else Bits.itemText (ofStream i))
  | .list xs => do pure ("[" ++ commas (← writeAll xs) ++ "]")
  | .tuple xs => do pure (tupleText (← writeAll xs))
where
  /-- The texts of the items of a list or a tuple. -/
  writeAll : List Datum → Except Fault (List String)
    | [] => pure []
    | x :: xs => do
        let first ← write ofStream false x
        let rest ← writeAll xs
        pure (first :: rest)

end Datum

namespace View

/-- The noun that is seen, if there is nothing but cells and numbers. -/
def noun? : View → Option Noun
  | .atom n => some (.atom n)
  | .flag b => some (.atom (flagNumber b))
  | .cell _ h t => do return .cell (← noun? h) (← noun? t)
  | _ => none

/-- Does a view count as true?  Zero, nothing, and whatever is empty count as false. -/
def isTrue : View → Bool
  | .atom n => n ≠ 0
  | .flag b => b
  | .cell _ _ _ => true
  | .nothing => false
  | .text s => !s.isEmpty
  | .bytes bs => !bs.isEmpty
  | .bits bs => !bs.isEmpty
  | .list xs | .tuple xs => !xs.isEmpty

end View

end Nock
