import Nock.Store.Basic

/-!
# From data to nouns

Two ways lead from a datum to a noun.  `toNoun` takes tuples: a tuple becomes the right-nested cell
of its converted items, a tuple of one item that item, and nothing else but nouns is taken.  Of what is
refused only the text matters, so the conversion (`convert`) is over values that may be of any kind.
`gather` takes any sequence but **leaves the last item as it is**, so its result may hold a list or a
text in the place of a noun; an empty sequence becomes 0.
-/

namespace Nock

/-- A value as it is met by a conversion: a noun as it is held, a tuple of values, or something of any
other kind, about which nothing is known here. -/
inductive Value (ω : Type) where
  | atom (n : Int)
  | flag (b : Bool)
  | cell (c : CellId)
  | tuple (items : List (Value ω))
  | other (what : ω)

/-- A datum as a value.  Data that are neither nouns nor tuples are of another kind as a whole. -/
def Datum.value : Datum → Value Datum
  | .atom n => .atom n
  | .flag b => .flag b
  | .cell c => .cell c
  | .tuple items => .tuple (valueAll items)
  | d => .other d
where
  /-- Several data as values. -/
  valueAll : List Datum → List (Value Datum)
    | [] => []
    | d :: rest => d.value :: valueAll rest

namespace StoreM

/-- The noun that a value stands for.  `text` gives the text of what is of another kind, which stands
for none. -/
def convert {ω : Type} (text : ω → Except Fault String) : Value ω → StoreM Datum
  | .atom n => pure (.atom n)
  | .flag b => pure (.flag b)
  | .cell c => pure (.cell c)
  | .tuple items => nest items
  | .other what => do throw (.notNoun (← MonadExcept.ofExcept (text what)))
where
  /-- The right-nested cell of the items. -/
  nest : List (Value ω) → StoreM Datum
    | [] => throw .emptyTuple
    | [v] => convert text v
    | v :: rest => do
        let head ← convert text v
        let tail ← nest rest
        newCell head tail 0

/-- The noun that a datum stands for. -/
def toNoun (d : Datum) : StoreM Datum := do
  convert (← get).describe d.value

/-- The right-nested cell of items that are no sequences themselves, or only of themselves, as the
letters of a text are. -/
def nestLeaves : List Datum → StoreM Datum
  | [] => pure (.atom 0)
  | [d] => pure d
  | d :: rest => do
      let tail ← nestLeaves rest
      newCell d tail 0

/-- The cells of a sequence, with its last item as it is. -/
def gather : Datum → StoreM Datum
  | .atom n => pure (.atom n)
  | .flag b => pure (.flag b)
  | .cell c => pure (.cell c)
  | .list items => nest items
  | .tuple items => nest items
  | .text s => nestLeaves (s.toList.map fun c => .text c.toString)
  | .bytes bs => nestLeaves (bs.map fun b => .atom b.toNat)
  | .stream i => do nestLeaves (((← get).bitsOf i).map .flag)
  | .nothing => throw .noSequence
where
  /-- The right-nested cell of the items, the last one as it is. -/
  nest : List Datum → StoreM Datum
    | [] => pure (.atom 0)
    | [d] => pure d
    | d :: rest => do
        let head ← gather d
        let tail ← nest rest
        newCell head tail 0

end StoreM

end Nock
