import Nock.Store.Basic

/-!
# Unifying equality

Comparing two cells makes them share what turned out equal.  Heads are compared first; if they are
equal the right cell takes over the head of the left one, then the tails are treated alike, and
finally a mug that one of the cells remembers is given to the other.  The sharing that was reached
stays even when the answer is no.

Two different remembered mugs settle the question at once.  There is no such shortcut for two
occurrences of one cell: they are compared like any others, except where both are items of a list or
a tuple.

Lists of different lengths differ without a look at their items.  Tuples are compared item by item
before their lengths matter.
-/

namespace Nock.Store

/-- Let the right cell remember the mug of the left one, or else the left one that of the right. -/
def shareMug (s : Store) (left right : CellId) : Store :=
  match s.cells[left]?, s.cells[right]? with
  | some l, some r =>
      if l.mug ≠ 0 then s.update right ({ · with mug := l.mug })
      else if r.mug ≠ 0 then s.update left ({ · with mug := r.mug })
      else s
  | _, _ => s

/-- Give the right cell the head of the left one. -/
def shareHead (s : Store) (left right : CellId) : Store :=
  match s.cells[left]? with
  | some l => s.update right ({ · with head := l.head })
  | none => s

/-- Give the right cell the tail of the left one. -/
def shareTail (s : Store) (left right : CellId) : Store :=
  match s.cells[left]? with
  | some l => s.update right ({ · with tail := l.tail })
  | none => s

/-- Do the two cells remember different mugs? -/
def mugsDiffer (s : Store) (left right : CellId) : Bool :=
  match s.cells[left]?, s.cells[right]? with
  | some l, some r => l.mug != 0 && r.mug != 0 && l.mug != r.mug
  | _, _ => false

/-- The heads of two cells. -/
def heads (s : Store) (left right : CellId) : Datum × Datum :=
  ((s.cells[left]?.map Cell.head).getD .nothing, (s.cells[right]?.map Cell.head).getD .nothing)

/-- The tails of two cells. -/
def tails (s : Store) (left right : CellId) : Datum × Datum :=
  ((s.cells[left]?.map Cell.tail).getD .nothing, (s.cells[right]?.map Cell.tail).getD .nothing)

/-- Are two data without items equal? -/
def leavesEqual (s : Store) (left right : Datum) : Bool :=
  match left, right with
  | .nothing, .nothing => true
  | .text a, .text b => a == b
  | .bytes a, .bytes b => a == b
  | .stream i, .stream j => s.bitsOf i == s.bitsOf j
  | _, _ =>
      match left.number?, right.number? with
      | some a, some b => a == b
      | _, _ => false

/-- Are two data one and the same cell? -/
def sameCell : Datum → Datum → Bool
  | .cell c, .cell d => c == d
  | _, _ => false

/-- Compare two data, given how cells are compared. -/
def compare (cells : CellId → CellId → Store → Bool × Store) :
    (left right : Datum) → Store → Bool × Store
  | .cell left, .cell right, s => cells left right s
  | .list xs, .list ys, s => if xs.length = ys.length then compareAll xs ys s else (false, s)
  | .tuple xs, .tuple ys, s => compareAll xs ys s
  | left, right, s => (s.leavesEqual left right, s)
where
  /-- Compare the items of two lists or tuples up to the first difference. -/
  compareAll : List Datum → List Datum → Store → Bool × Store
    | [], [], s => (true, s)
    | x :: xs, y :: ys, s =>
        if sameCell x y then
          compareAll xs ys s
        else
          match compare cells x y s with
          | (true, s) => compareAll xs ys s
          | (false, s) => (false, s)
    | _, _, s => (false, s)

/-- Compare two cells, given how their parts are compared. -/
def unifyCells (parts : Datum → Datum → Store → Bool × Store) (left right : CellId) (s : Store) :
    Bool × Store :=
  if s.mugsDiffer left right then
    (false, s)
  else
    let (leftHead, rightHead) := s.heads left right
    match parts leftHead rightHead s with
    | (false, s) => (false, s)
    | (true, s) =>
        let s := s.shareHead left right
        let (leftTail, rightTail) := s.tails left right
        match parts leftTail rightTail s with
        | (false, s) => (false, s)
        | (true, s) => (true, (s.shareTail left right).shareMug left right)

/-- Compare two data, going down at most `fuel` cells. -/
def unifyWithin : (fuel : Nat) → (left right : Datum) → Store → Bool × Store
  | 0 => compare fun _ _ s => (false, s)
  | fuel + 1 => compare (unifyCells (unifyWithin fuel))

/-- Compare two data, making equal cells share their parts. -/
def unify (left right : Datum) (s : Store) : Bool × Store :=
  unifyWithin (s.heightOf left) left right s

end Nock.Store
