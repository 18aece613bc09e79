import Nock.Jam
import Nock.Store.Hash
import Nock.Store.Unify

/-!
# Serialising held nouns

Held nouns are serialised like plain ones, but cells are looked up by mug first.  Looking a cell up
computes its mug, and a cell written before with the same mug is then **compared** with it, the one
written before on the left, unless the two are one cell.  Entering a cell into the table looks it up
once more.

Serialising fails at the first cell that has no mug.  What was written up to there counts: the
tokens are given together with how it ended.
-/

namespace Nock.StoreM

/-- A cell written before, its mug, and the position at which it began. -/
structure WrittenCell where
  cell : CellId
  mug : Int
  position : Nat

/-- The numbers and the cells written so far, the last ones first. -/
structure Table where
  numbers : List (Int × Nat) := []
  cells : List WrittenCell := []

namespace Table

/-- The position of a number written before, unless it is 0. -/
def number? (table : Table) (n : Int) : Option Nat :=
  (table.numbers.lookup n).filter (· ≠ 0)

/-- The cells that a cell with the given mug is compared with, in the order in which they were
written. -/
def candidates (table : Table) (mug : Int) : List WrittenCell :=
  (table.cells.filter (·.mug = mug)).reverse

end Table

/-- The position of the first candidate that is the same cell or holds an equal noun. -/
def firstEqual (c : CellId) : List WrittenCell → Store → Option Nat × Store
  | [], s => (none, s)
  | w :: rest, s =>
      if w.cell = c then
        (some w.position, s)
      else
        match s.unify (.cell w.cell) (.cell c) with
        | (true, s) => (some w.position, s)
        | (false, s) => firstEqual c rest s

/-- Where a cell stands: written before, or entered into the table now. -/
inductive Standing where
  | written (position : Nat)
  | entered (table : Table)

/-- Look a cell up, and enter it with the position `start` if it was not written before or began at
position 0. -/
def visit (table : Table) (start : Nat) (c : CellId) : StoreM Standing := do
  let mug ← mug (.cell c)
  let found ← modifyGet (firstEqual c (table.candidates mug))
  match found.filter (· ≠ 0) with
  | some position => pure (.written position)
  | none =>
      let _ ← modifyGet (firstEqual c (table.candidates mug))
      pure (.entered { table with cells := ⟨c, mug, start⟩ :: table.cells })

/-- The token of a number that begins at position `start`, and the table after it. -/
def encodeNumber (start : Nat) (table : Table) (n : Int) : Jam.Token × Table :=
  match table.number? n with
  | some position => (Jam.repeatedAtom n position, table)
  | none => (.atom n, { table with numbers := (n, start) :: table.numbers })

/-- The parts of a cell as they are now. -/
def currentParts (c : CellId) : StateM Store (Datum × Datum) :=
  return match (← get).cells[c]? with
    | some cell => (cell.head, cell.tail)
    | none => (.nothing, .nothing)

/-- The tokens of a datum that begins at position `start`, and the table after it or the fault that
ended it, going down at most `fuel` cells. -/
def encode : (fuel start : Nat) → Table → Datum →
    StateM Store (List Jam.Token × Except Fault Table)
  | _, start, table, .atom n =>
      let (token, table) := encodeNumber start table n
      pure ([token], .ok table)
  | _, start, table, .flag b =>
      let (token, table) := encodeNumber start table (flagNumber b)
      pure ([token], .ok table)
  | fuel + 1, start, table, .cell c => do
      match ← (visit table start c).run with
      | .error fault => pure ([], .error fault)
      | .ok (.written position) => pure ([.reference position], .ok table)
      | .ok (.entered table) =>
          let (headTokens, outcome) ← encode fuel (start + 2) table (← currentParts c).1
          match outcome with
          | .error fault => pure (.cell :: headTokens, .error fault)
          | .ok table =>
              let next := start + 2 + (Jam.bits headTokens).length
              let (tailTokens, outcome) ← encode fuel next table (← currentParts c).2
              pure (.cell :: headTokens ++ tailTokens, outcome)
  | _, _, _, _ => pure ([], .error .wrongOperands)

/-- The tokens of a held noun, and the fault that ended them if there was one. -/
def jamTokens (d : Datum) : StateM Store (List Jam.Token × Option Fault) := do
  let (tokens, outcome) ← encode ((← get).heightOf d) 0 {} d
  return (tokens, match outcome with | .ok _ => none | .error fault => some fault)

/-- The bits of a held noun. -/
def jamBits (d : Datum) : StoreM (List Bool) := do
  match ← (jamTokens d : StateM Store _) with
  | (tokens, none) => pure (Jam.bits tokens)
  | (_, some fault) => throw fault

/-- Append the bits of a held noun to a bit string, as far as they go. -/
def jamOnto (d : Datum) (i : StreamId) : StoreM Unit := do
  let (tokens, fault) ← (jamTokens d : StateM Store _)
  modify (·.appendTo i (Jam.bits tokens))
  match fault with
  | none => pure ()
  | some fault => throw fault

/-- The number of a held noun. -/
def jam (d : Datum) : StoreM Nat := do
  return Bits.toNumber (← jamBits d)

end Nock.StoreM
