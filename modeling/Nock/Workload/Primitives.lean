import Nock.Store.Memory
import Nock.Workload.Report

/-!
# Converting data and asking about nouns

Numbers, tuples and cells are converted, and the nouns are asked what they are and what they are made of.
-/

namespace Nock.Workload

/-- The datum with the given index: numbers, pairs, tuples of four and of one, and cells take turns. -/
def item (i : Nat) : StoreM Datum :=
  match i % 5 with
  | 0 => pure (.atom i)
  | 1 => pure (.tuple [.atom i, .atom (i + 1)])
  | 2 => pure (.tuple [.atom i, .atom (i + 1), .atom (i + 2), .atom (i + 3)])
  | 3 => pure (.tuple [.atom i])
  | _ => StoreM.newCell (.atom i) (.atom (i + 1)) 0

/-- A held noun as an entry. -/
def nounEntry (d : Datum) : StoreM Entry := do
  match (← get).noun? d with
  | some n => pure (.noun n)
  | none => throw .wrongOperands

/-- Truth as an entry: 0 is yes and 1 is no. -/
def truthEntry (b : Bool) : Entry :=
  .number (if b then 0 else 1)

/-- Convert a datum and report what there is to know about the noun: whether it is an atom, twice
whether it is a cell, then its successor or its parts, and a comparison. -/
def questions (d : Datum) : StoreM Report := do
  let n ← StoreM.toNoun d
  let isCell ← Memory.isCell n
  let kind := [truthEntry !isCell, truthEntry isCell, truthEntry isCell]
  if isCell then
    let head ← nounEntry (← Memory.head n)
    let tail ← nounEntry (← Memory.tail n)
    let same ← StoreM.same n n
    return kind ++ [head, tail, truthEntry same]
  else
    let next ← Memory.bump n
    let same ← StoreM.same n next
    return kind ++ [← nounEntry next, truthEntry same]

/-- Conversions and questions that fail, except that of a negative number, which is an atom as well. -/
def mistakes : List (StoreM Datum) := [
  StoreM.toNoun (.tuple []),
  StoreM.toNoun (.text "x"),
  StoreM.toNoun (.atom (-1)),
  Memory.head (.atom 5),
  Memory.tail (.atom 5),
  do Memory.bump (← StoreM.newCell (.atom 1) (.atom 2) 0)]

/-- Convert `count` data and ask about them, then make some mistakes and count them. -/
def primitives (count : Int) : Except Fault Report := do
  let answers ← (List.range count.toNat).mapM fun i => ((item i >>= questions).run.run {}).1
  let attempts := mistakes.map fun attempt => (attempt.run.run {}).1
  return answers.flatten ++ [.number (failures attempts)]

end Nock.Workload
