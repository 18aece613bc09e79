import Nock.Store.Convert
import Nock.Workload.Report

/-!
# Gathering sequences and printing nouns

Nested sequences are gathered into nouns, and complete trees and lists are printed.
-/

namespace Nock.Workload

/-- The nested sequence of the given depth: twice the next shallower one, and the depth. -/
def nestedSequence : Nat → Datum
  | 0 => .atom 0
  | d + 1 => .list [nestedSequence d, nestedSequence d, .atom (d + 1)]

/-- Gather a sequence into cells and print them. -/
def printGathered (sequence : Datum) : StoreM String := do
  StoreM.pretty (← StoreM.gather sequence) false

/-- The text of a sequence gathered into cells. -/
def gatheredText (sequence : Datum) : Except Fault String :=
  ((printGathered sequence).run.run {}).1

/-- The numbers from 1 to `count`, closed by 0. -/
def countedList (count : Nat) : Noun :=
  Noun.ofList (((List.range count).map fun (i : Nat) => Noun.atom (i + 1)) ++ [.atom 0])

/-- Gather and print at the given depth. -/
def printing (depth : Int) : Except Fault Report := do
  let d ← countdown depth
  let tree := Noun.complete (.atom 0) d
  let counted := countedList (max 1 ((1 <<< d) / 8))
  return [
    .text (← gatheredText (nestedSequence d)),
    .text (← tree.pretty true),
    .text (← counted.pretty false),
    .text (← tree.pretty false),
    .text (← gatheredText (.list []))]

end Nock.Workload
