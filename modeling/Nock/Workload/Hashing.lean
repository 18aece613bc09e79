import Nock.Store.Hash
import Nock.Store.Memory
import Nock.Workload.Report

/-!
# Hashing and comparing

The first atoms are hashed, and two complete trees that share no cell are hashed and compared with
each other.  Other pairs of nouns are compared as well.
-/

namespace Nock.Workload

/-- The depth of the trees that are compared, which grows with the number of binary digits. -/
def treeDepth (count : Int) : Nat :=
  max 3 (bitLength count - 2)

/-- Hold two nouns and compare them. -/
def comparePair (left right : Noun) : StoreM Entry := do
  let left ← StoreM.hold left
  let right ← StoreM.hold right
  return .flag (← StoreM.same left right)

/-- Compare two separately held trees before and after their mugs are known, then other nouns. -/
def comparing (others : List (Noun × Noun)) (depth : Nat) : StoreM Report := do
  let left ← StoreM.hold (Noun.complete (.atom 0) depth)
  let right ← StoreM.hold (Noun.complete (.atom 0) depth)
  let leftMug ← StoreM.mug left
  let firstAnswer ← StoreM.same left right
  let rightMug ← StoreM.mug right
  let secondAnswer ← StoreM.same left right
  let answers ← others.mapM fun pair => comparePair pair.1 pair.2
  let pair ← StoreM.newCell (.atom 1) (.atom 2) 0
  return [.number leftMug, .flag firstAnswer, .number rightMug, .flag secondAnswer] ++ answers
    ++ [.number (← StoreM.mug pair)]

/-- Hash the atoms below `count`, compare trees and the other pairs, and take `count` itself apart into
bytes. -/
def hashing (others : List (Noun × Noun)) (count : Int) : Except Fault Report := do
  let mugs ← (List.range count.toNat).mapM fun (i : Nat) => Mug.ofAtom i
  let compared ← ((comparing others (treeDepth count)).run.run {}).1
  let mug ← Mug.ofAtom count
  let bytes ← toBytes count
  return mugs.map Entry.number ++ compared ++ [.number mug, .number (byteLength count), .bytes bytes]

end Nock.Workload
