import Nock.Cue
import Nock.Workload.Report

/-!
# Addressing every leaf

Every leaf of a complete tree is looked up and then replaced by its own axis, so that the tree in
the end shows how its leaves are addressed.  Some nouns are serialised and read back as well.
-/

namespace Nock.Workload

/-- The axes of the leaves of the complete tree of the given depth, from left to right. -/
def leafAxes (depth : Nat) : List Int :=
  (List.range (1 <<< depth)).map fun i => (((1 <<< depth) + i : Nat) : Int)

/-- What stands at the leaves of the complete tree of zeros. -/
def leafValues (bound depth : Nat) : Except Fault (List Noun) :=
  (leafAxes depth).mapM fun axis => Noun.slot bound axis (Noun.complete (.atom 0) depth)

/-- The complete tree with every leaf replaced by its axis, one edit after the other. -/
def labelledTree (bound depth : Nat) : Except Fault Noun :=
  (leafAxes depth).foldlM (fun tree axis => Noun.edit bound axis (.atom axis) tree)
    (Noun.complete (.atom 0) depth)

/-- Lookups and an edit in a tree at what is no axis: at 0 and at a cell. -/
def misaddressed (bound : Nat) (tree : Noun) : List (Except Fault Noun) :=
  let pair := Noun.cell (.atom 1) (.atom 2)
  [slotAt bound (Noun.atom 0) tree, slotAt bound pair tree, editAt bound pair (.atom 0) tree]

/-- Nouns to be serialised: with shared cells, with shared atoms, and an atom that is the depth. -/
def serialised (depth : Nat) : List Noun :=
  let pair := Noun.cell (.atom 3) (.atom 4)
  [ .atom 0,
    .cell pair pair,
    Noun.ofList [.atom 7, .atom 7, .atom 7],
    Noun.ofList [.atom 1, .atom 0, .atom 0],
    .atom depth ]

/-- The text of the noun read back from a number. -/
def readBack (jammed : Nat) : Except Fault String := do
  let n ← Noun.cue jammed
  n.pretty false

/-- The number of places by which 1 is shifted to get the number of leaves. -/
def shiftCount (depth : Int) : Except Fault Nat :=
  if depth < 0 then .error .negativeShift else .ok depth.toNat

/-- Look up, edit, and serialise at the given depth. -/
def addressing (bound : Nat) (depth : Int) : Except Fault Report := do
  let d ← shiftCount depth
  let values ← leafValues bound d
  let labelled ← labelledTree bound d
  let numbers := (serialised d).map Noun.jam
  let texts ← numbers.mapM readBack
  return values.map Entry.noun ++ [
    .number (failures (misaddressed bound (Noun.complete (.atom 0) d))),
    .text (← labelled.pretty false),
    .row (numbers.map fun (n : Nat) => .number n),
    .row (texts.map Entry.text)]

end Nock.Workload
