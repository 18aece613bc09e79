/-!
# Nouns

A noun is an atom or a cell of two nouns.  Atoms are integers: the machine itself only makes
natural numbers out of natural numbers, but nothing stops a caller from handing in a negative one.
-/

namespace Nock

/-- A binary tree with integers at its leaves. -/
inductive Noun where
  | atom (n : Int)
  | cell (head tail : Noun)
  deriving DecidableEq, Repr, Inhabited

namespace Noun

/-- The noun of a sequence: nothing is 0, a single noun is itself, and more of them hang to the
right, so that `ofList [a, b, c]` is `[a [b c]]`. -/
def ofList : List Noun → Noun
  | [] => .atom 0
  | [n] => n
  | n :: rest => .cell n (ofList rest)

/-- Is the noun a cell? -/
def isCell : Noun → Bool
  | .atom _ => false
  | .cell _ _ => true

/-- The head and the tail of a cell. -/
def parts? : Noun → Option (Noun × Noun)
  | .atom _ => none
  | .cell head tail => some (head, tail)

@[simp] theorem parts?_atom (n : Int) : (atom n).parts? = none := rfl

@[simp] theorem parts?_cell (head tail : Noun) : (cell head tail).parts? = some (head, tail) := rfl

/-- The length of the longest path from the root to an atom. -/
def height : Noun → Nat
  | .atom _ => 0
  | .cell h t => max h.height t.height + 1

/-- The complete tree of the given depth with the same noun at every leaf. -/
def complete (leaf : Noun) : Nat → Noun
  | 0 => leaf
  | d + 1 => .cell (complete leaf d) (complete leaf d)

end Noun

end Nock
