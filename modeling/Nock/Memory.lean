import Nock.Fault
import Nock.Noun.Basic

/-!
# Ways to hold nouns

The machine does not care how nouns are held.  It takes them apart, pairs them, compares them and
copies them, and these operations are a `Memory`.  Two memories exist: plain nouns, given here, and a
store of cells that have an identity, may be shared, and change when they are compared
(`Nock.Store`).  A program written once over a `Memory` runs on both.

What a memory holds need not be a noun: a cell of a store may have anything as its head.  Such a
**foreign** value is met as it is by `look`, while `settle` turns it into the noun it stands for, or
fails if it stands for none.  Plain nouns are always settled.
-/

namespace Nock

/-- What a held value looks like from outside. -/
inductive Shape (ρ : Type) where
  | atom (n : Int)
  | cell (head tail : ρ)
  /-- Not a noun; it has a text, unless a number in it is too long. -/
  | foreign (text : Except Fault String)

/-- A way to hold nouns as values of type `ρ`, with effects in `m`. -/
class Memory (m : Type → Type) (ρ : outParam Type) where
  /-- Hold an atom. -/
  atom : Int → ρ
  /-- The noun that a value stands for. -/
  settle : ρ → m ρ
  /-- Take a value apart as it is. -/
  look : ρ → m (Shape ρ)
  /-- A new cell of two values. -/
  cell : ρ → ρ → m ρ
  /-- Are two values equal? -/
  same : ρ → ρ → m Bool
  /-- A copy that shares no cell with the value. -/
  copy : ρ → m ρ

/-- Plain nouns hold themselves. -/
instance : Memory (Except Fault) Noun where
  atom := Noun.atom
  settle n := pure n
  look
    | .atom n => pure (.atom n)
    | .cell h t => pure (.cell h t)
  cell h t := pure (.cell h t)
  same a b := pure (a == b)
  copy n := pure n

namespace Memory

variable {m : Type → Type} {ρ : Type} [Monad m] [MonadExceptOf Fault m] [Memory m ρ]

/-- The head and the tail of a cell. -/
@[inline] def split (n : ρ) : m (ρ × ρ) := do
  let n ← settle n
  match ← look n with
  | .cell h t => pure (h, t)
  | _ => throw .splitAtom

/-- The head of a cell. -/
@[inline] def head (n : ρ) : m ρ := do
  return (← split n).1

/-- The tail of a cell. -/
@[inline] def tail (n : ρ) : m ρ := do
  return (← split n).2

/-- Truth as an atom: 0 is yes and 1 is no. -/
@[inline] def truth (m : Type → Type) {ρ : Type} [Memory m ρ] (b : Bool) : ρ :=
  atom m (if b then 0 else 1)

/-- Is the noun a cell? -/
@[inline] def isCell (n : ρ) : m Bool := do
  let n ← settle n
  match ← look n with
  | .cell _ _ => pure true
  | _ => pure false

/-- The successor of an atom. -/
@[inline] def bump (n : ρ) : m ρ := do
  let n ← settle n
  match ← look n with
  | .atom k => pure (atom m (k + 1))
  | _ => throw .bumpCell

/-- Are two nouns equal? -/
@[inline] def equal (a b : ρ) : m Bool := do
  let a ← settle a
  let b ← settle b
  same a b

end Memory

end Nock
