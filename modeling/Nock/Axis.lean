import Nock.Memory

/-!
# Axes

An axis addresses a part of a noun.  Axis 1 is the whole, and if `x` addresses a cell then `2 x`
addresses its head and `2 x + 1` its tail.  `slot` looks a part up and `edit` puts another noun in
its place, rebuilding the cells above it and keeping everything beside them.

Both halve the axis at every step, rounding down, and both carry a bound on how deeply they may
nest.  A positive axis ends at 1.  Axis 0 addresses nothing and a negative axis ends at −1 over and
over again, so such an `edit`, and a `slot` at a negative axis, always meet the bound.
-/

namespace Nock

open Memory

variable {m : Type → Type} {ρ : Type} [Monad m] [MonadExceptOf Fault m] [Memory m ρ]

/-- The part of a settled noun at an axis. -/
@[specialize] def slot : (bound : Nat) → (axis : Int) → (n : ρ) → m ρ
  | 0, _, _ => throw .tooDeep
  | bound + 1, axis, n =>
      if axis = 0 then throw .zeroAxis
      else if axis = 1 then pure n
      else do
        let part ← slot bound (axis / 2) n
        if axis % 2 = 0 then head part else tail part

/-- The settled noun `n` with `part` at an axis. -/
@[specialize] def edit : (bound : Nat) → (axis : Int) → (part n : ρ) → m ρ
  | 0, _, _, _ => throw .tooDeep
  | bound + 1, axis, part, n =>
      if axis = 1 then pure part
      else if axis % 2 = 0 then do
        let sibling ← slot bound (axis + 1) n
        edit bound (axis / 2) (← cell part sibling) n
      else do
        let sibling ← slot bound (axis - 1) n
        edit bound (axis / 2) (← cell sibling part) n

/-- The part of `n` at the axis that the noun `axis` is. -/
@[inline] def slotAt (bound : Nat) (axis n : ρ) : m ρ := do
  let axis ← settle axis
  let n ← settle n
  match ← look axis with
  | .atom x => slot bound x n
  | _ => throw .cellAxis

/-- The noun `n` with `part` at the axis that the noun `axis` is. -/
@[inline] def editAt (bound : Nat) (axis part n : ρ) : m ρ := do
  let axis ← settle axis
  let part ← settle part
  let n ← settle n
  match ← look axis with
  | .atom x => edit bound x part n
  | _ => throw .cellEditAxis

/-- The part of a plain noun at an axis. -/
abbrev Noun.slot (bound : Nat) (axis : Int) (n : Noun) : Except Fault Noun :=
  Nock.slot bound axis n

/-- A plain noun with `part` at an axis. -/
abbrev Noun.edit (bound : Nat) (axis : Int) (part n : Noun) : Except Fault Noun :=
  Nock.edit bound axis part n

end Nock
