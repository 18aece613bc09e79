import Nock.Jam
import Nock.Memory

/-!
# Reading serialised nouns

`cue` reads the bits that `Noun.jamBits` writes, and any others as far as they make sense.  A part
is entered into the table of positions **when it is complete**, back-references included, so a
reference into a cell that is still being read is unknown.

Every part takes at least one bit, so the number of bits bounds how deeply parts can nest.
-/

namespace Nock

open Memory

namespace Cue

variable {m : Type → Type} {ρ : Type} [Monad m] [MonadExceptOf Fault m] [Memory m ρ]

/-- The complete parts and the positions at which they began, the last one first. -/
abbrev Known (ρ : Type) := List (Nat × ρ)

/-- Read the part that begins here.  `fuel` bounds how deeply parts nest. -/
@[specialize] def part : (fuel : Nat) → Bits.Tape → Known ρ → m (ρ × Bits.Tape × Known ρ)
  | 0, _, _ => throw .outOfBits
  | fuel + 1, start, known => do
      let (structured, tape) ← MonadExcept.ofExcept start.next
      if structured then
        let (again, tape) ← MonadExcept.ofExcept tape.next
        if again then
          let (position, tape) ← MonadExcept.ofExcept tape.rub
          match known.lookup position with
          | some n => pure (n, tape, (start.position, n) :: known)
          | none => throw (.unknownReference position)
        else
          let (head, tape, known) ← part fuel tape known
          let (tail, tape, known) ← part fuel tape known
          let n ← cell head tail
          pure (n, tape, (start.position, n) :: known)
      else
        let (n, tape) ← MonadExcept.ofExcept tape.rub
        let n := atom m n
        pure (n, tape, (start.position, n) :: known)

end Cue

variable {m : Type → Type} {ρ : Type} [Monad m] [MonadExceptOf Fault m] [Memory m ρ]

/-- Read a noun from the start of a bit string; what follows it is not looked at. -/
@[specialize] def cueBits (bits : List Bool) : m ρ := do
  return (← Cue.part (bits.length + 1) ⟨bits, 0⟩ []).1

/-- Read a noun from a number. -/
@[specialize] def cue (n : Int) : m ρ :=
  cueBits (Bits.ofNumber n)

/-- Read a plain noun from a number. -/
abbrev Noun.cue (n : Int) : Except Fault Noun :=
  Nock.cue n

/-- Read a plain noun from the start of a bit string. -/
abbrev Noun.cueBits (bits : List Bool) : Except Fault Noun :=
  Nock.cueBits bits

end Nock
