import Nock.Notebook.Kernel

/-!
# Workloads and their reports

A workload exercises one part of the library at a chosen size and reports what it computed, so that
two runs can be compared entry by entry.
-/

namespace Nock.Workload

/-- An entry of a report. -/
inductive Entry where
  | noun (n : Noun)
  | text (s : String)
  | bytes (bs : List UInt8)
  | flag (b : Bool)
  | message (m : Notebook.Message)
  | row (entries : List Entry)

/-- A number as an entry. -/
def Entry.number (n : Int) : Entry :=
  .noun (.atom n)

/-- What a workload reports. -/
abbrev Report := List Entry

/-- The first `count` items of the list repeated without end; none if `count` is not positive. -/
def cycle {α : Type} (base : List α) (count : Int) : List α :=
  (List.range count.toNat).filterMap fun i => base[i % base.length]?

/-- How many of the attempts failed. -/
def failures {α : Type} (attempts : List (Except Fault α)) : Nat :=
  (attempts.filter fun | .error _ => true | .ok _ => false).length

/-- The natural number that a size parameter stands for when a computation counts it down to zero.
A negative size is never counted down to zero, so such a computation meets every bound. -/
def countdown (size : Int) : Except Fault Nat :=
  if size < 0 then .error .tooDeep else .ok size.toNat

end Nock.Workload
