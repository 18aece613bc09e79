import Nock.Proofs.Mug
import Nock.Proofs.Reader
import Nock.Proofs.Store.Refinement

/-!
# Reading any bits

Bits need not come from serialising.  Whatever they are, reading a noun from them **ends**: with a
natural noun, because the bits run out, or because a reference goes to a place where no complete
part begins.

**No bound is met.**  `Cue.part` carries a bound on nesting, and if it is met the outcome is as if
the bits ran out.  To see that this never happens, the reader is written once more, with every loop
going bit by bit and with a bound that is told apart when it is met (`Cue.partWithin`).  Every part
takes a bit at least, so the bits that are left are a measure: a bound above it is not met, and the
outcome is that of `Cue.part` (`Cue.partWithin_eq`).

**Nothing else is looked at.**  A noun that was read from the first `k` bits is read from any bits
that begin with these, and from fewer bits nothing is read but that they run out
(`Noun.cueCount_local`).  This is `Cue.delimited_reader` for a whole bit string, whose length gives
the bound.
-/

namespace Nock

open Bits

/-! ## How much is read -/

section

variable {m : Type → Type} {ρ : Type} [Monad m] [MonadExceptOf Fault m] [Memory m ρ]

/-- Read a noun from the start of a bit string, and count the bits that it takes. -/
def cueCount (bits : List Bool) : m (ρ × Nat) := do
  let (n, tape, _) ← Cue.part (bits.length + 1) ⟨bits, 0⟩ []
  return (n, tape.position)

lemma cueBits_eq_fst [LawfulMonad m] (bits : List Bool) :
    (cueBits bits : m ρ) = Prod.fst <$> cueCount bits := by
  simp [cueBits, cueCount]

/-- Read a plain noun from the start of a bit string, and count the bits that it takes. -/
abbrev Noun.cueCount (bits : List Bool) : Except Fault (Noun × Nat) :=
  Nock.cueCount bits

end

namespace Cue

/-! ## Reading bit by bit -/

/-- A computation that may fail and may meet its bound, which is `none`. -/
abbrev Bounded := ExceptT Fault Option

/-- The bound is met. -/
def tooLong {α : Type} : Bounded α :=
  ExceptT.mk none

/-- Count the zeros before the next one, bit by bit, within so many bits. -/
def zerosWithin : (bound : Nat) → Tape → Bounded (Nat × Tape)
  | 0, _ => tooLong
  | bound + 1, tape => do
      let (one, tape) ← MonadExcept.ofExcept tape.next
      if one then
        pure (0, tape)
      else
        let (zeros, tape) ← zerosWithin bound tape
        pure (zeros + 1, tape)

/-- Read `count` bits as a number, bit by bit. -/
def numberOf : (count : Nat) → Tape → Bounded (Nat × Tape)
  | 0, tape => pure (0, tape)
  | count + 1, tape => do
      let (b, tape) ← MonadExcept.ofExcept tape.next
      let (n, tape) ← numberOf count tape
      pure (2 * n + b.toNat, tape)

/-- Read the self-delimiting code of a number, bit by bit. -/
def rubWithin (bound : Nat) (tape : Tape) : Bounded (Nat × Tape) := do
  let (zeros, tape) ← zerosWithin bound tape
  if zeros = 0 then
    pure (0, tape)
  else
    let (low, tape) ← numberOf (zeros - 1) tape
    numberOf ((1 <<< (zeros - 1)) + low) tape

/-- Read the part that begins here, nested at most so deeply. -/
def partWithin : (bound : Nat) → Tape → Known Noun → Bounded (Noun × Tape × Known Noun)
  | 0, _, _ => tooLong
  | bound + 1, start, known => do
      let (structured, tape) ← MonadExcept.ofExcept start.next
      if structured then
        let (again, tape) ← MonadExcept.ofExcept tape.next
        if again then
          let (position, tape) ← rubWithin bound tape
          match known.lookup position with
          | some n => pure (n, tape, (start.position, n) :: known)
          | none => throw (.unknownReference position)
        else
          let (head, tape, known) ← partWithin bound tape known
          let (tail, tape, known) ← partWithin bound tape known
          pure (.cell head tail, tape, (start.position, .cell head tail) :: known)
      else
        let (n, tape) ← rubWithin bound tape
        pure (.atom n, tape, (start.position, .atom n) :: known)

/-- Read a noun from the start of a bit string, and count the bits that it takes. -/
def bitsWithin (bound : Nat) (bits : List Bool) : Bounded (Noun × Nat) := do
  let (n, tape, _) ← partWithin bound ⟨bits, 0⟩ []
  pure (n, tape.position)

/-- The bits of a number, which is halved until nothing is left. -/
def digitsWithin : (bound : Nat) → Int → Bounded (List Bool)
  | 0, _ => tooLong
  | bound + 1, n =>
      if 0 < n then do
        let rest ← digitsWithin bound (n / 2)
        pure ((n % 2 == 1) :: rest)
      else
        pure []

/-- Read a noun from a number. -/
def nounWithin (bound : Nat) (n : Int) : Bounded Noun := do
  let bits ← digitsWithin bound n
  let (n, _) ← bitsWithin bound bits
  pure n

section

variable {α β : Type}

/-- A computation that ends. -/
def ending (x : Except Fault α) : Bounded α :=
  MonadExcept.ofExcept x

@[simp] lemma ofExcept_eq_ending (x : Except Fault α) :
    (MonadExcept.ofExcept x : Bounded α) = ending x := rfl

@[simp] lemma run_ending (x : Except Fault α) : (ending x).run = some x := by
  cases x <;> rfl

@[simp] lemma ending_ok_bind (a : α) (f : α → Bounded β) : (ending (.ok a) >>= f) = f a := rfl

/-- Sequences of computations that end. -/
lemma ending_bind {x : Except Fault α} {f : α → Bounded β} {g : α → Except Fault β}
    (h : ∀ a, x = .ok a → f a = ending (g a)) : (ending x >>= f) = ending (x >>= g) := by
  cases x with
  | error e => rfl
  | ok a => exact h a rfl

end

/-! ## Every loop ends -/

/-- Counting zeros ends, with the bits if not before. -/
lemma zerosWithin_eq : ∀ (bound : Nat) (bits : List Bool) (position : Nat), bits.length < bound →
    zerosWithin bound ⟨bits, position⟩ = ending (Tape.unary ⟨bits, position⟩)
  | bound + 1, [], position, _ => rfl
  | bound + 1, true :: rest, position, _ => rfl
  | bound + 1, false :: rest, position, h => by
      have hrest := zerosWithin_eq bound rest (position + 1) (Nat.lt_of_succ_lt_succ h)
      rw [zerosWithin, unary_false, ofExcept_eq_ending, next_cons, ending_ok_bind]
      simp only [Bool.false_eq_true, if_false, hrest]
      exact ending_bind fun _ _ => rfl

lemma numberOf_eq : ∀ (count : Nat) (tape : Tape),
    numberOf count tape = ending (tape.number count)
  | 0, tape => rfl
  | count + 1, ⟨[], position⟩ => rfl
  | count + 1, ⟨b :: rest, position⟩ => by
      rw [numberOf, number_succ, ofExcept_eq_ending, next_cons, ending_ok_bind]
      simp only [numberOf_eq count]
      exact ending_bind fun _ _ => rfl

lemma rubWithin_eq {bound : Nat} {tape : Tape} (h : tape.rest.length < bound) :
    rubWithin bound tape = ending tape.rub := by
  rw [rubWithin, Tape.rub, zerosWithin_eq bound tape.rest tape.position h]
  refine ending_bind ?_
  rintro ⟨zeros, tape⟩ -
  dsimp only
  split_ifs
  · rfl
  · rw [numberOf_eq]
    exact ending_bind fun _ _ => numberOf_eq _ _

/-- No part goes back on the tape. -/
lemma length_le_of_part {fuel : Nat} {tape tape' : Tape} {known known' : Known Noun} {n : Noun}
    (h : (part fuel tape known : Except Fault _) = .ok (n, tape', known')) :
    tape'.rest.length ≤ tape.rest.length := by
  have hread : reader fuel known tape = .ok ((n, known'), tape') := by
    rw [reader, h]
    rfl
  obtain ⟨read, hrest, -⟩ := delimited_reader fuel known _ _ _ hread
  rw [hrest, List.length_append]
  omega

/-- **No bound is met** that exceeds the number of bits, on either side. -/
lemma partWithin_eq : ∀ (bound fuel : Nat) (tape : Tape) (known : Known Noun),
    tape.rest.length < bound → tape.rest.length < fuel →
      partWithin bound tape known = ending (part fuel tape known)
  | bound + 1, fuel + 1, start, known, hbound, hfuel => by
      rw [partWithin, part, ofExcept_eq_ending, ofExcept_eq_self]
      refine ending_bind ?_
      rintro ⟨structured, tape⟩ hnext
      have hlength := length_of_next hnext
      have hless : tape.rest.length < bound := by omega
      cases structured with
      | false =>
          simp only [Bool.false_eq_true, if_false, rubWithin_eq hless, ofExcept_eq_self]
          exact ending_bind fun _ _ => rfl
      | true =>
          simp only [if_true, ofExcept_eq_ending, ofExcept_eq_self]
          refine ending_bind ?_
          rintro ⟨again, tape₁⟩ hnext₁
          have hlength₁ := length_of_next hnext₁
          have hless₁ : tape₁.rest.length < bound := by omega
          cases again with
          | true =>
              simp only [if_true, rubWithin_eq hless₁]
              refine ending_bind ?_
              rintro ⟨position, tape₂⟩ -
              dsimp only
              cases known.lookup position <;> rfl
          | false =>
              simp only [Bool.false_eq_true, if_false]
              rw [partWithin_eq bound fuel tape₁ known hless₁ (by omega)]
              refine ending_bind ?_
              rintro ⟨head, tape₂, known₁⟩ hhead
              have hlength₂ := length_le_of_part hhead
              dsimp only
              rw [partWithin_eq bound fuel tape₂ known₁ (by omega) (by omega)]
              exact ending_bind fun _ _ => rfl

/-- Two bounds that are not met make no difference. -/
lemma part_eq_part {fuel fuel' : Nat} {tape : Tape} (h : tape.rest.length < fuel)
    (h' : tape.rest.length < fuel') (known : Known Noun) :
    (part fuel tape known : Except Fault _) = part fuel' tape known := by
  have heq := (partWithin_eq fuel fuel tape known h h).symm.trans
    (partWithin_eq fuel fuel' tape known h h')
  simpa using congrArg ExceptT.run heq

lemma bitsWithin_eq {bound : Nat} {bits : List Bool} (h : bits.length < bound) :
    bitsWithin bound bits = ending (Noun.cueCount bits) := by
  rw [bitsWithin, partWithin_eq bound (bits.length + 1) _ _ h (Nat.lt_succ_self _)]
  exact ending_bind fun _ _ => rfl

/-- Halving ends. -/
lemma digitsWithin_eq : ∀ (bound : Nat) (n : Int), (ofNumber n).length < bound →
    digitsWithin bound n = ending (.ok (ofNumber n))
  | bound + 1, n, h => by
      rw [digitsWithin]
      split_ifs with hpos
      · rw [ofNumber_half hpos, List.length_cons] at h
        rw [digitsWithin_eq bound (n / 2) (Nat.lt_of_succ_lt_succ h), ofNumber_half hpos]
        rfl
      · rw [ofNumber, if_pos (Int.not_lt.mp hpos)]
        rfl

lemma nounWithin_eq {bound : Nat} {n : Int} (h : (ofNumber n).length < bound) :
    nounWithin bound n = ending (Noun.cue n) := by
  rw [nounWithin, digitsWithin_eq bound n h, ending_ok_bind, bitsWithin_eq h, Noun.cue, cue,
    cueBits_eq_fst]
  exact ending_bind fun _ _ => rfl

/-! ## How reading ends -/

section

variable {α β : Type}

/-- Reading ends with a value that has the given property, or the bits run out, or a reference goes
to a place where no complete part begins. -/
inductive Ends (P : α → Prop) : Except Fault α → Prop
  | ok {a : α} (h : P a) : Ends P (.ok a)
  | outOfBits : Ends P (.error .outOfBits)
  | unknownReference (position : Nat) : Ends P (.error (.unknownReference position))

lemma Ends.bind {P : α → Prop} {Q : β → Prop} {x : Except Fault α} {f : α → Except Fault β}
    (hx : Ends P x) (hf : ∀ a, P a → Ends Q (f a)) : Ends Q (x >>= f) := by
  cases hx with
  | ok h => exact hf _ h
  | outOfBits => exact .outOfBits
  | unknownReference position => exact .unknownReference position

end

lemma ends_next (tape : Tape) : Ends (fun _ => True) tape.next := by
  rcases tape with ⟨bits, position⟩
  cases bits with
  | nil => exact .outOfBits
  | cons b rest => exact .ok trivial

lemma ends_number (tape : Tape) (count : Nat) : Ends (fun _ => True) (tape.number count) := by
  rw [Tape.number]
  split_ifs
  · exact .outOfBits
  · exact .ok trivial

lemma ends_unary (tape : Tape) : Ends (fun _ => True) tape.unary := by
  simp only [Tape.unary]
  split
  · exact .outOfBits
  · exact .ok trivial

lemma ends_rub (tape : Tape) : Ends (fun _ => True) tape.rub := by
  rw [Tape.rub]
  refine (ends_unary tape).bind ?_
  rintro ⟨zeros, tape⟩ -
  dsimp only
  split_ifs
  · exact .ok trivial
  · exact (ends_number _ _).bind fun _ _ => ends_number _ _

/-- Every noun of the table is natural. -/
def Known.Natural (known : Known Noun) : Prop :=
  ∀ entry ∈ known, entry.2.Natural

lemma Known.Natural.cons {known : Known Noun} (h : Known.Natural known) {n : Noun}
    (hn : n.Natural) (position : Nat) : Known.Natural ((position, n) :: known) := by
  intro entry hentry
  rcases List.mem_cons.mp hentry with rfl | hentry
  · exact hn
  · exact h entry hentry

lemma Known.Natural.lookup {known : Known Noun} (h : Known.Natural known) {position : Nat}
    {n : Noun} (hn : known.lookup position = some n) : n.Natural := by
  obtain ⟨before, after, rfl, -⟩ := List.lookup_eq_some_iff.mp hn
  exact h (position, n) (by simp)

/-- Parts are made of natural atoms and of parts that are known. -/
lemma ends_part : ∀ (fuel : Nat) (tape : Tape) {known : Known Noun}, Known.Natural known →
    Ends (fun read => read.1.Natural ∧ Known.Natural read.2.2) (part fuel tape known)
  | 0, _, _, _ => .outOfBits
  | fuel + 1, start, known, hknown => by
      rw [part, ofExcept_eq_self]
      refine (ends_next start).bind ?_
      rintro ⟨structured, tape⟩ -
      cases structured with
      | false =>
          simp only [Bool.false_eq_true, if_false, ofExcept_eq_self]
          refine (ends_rub tape).bind ?_
          rintro ⟨n, tape⟩ -
          have hn : (Noun.atom n).Natural := Int.natCast_nonneg n
          exact .ok ⟨hn, hknown.cons hn _⟩
      | true =>
          simp only [if_true, ofExcept_eq_self]
          refine (ends_next tape).bind ?_
          rintro ⟨again, tape⟩ -
          cases again with
          | true =>
              simp only [if_true]
              refine (ends_rub tape).bind ?_
              rintro ⟨position, tape⟩ -
              dsimp only
              cases hlookup : known.lookup position with
              | none => exact .unknownReference position
              | some n =>
                  have hn := hknown.lookup hlookup
                  exact .ok ⟨hn, hknown.cons hn _⟩
          | false =>
              simp only [Bool.false_eq_true, if_false]
              refine (ends_part fuel tape hknown).bind ?_
              rintro ⟨head, tape, known⟩ ⟨hhead, hknown⟩
              refine (ends_part fuel tape hknown).bind ?_
              rintro ⟨tail, tape, known⟩ ⟨htail, hknown⟩
              have hcell : (Noun.cell head tail).Natural := ⟨hhead, htail⟩
              exact .ok ⟨hcell, hknown.cons hcell _⟩

lemma ends_cueBits (bits : List Bool) : Ends Noun.Natural (Noun.cueBits bits) := by
  have hnone : Known.Natural [] := fun _ h => by cases h
  exact (ends_part (bits.length + 1) ⟨bits, 0⟩ hnone).bind fun _ h => .ok h.1

end Cue

/-! ## What reading looks at -/

/-- Under a bound that is not met, the reader of parts reads the noun. -/
lemma Noun.cueCount_eq_reader {bits : List Bool} {fuel : Nat} (h : bits.length < fuel) :
    Noun.cueCount bits = (do
      let ((n, _), tape) ← Cue.reader fuel [] ⟨bits, 0⟩
      pure (n, tape.position)) := by
  have hpart : (Cue.part (bits.length + 1) ⟨bits, 0⟩ [] : Except Fault _) =
      Cue.part fuel ⟨bits, 0⟩ [] := Cue.part_eq_part (Nat.lt_succ_self bits.length) h []
  rw [Noun.cueCount, Nock.cueCount, hpart, Cue.reader, bind_assoc]
  rfl

/-- A noun takes the bits that are counted. -/
lemma Noun.takes_of_cueCount {bits : List Bool} {n : Noun} {k fuel : Nat}
    (h : Noun.cueCount bits = .ok (n, k)) (hfuel : bits.length < fuel) :
    k ≤ bits.length ∧ ∃ known, (Cue.reader fuel []).Takes 0 (bits.take k) (n, known) := by
  rw [cueCount_eq_reader hfuel] at h
  obtain ⟨⟨⟨_, known⟩, tape⟩, hread, heq⟩ := bind_eq_ok.mp h
  cases heq
  obtain ⟨read, hbits, hposition, htakes⟩ := Cue.delimited_reader fuel [] _ _ _ hread
  dsimp only at hbits hposition htakes
  rw [Nat.zero_add] at hposition
  rw [hposition, hbits, List.take_left]
  exact ⟨by simp, known, htakes⟩

/-- **Nothing else is looked at.**  A noun that takes `k` bits is read from any bits that begin with
these; from fewer of them it is not, and neither is anything else. -/
lemma Noun.cueCount_local {bits : List Bool} {n : Noun} {k : Nat}
    (h : Noun.cueCount bits = .ok (n, k)) :
    k ≤ bits.length ∧
    (∀ other : List Bool, other.take k = bits.take k → Noun.cueCount other = .ok (n, k)) ∧
    ∀ part, part <+: bits.take k → part ≠ bits.take k →
      Noun.cueCount part = .error .outOfBits := by
  have hk := (takes_of_cueCount h (Nat.lt_succ_self _)).1
  refine ⟨hk, fun other hother => ?_, fun part hpart hne => ?_⟩
  · have hfuel : bits.length < bits.length + other.length + 1 := by omega
    obtain ⟨-, known, htakes⟩ := takes_of_cueCount h hfuel
    have hread := htakes.whole (other.drop k)
    rw [← hother, List.take_append_drop, hother, List.length_take_of_le hk] at hread
    rw [cueCount_eq_reader (show other.length < bits.length + other.length + 1 by omega), hread]
    simp
  · obtain ⟨-, known, htakes⟩ := takes_of_cueCount h (Nat.lt_succ_self _)
    have hless : part.length < bits.length + 1 := by
      have := hpart.length_le
      have := List.length_take_le k bits
      omega
    rw [cueCount_eq_reader hless, htakes.cut part hpart hne]
    rfl

/-! ## Reading into a store -/

/-- The datum that was read denotes the noun, and the counts are the same. -/
def Store.HoldsCounted (s : Store) (read : Datum × Nat) (plain : Noun × Nat) : Prop :=
  s.Has read.1 plain.1 ∧ read.2 = plain.2

lemma cueCount_realizes {s : Store} (hs : s.Sound) (bits : List Bool) :
    Realizes s (cueCount bits) (Noun.cueCount bits) Store.HoldsCounted := by
  have hrefines : Refines s s.reading (cueCount bits) (Noun.cueCount bits)
      fun s ν read plain => s.Denotes ν read.1 plain.1 ∧ read.2 = plain.2 := by
    refine (part_refines _ _ hs.fits .nil).bind fun _ _ _ _ _ hs₁ hread => ?_
    exact .pure hs₁ ⟨hread.1, congrArg Tape.position hread.2.1⟩
  exact hrefines.realizes hs.fits fun _ _ _ _ hs' h => ⟨hs'.noun?_eq h.1, h.2⟩

/-! ## All bits -/

/-- **Reading ends, whatever the bits are.**  Reading bit by bit meets no bound above the number of
bits, and gives what `cueCount` gives: a natural noun, or that the bits run out, or that a reference
goes nowhere; a store holds the noun without cycles.  A noun takes `k` of the bits, the same noun is
read from any bits that begin with these, and fewer of them run out.  Reading from a number ends in
the same ways. -/
theorem cueCount_ends :
    (∀ bits : List Bool,
      (∀ bound, bits.length < bound →
        (Cue.bitsWithin bound bits).run = some (Noun.cueCount bits)) ∧
      Noun.cueBits bits = Prod.fst <$> Noun.cueCount bits ∧
      Cue.Ends Noun.Natural (Noun.cueBits bits) ∧
      (cueBits bits : StoreM Datum) = Prod.fst <$> cueCount bits ∧
      (∀ s : Store, s.Sound →
        Realizes s (cueCount bits) (Noun.cueCount bits) Store.HoldsCounted) ∧
      ∀ n k, Noun.cueCount bits = .ok (n, k) →
        k ≤ bits.length ∧
        (∀ other : List Bool, other.take k = bits.take k → Noun.cueCount other = .ok (n, k)) ∧
        ∀ part, part <+: bits.take k → part ≠ bits.take k →
          Noun.cueCount part = .error .outOfBits) ∧
    ∀ i : Int,
      (∀ bound, (ofNumber i).length < bound →
        (Cue.nounWithin bound i).run = some (Noun.cue i)) ∧
      Cue.Ends Noun.Natural (Noun.cue i) ∧
      (cue i : StoreM Datum) = Prod.fst <$> cueCount (ofNumber i) := by
  refine ⟨fun bits => ⟨fun bound h => ?_, cueBits_eq_fst bits, Cue.ends_cueBits bits,
    cueBits_eq_fst bits, fun s hs => cueCount_realizes hs bits, fun n k => Noun.cueCount_local⟩,
    fun i => ⟨fun bound h => ?_, ?_, ?_⟩⟩
  · rw [Cue.bitsWithin_eq h, Cue.run_ending]
  · rw [Cue.nounWithin_eq h, Cue.run_ending]
  · exact Cue.ends_cueBits (ofNumber i)
  · exact cueBits_eq_fst (ofNumber i)

/-- The bits of `[0 0]` with the second atom as a reference to the first, and two bits more. -/
def referenceBits : List Bool :=
  [true, false, false, true, true, true, false, false, true, false, false, true] ++ [false, true]

/-- A store that holds a pair. -/
def pairStore : Store :=
  ⟨#[⟨.atom 1, .atom 2, 0, 1⟩], #[]⟩

theorem cueCount_ends_reference :
    Noun.cueCount referenceBits = .ok (.cell (.atom 0) (.atom 0), 12) ∧
    (∀ other : List Bool, other.take 12 = referenceBits.take 12 →
      Noun.cueCount other = .ok (.cell (.atom 0) (.atom 0), 12)) ∧
    (∀ part, part <+: referenceBits.take 12 → part ≠ referenceBits.take 12 →
      Noun.cueCount part = .error .outOfBits) ∧
    pairStore.Sound ∧
    Realizes pairStore (cueCount referenceBits) (.ok (.cell (.atom 0) (.atom 0), 12))
      Store.HoldsCounted := by
  have hread : Noun.cueCount referenceBits = .ok (.cell (.atom 0) (.atom 0), 12) := by rfl
  have hstore : pairStore.Sound := by decide +kernel
  obtain ⟨-, -, -, -, hrealizes, hlocal⟩ := cueCount_ends.1 referenceBits
  obtain ⟨-, hsame, hcut⟩ := hlocal _ _ hread
  exact ⟨hread, hsame, hcut, hstore, hread ▸ hrealizes pairStore hstore⟩

end Nock
