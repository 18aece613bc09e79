import Nock.Cue
import Nock.Proofs.Bits

/-!
# Readers that know where they end

Whatever reads a tape bit by bit, and looks at nothing but the bits it reads, has two properties at
once.  What it has read determines what it gives, **whatever follows**; and if the tape ends
earlier, it **runs out of bits** and gives nothing else.  `Delimited` states both, and is closed
under sequences (`Delimited.bind`), so it holds of everything that is put together from single bits.
A bound on nesting does no harm, since a reader that meets it runs out of bits too.

`Cue.part` is such a reader at every depth (`Cue.delimited_reader`).  It hands on a table besides
the tape, so it is first written as a computation on the tape alone (`Cue.reader_succ`).
-/

namespace Nock

namespace Bits

/-- A reader goes along a tape, and gives a value or fails. -/
abbrev Reader (α : Type) := StateT Tape (Except Fault) α

variable {α β : Type}

/-- From the given position on, the reader gives `a` for the bits `read`, whatever follows them, and
runs out of bits if some of them are missing at the end. -/
structure Reader.Takes (x : Reader α) (position : Nat) (read : List Bool) (a : α) : Prop where
  whole : ∀ rest, x ⟨read ++ rest, position⟩ = .ok (a, ⟨rest, position + read.length⟩)
  cut : ∀ part, part <+: read → part ≠ read → x ⟨part, position⟩ = .error .outOfBits

/-- Whatever the reader gives, it takes the bits between where it begins and where it stops. -/
def Reader.Delimited (x : Reader α) : Prop :=
  ∀ tape tape' a, x tape = .ok (a, tape') → ∃ read, tape.rest = read ++ tape'.rest ∧
    tape'.position = tape.position + read.length ∧ x.Takes tape.position read a

/-! ## Putting readers together -/

lemma Reader.bind_eq_ok {x : Reader α} {f : α → Reader β} {tape tape' : Tape} {b : β}
    (h : (x >>= f) tape = .ok (b, tape')) :
    ∃ a tape₁, x tape = .ok (a, tape₁) ∧ f a tape₁ = .ok (b, tape') := by
  obtain ⟨⟨a, tape₁⟩, hx, hf⟩ := Nock.bind_eq_ok.mp h
  exact ⟨a, tape₁, hx, hf⟩

lemma Reader.bind_of_ok {x : Reader α} {tape tape' : Tape} {a : α} (h : x tape = .ok (a, tape'))
    (f : α → Reader β) : (x >>= f) tape = f a tape' := by
  change (x tape >>= fun p => f p.1 p.2) = f a tape'
  rw [h, ok_bind]

lemma Reader.bind_of_error {x : Reader α} {tape : Tape} {e : Fault} (h : x tape = .error e)
    (f : α → Reader β) : (x >>= f) tape = .error e := by
  change (x tape >>= fun p => f p.1 p.2) = .error e
  rw [h, error_bind]

/-- If `first ++ second` is cut off, it is cut off within `first` or within `second`. -/
lemma prefix_append_cases {part first second : List Bool} (h : part <+: first ++ second)
    (hne : part ≠ first ++ second) :
    (part <+: first ∧ part ≠ first) ∨ ∃ more, part = first ++ more ∧ more <+: second ∧
      more ≠ second := by
  rcases List.prefix_or_prefix_of_prefix h (List.prefix_append first second) with hpart | ⟨more, rfl⟩
  · by_cases heq : part = first
    · refine Or.inr ⟨[], by simp [heq], List.nil_prefix, ?_⟩
      rintro rfl
      exact hne (by simp [heq])
    · exact Or.inl ⟨hpart, heq⟩
  · refine Or.inr ⟨more, rfl, List.prefix_append_right_inj first |>.mp h, ?_⟩
    rintro rfl
    exact hne rfl

/-- Two readers one after the other take what the first takes and then what the second takes. -/
lemma Reader.Takes.bind {x : Reader α} {f : α → Reader β} {position : Nat}
    {first second : List Bool} {a : α} {b : β} (hx : x.Takes position first a)
    (hf : (f a).Takes (position + first.length) second b) :
    (x >>= f).Takes position (first ++ second) b := by
  refine ⟨fun rest => ?_, fun part hpart hne => ?_⟩
  · rw [List.append_assoc, bind_of_ok (hx.whole _), hf.whole, List.length_append, Nat.add_assoc]
  · rcases prefix_append_cases hpart hne with ⟨hpart, hne⟩ | ⟨more, rfl, hmore, hne⟩
    · exact bind_of_error (hx.cut part hpart hne) f
    · rw [bind_of_ok (hx.whole more)]
      exact hf.cut more hmore hne

namespace Reader.Delimited

lemma pure (a : α) : Delimited (pure a : Reader α) := by
  rintro tape tape' b ⟨⟩
  refine ⟨[], rfl, rfl, fun rest => rfl, fun part hpart hne => ?_⟩
  exact absurd (List.prefix_nil.mp hpart) hne

lemma throw (e : Fault) : Delimited (throw e : Reader α) := by
  intro tape tape' a h
  cases h

lemma bind {x : Reader α} {f : α → Reader β} (hx : x.Delimited) (hf : ∀ a, (f a).Delimited) :
    (x >>= f).Delimited := by
  intro tape tape' b h
  obtain ⟨a, tape₁, hx₁, hf₁⟩ := bind_eq_ok h
  obtain ⟨first, hrest, hposition, htakes⟩ := hx tape tape₁ a hx₁
  obtain ⟨second, hrest', hposition', htakes'⟩ := hf a tape₁ tape' b hf₁
  rw [hposition] at hposition' htakes'
  refine ⟨first ++ second, ?_, ?_, htakes.bind htakes'⟩
  · rw [hrest, hrest', List.append_assoc]
  · rw [hposition', List.length_append, Nat.add_assoc]

end Reader.Delimited

/-! ## Bits and numbers -/

/-- Where the reader is. -/
def Reader.place : Reader Nat :=
  fun tape => .ok (tape.position, tape)

/-- Read one bit. -/
def Reader.bit : Reader Bool :=
  Tape.next

/-- Read `count` bits as a number. -/
def Reader.number (count : Nat) : Reader Nat :=
  fun tape => tape.number count

/-- Read the number of zero bits before the next one bit. -/
def Reader.unary : Reader Nat :=
  Tape.unary

/-- Read the self-delimiting code of a number. -/
def Reader.rub : Reader Nat :=
  Tape.rub

namespace Reader

lemma rub_eq : rub = (do
    let zeros ← unary
    if zeros = 0 then
      pure 0
    else
      let low ← number (zeros - 1)
      number ((1 <<< (zeros - 1)) + low)) := by
  funext tape
  change tape.rub = tape.unary >>= _
  rw [Tape.rub]
  refine bind_congr ?_
  rintro ⟨zeros, tape⟩
  dsimp only
  split_ifs <;> rfl

lemma delimited_place : place.Delimited := by
  rintro tape tape' a ⟨⟩
  refine ⟨[], rfl, rfl, fun rest => rfl, fun part hpart hne => ?_⟩
  exact absurd (List.prefix_nil.mp hpart) hne

lemma eq_nil_of_prefix_singleton {b : Bool} {part : List Bool} (hpart : part <+: [b])
    (hne : part ≠ [b]) : part = [] := by
  rcases List.prefix_cons_iff.mp hpart with rfl | ⟨more, rfl, hmore⟩
  · rfl
  · exact absurd (by rw [List.prefix_nil.mp hmore]) hne

lemma delimited_bit : bit.Delimited := by
  rintro ⟨bits, position⟩ tape' b h
  cases bits with
  | nil => cases h
  | cons c rest =>
      cases h
      refine ⟨[b], rfl, rfl, fun rest => rfl, fun part hpart hne => ?_⟩
      rw [eq_nil_of_prefix_singleton hpart hne]
      rfl

lemma delimited_number (count : Nat) : (number count).Delimited := by
  rintro ⟨bits, position⟩ tape' n h
  change Tape.number ⟨bits, position⟩ count = _ at h
  rw [Tape.number] at h
  split_ifs at h with hshort
  cases h
  have hlength : (bits.take count).length = count := by
    rw [List.length_take]
    exact Nat.min_eq_left (Nat.not_lt.mp hshort)
  refine ⟨bits.take count, (List.take_append_drop count bits).symm, by rw [hlength], ?_, ?_⟩
  · intro rest
    have hread := number_append (bits.take count) rest position
    rw [hlength] at hread
    rw [hlength]
    exact hread
  · intro part hpart hne
    have hless : part.length < count := by
      rw [← hlength]
      exact lt_of_le_of_ne hpart.length_le fun heq => hne (hpart.eq_of_length heq)
    change Tape.number ⟨part, position⟩ count = _
    rw [Tape.number, if_pos hless]

/-- Zeros alone do not end. -/
lemma unary_zeros (zeros position : Nat) :
    unary ⟨List.replicate zeros false, position⟩ = .error .outOfBits := by
  simp [unary, Tape.unary]

/-- Bits are zeros alone, or begin with zeros and a one. -/
lemma zeros_or_one : ∀ bits : List Bool, (∃ zeros, bits = List.replicate zeros false) ∨
    ∃ zeros rest, bits = List.replicate zeros false ++ true :: rest
  | [] => Or.inl ⟨0, rfl⟩
  | true :: rest => Or.inr ⟨0, rest, rfl⟩
  | false :: rest => by
      rcases zeros_or_one rest with ⟨zeros, rfl⟩ | ⟨zeros, rest, rfl⟩
      · exact Or.inl ⟨zeros + 1, rfl⟩
      · exact Or.inr ⟨zeros + 1, rest, rfl⟩

lemma delimited_unary : unary.Delimited := by
  rintro ⟨bits, position⟩ tape' count h
  rcases zeros_or_one bits with ⟨zeros, rfl⟩ | ⟨zeros, rest, rfl⟩
  · rw [unary_zeros] at h
    cases h
  have hread : ∀ rest, unary ⟨List.replicate zeros false ++ [true] ++ rest, position⟩ =
      .ok (zeros, ⟨rest, position + (List.replicate zeros false ++ [true]).length⟩) := by
    intro rest
    have hread := unary_replicate zeros rest position
    simpa [unary, Nat.add_assoc] using hread
  rw [List.append_cons, hread] at h
  cases h
  refine ⟨List.replicate count false ++ [true], by simp, rfl, hread, fun part hpart hne => ?_⟩
  rcases prefix_append_cases hpart hne with ⟨hpart, -⟩ | ⟨more, rfl, hmore, hne⟩
  · obtain ⟨-, hpart⟩ := List.prefix_replicate_iff.mp hpart
    rw [hpart]
    exact unary_zeros _ _
  · rw [eq_nil_of_prefix_singleton hmore hne, List.append_nil]
    exact unary_zeros _ _

lemma delimited_rub : rub.Delimited := by
  rw [rub_eq]
  refine delimited_unary.bind fun zeros => ?_
  split_ifs
  · exact .pure 0
  · exact (delimited_number _).bind fun low => delimited_number _

end Reader

end Bits

/-! ## Parts -/

namespace Cue

open Bits Reader

/-- Read a part, and hand on the table besides. -/
def reader (fuel : Nat) (known : Known Noun) : Reader (Noun × Known Noun) :=
  fun tape => do
    let (n, tape, known) ← part fuel tape known
    pure ((n, known), tape)

lemma reader_zero (known : Known Noun) : reader 0 known = throw .outOfBits := rfl

lemma reader_succ (fuel : Nat) (known : Known Noun) : reader (fuel + 1) known = (do
    let start ← place
    let structured ← bit
    if structured then
      let again ← bit
      if again then
        let position ← rub
        match known.lookup position with
        | some n => pure (n, (start, n) :: known)
        | none => throw (.unknownReference position)
      else
        let (head, known) ← reader fuel known
        let (tail, known) ← reader fuel known
        pure (.cell head tail, (start, .cell head tail) :: known)
    else
      let n ← rub
      pure (.atom n, (start, .atom n) :: known)) := by
  funext tape
  change (do
    let (n, tape, known) ← part (fuel + 1) tape known
    pure ((n, known), tape)) = (tape.next >>= _ : Except Fault _)
  simp only [part, ofExcept_eq_self, bind_assoc]
  refine bind_congr fun ⟨structured, tape₁⟩ => ?_
  cases structured with
  | false =>
      simp only [Bool.false_eq_true, if_false, bind_assoc]
      rfl
  | true =>
      simp only [if_true, bind_assoc]
      refine bind_congr fun ⟨again, tape₂⟩ => ?_
      cases again with
      | true =>
          simp only [if_true, bind_assoc]
          refine bind_congr fun ⟨position, tape₃⟩ => ?_
          dsimp only
          cases known.lookup position <;> rfl
      | false =>
          change _ = (reader fuel known tape₂ >>= _ : Except Fault _)
          simp only [Bool.false_eq_true, if_false, reader, bind_assoc]
          refine bind_congr fun ⟨head, tape₃, known₁⟩ => ?_
          change _ = (reader fuel known₁ tape₃ >>= _ : Except Fault _)
          simp only [reader, bind_assoc]
          refine bind_congr fun ⟨tail, tape₄, known₂⟩ => ?_
          rfl

/-- A part is delimited, at every depth and with every table. -/
lemma delimited_reader (fuel : Nat) : ∀ known, (reader fuel known).Delimited := by
  induction fuel with
  | zero =>
      intro known
      rw [reader_zero]
      exact .throw _
  | succ fuel ih =>
      intro known
      rw [reader_succ]
      refine delimited_place.bind fun start => delimited_bit.bind fun structured => ?_
      split_ifs
      · refine delimited_bit.bind fun again => ?_
        split_ifs
        · refine delimited_rub.bind fun position => ?_
          split
          · exact .pure _
          · exact .throw _
        · exact (ih known).bind fun ⟨head, known⟩ => (ih known).bind fun ⟨tail, known⟩ => .pure _
      · exact delimited_rub.bind fun n => .pure _

end Cue

end Nock
