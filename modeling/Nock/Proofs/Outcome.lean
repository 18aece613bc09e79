import Nock.Memory
import Mathlib.Tactic.Common

/-!
# Outcomes

Plain nouns are worked on in `Except Fault`, and two things about it are needed everywhere.

**Taking computations apart.**  `bind_eq_ok` says what a computation that ended well went through;
the equations of the plain memory (`split_cell`, `look_atom`, …) say what its operations give, so
that no proof has to open them.

**Bounds.**  `Approximates x y` compares what is found under a bound with what is found under a
larger one: either the smaller bound was met, or nothing changes.  Sequencing respects it
(`Approximates.bind`), which is why it holds of everything that is built from bounded pieces.
-/

namespace Nock

variable {α β : Type}

/-! ## Taking computations apart -/

@[simp] lemma ok_bind (a : α) (f : α → Except Fault β) : (Except.ok a >>= f) = f a := rfl

@[simp] lemma error_bind (e : Fault) (f : α → Except Fault β) :
    ((Except.error e : Except Fault α) >>= f) = .error e := rfl

@[simp] lemma pure_eq_ok (a : α) : (pure a : Except Fault α) = .ok a := rfl

@[simp] lemma throw_eq_error (e : Fault) : (throw e : Except Fault α) = .error e := rfl

@[simp] lemma ofExcept_eq_self (x : Except Fault α) :
    (MonadExcept.ofExcept x : Except Fault α) = x := by
  cases x <;> rfl

/-- What a sequence of two computations that ended well went through. -/
lemma bind_eq_ok {x : Except Fault α} {f : α → Except Fault β} {b : β} :
    (x >>= f) = .ok b ↔ ∃ a, x = .ok a ∧ f a = .ok b := by
  cases x with
  | error e => simp
  | ok a => simp

/-! ## The plain memory -/

namespace Memory

@[simp] lemma atom_plain (n : Int) : (atom (Except Fault) n : Noun) = .atom n := rfl

@[simp] lemma settle_plain (n : Noun) : (settle n : Except Fault Noun) = .ok n := rfl

@[simp] lemma look_atom (n : Int) :
    (look (Noun.atom n) : Except Fault (Shape Noun)) = .ok (.atom n) := rfl

@[simp] lemma look_cell (h t : Noun) :
    (look (Noun.cell h t) : Except Fault (Shape Noun)) = .ok (.cell h t) := rfl

@[simp] lemma cell_plain (h t : Noun) : (cell h t : Except Fault Noun) = .ok (.cell h t) := rfl

@[simp] lemma copy_plain (n : Noun) : (copy n : Except Fault Noun) = .ok n := rfl

@[simp] lemma equal_plain (a b : Noun) : (equal a b : Except Fault Bool) = .ok (a == b) := rfl

@[simp] lemma split_atom (n : Int) :
    (split (Noun.atom n) : Except Fault (Noun × Noun)) = .error .splitAtom := rfl

@[simp] lemma split_cell (h t : Noun) :
    (split (Noun.cell h t) : Except Fault (Noun × Noun)) = .ok (h, t) := rfl

@[simp] lemma isCell_plain (n : Noun) : (isCell n : Except Fault Bool) = .ok n.isCell := by
  cases n <;> rfl

@[simp] lemma bump_atom (n : Int) :
    (bump (Noun.atom n) : Except Fault Noun) = .ok (.atom (n + 1)) := rfl

@[simp] lemma bump_cell (h t : Noun) :
    (bump (Noun.cell h t) : Except Fault Noun) = .error .bumpCell := rfl

@[simp] lemma truth_plain (b : Bool) :
    (truth (Except Fault) b : Noun) = .atom (if b then 0 else 1) := rfl

end Memory

/-! ## Bounds -/

/-- What is found under a bound, `x`, against what is found under a larger one, `y`: the same,
unless the smaller bound was met. -/
def Approximates (x y : Except Fault α) : Prop :=
  x = .error .tooDeep ∨ x = y

namespace Approximates

lemma refl (x : Except Fault α) : Approximates x x := Or.inr rfl

lemma tooDeep (y : Except Fault α) : Approximates (.error .tooDeep) y := Or.inl rfl

/-- A result that was found does not change any more. -/
lemma eq_ok {x y : Except Fault α} (h : Approximates x y) {a : α} (hx : x = .ok a) : y = .ok a := by
  rcases h with h | h
  · rw [h] at hx; cases hx
  · rw [← h, hx]

lemma eq_error {x y : Except Fault α} (h : Approximates x y) {e : Fault} (he : e ≠ .tooDeep)
    (hx : x = .error e) : y = .error e := by
  rcases h with h | h
  · rw [h] at hx; cases hx; exact absurd rfl he
  · rw [← h, hx]

/-- Sequencing respects bounds. -/
lemma bind {x y : Except Fault α} {f g : α → Except Fault β} (hx : Approximates x y)
    (hf : ∀ a, Approximates (f a) (g a)) : Approximates (x >>= f) (y >>= g) := by
  rcases hx with rfl | rfl
  · exact tooDeep _
  · cases x with
    | error e => exact refl _
    | ok a => exact hf a

end Approximates

end Nock
