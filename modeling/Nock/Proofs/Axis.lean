import Nock.Axis
import Nock.Proofs.Outcome

/-!
# Axes under a bound

Looking up and editing plain nouns, as equations: one for each way an axis can be taken apart, so
that proofs about axes never open `slot` and `edit` themselves.  A bound that was not met does not
matter: `slot_approximates` and `edit_approximates`.
-/

namespace Nock

open Memory

/-! ## Taking an axis apart -/

/-- The part of a cell on the side that the lowest bit of an axis names. -/
def Noun.side (axis : Int) (n : Noun) : Except Fault Noun :=
  if axis % 2 = 0 then head n else tail n

@[simp] lemma Noun.side_even (x : Int) (n : Noun) : Noun.side (x + x) n = head n := by
  have h : (x + x) % 2 = 0 := by omega
  simp [Noun.side, h]

@[simp] lemma Noun.side_odd (x : Int) (n : Noun) : Noun.side (x + x + 1) n = tail n := by
  have h : (x + x + 1) % 2 = 1 := by omega
  simp [Noun.side, h]

@[simp] lemma slot_zero_axis (bound : Nat) (n : Noun) :
    slot (bound + 1) 0 n = (.error .zeroAxis : Except Fault Noun) := rfl

@[simp] lemma slot_one (bound : Nat) (n : Noun) :
    slot (bound + 1) 1 n = (.ok n : Except Fault Noun) := rfl

/-- Any other axis is halved, and its lowest bit says which part to take. -/
lemma slot_succ {axis : Int} (h0 : axis ≠ 0) (h1 : axis ≠ 1) (bound : Nat) (n : Noun) :
    slot (bound + 1) axis n
      = ((slot bound (axis / 2) n >>= Noun.side axis) : Except Fault Noun) := by
  simp only [slot, h0, h1, if_false]
  rfl

@[simp] lemma edit_one (bound : Nat) (part n : Noun) :
    edit (bound + 1) 1 part n = (.ok part : Except Fault Noun) := rfl

lemma edit_even {axis : Int} (h : axis % 2 = 0) (bound : Nat) (part n : Noun) :
    edit (bound + 1) axis part n
      = ((slot bound (axis + 1) n >>= fun sibling =>
          edit bound (axis / 2) (.cell part sibling) n) : Except Fault Noun) := by
  have h1 : axis ≠ 1 := by omega
  simp [edit, h, h1]

lemma edit_odd {axis : Int} (h : axis % 2 ≠ 0) (h1 : axis ≠ 1) (bound : Nat) (part n : Noun) :
    edit (bound + 1) axis part n
      = ((slot bound (axis - 1) n >>= fun sibling =>
          edit bound (axis / 2) (.cell sibling part) n) : Except Fault Noun) := by
  simp [edit, h, h1]

@[simp] lemma slotAt_atom (bound : Nat) (x : Int) (n : Noun) :
    (slotAt bound (.atom x) n : Except Fault Noun) = slot bound x n := rfl

@[simp] lemma slotAt_cell (bound : Nat) (h t n : Noun) :
    (slotAt bound (.cell h t) n : Except Fault Noun) = .error .cellAxis := rfl

@[simp] lemma editAt_atom (bound : Nat) (x : Int) (part n : Noun) :
    (editAt bound (.atom x) part n : Except Fault Noun) = edit bound x part n := rfl

@[simp] lemma editAt_cell (bound : Nat) (h t part n : Noun) :
    (editAt bound (.cell h t) part n : Except Fault Noun) = .error .cellEditAxis := rfl

/-! ## Larger bounds -/

/-- A lookup gives the same under a larger bound, unless it met the smaller one. -/
lemma slot_approximates (n : Noun) : ∀ {bound larger : Nat}, bound ≤ larger → ∀ axis : Int,
    Approximates (slot bound axis n : Except Fault Noun) (slot larger axis n)
  | 0, _, _, _ => Approximates.tooDeep _
  | bound + 1, 0, h, _ => absurd h (by omega)
  | bound + 1, larger + 1, h, axis => by
      by_cases h0 : axis = 0
      · subst h0; exact Approximates.refl _
      by_cases h1 : axis = 1
      · subst h1; exact Approximates.refl _
      rw [slot_succ h0 h1, slot_succ h0 h1]
      exact (slot_approximates n (by omega) (axis / 2)).bind fun _ => Approximates.refl _

lemma edit_approximates (n : Noun) : ∀ {bound larger : Nat}, bound ≤ larger →
    ∀ (axis : Int) (part : Noun),
      Approximates (edit bound axis part n : Except Fault Noun) (edit larger axis part n)
  | 0, _, _, _, _ => Approximates.tooDeep _
  | bound + 1, 0, h, _, _ => absurd h (by omega)
  | bound + 1, larger + 1, h, axis, part => by
      by_cases h1 : axis = 1
      · subst h1; exact Approximates.refl _
      by_cases h2 : axis % 2 = 0
      · rw [edit_even h2, edit_even h2]
        exact (slot_approximates n (by omega) _).bind fun _ => edit_approximates n (by omega) _ _
      · rw [edit_odd h2 h1, edit_odd h2 h1]
        exact (slot_approximates n (by omega) _).bind fun _ => edit_approximates n (by omega) _ _

lemma slotAt_approximates {bound larger : Nat} (h : bound ≤ larger) (axis n : Noun) :
    Approximates (slotAt bound axis n : Except Fault Noun) (slotAt larger axis n) := by
  cases axis with
  | atom x => exact slot_approximates n h x
  | cell _ _ => exact Approximates.refl _

lemma editAt_approximates {bound larger : Nat} (h : bound ≤ larger) (axis part n : Noun) :
    Approximates (editAt bound axis part n : Except Fault Noun) (editAt larger axis part n) := by
  cases axis with
  | atom x => exact edit_approximates n h x part
  | cell _ _ => exact Approximates.refl _

end Nock
