import Mathlib.Algebra.Order.Ring.Int
import Mathlib.Data.List.Induction
import Nock.Proofs.Address

/-!
# The binary digits of an axis

An axis is a one followed by the turns of its path, written as binary digits.  `Path.axis` writes
them down and `turns` reads them off, and the two undo each other (`turns_axis`, `axis_turns`).
Lookups take the digits from the lowest one on; the path they follow goes from the highest one on.

A path inside the part that another path leads to is the one path after the other.  As numbers, the
digits of the second axis behind its highest one are appended to those of the first (`turns_append`),
and looking up there is looking up twice.  A path leads nowhere exactly if it meets an atom before it
ends (`Noun.walk_eq_none_iff`).
-/

namespace Nock

open StoreM hiding look same copy
open Store Memory

/-! ## From a path to its axis -/

/-- The number whose binary digits are a one and the turns of the path. -/
def Path.axis (path : Path) : Int :=
  path.foldl (fun x turn => 2 * x + turn.toNat) 1

namespace Path

@[simp] lemma axis_nil : axis [] = 1 := rfl

@[simp] lemma axis_concat (path : Path) (turn : Bool) :
    axis (path ++ [turn]) = 2 * axis path + turn.toNat := by
  simp [axis]

lemma one_le_axis (path : Path) : 1 ≤ axis path := by
  induction path using List.reverseRecOn with
  | nil => simp
  | append_singleton path turn ih =>
      rw [axis_concat]
      omega

/-- The axis of a path that goes on: the digits of the rest come behind, without its leading one. -/
lemma axis_append (path rest : Path) :
    axis (path ++ rest) = axis path * 2 ^ rest.length + (axis rest - 2 ^ rest.length) := by
  induction rest using List.reverseRecOn with
  | nil => simp
  | append_singleton rest turn ih =>
      rw [← List.append_assoc, axis_concat, axis_concat, ih, List.length_append,
        List.length_singleton, pow_succ, ← mul_assoc]
      omega

end Path

variable {x y : Int} {bound m : Nat}

/-- The turns of the axis of a path are the path. -/
lemma turns_axis (path : Path) : turns (Path.axis path) = path := by
  induction path using List.reverseRecOn with
  | nil => rfl
  | append_singleton path turn ih =>
      have hpos := Path.one_le_axis path
      have hturn := turn.toNat_le
      rw [Path.axis_concat, turns_half (by omega),
        show (2 * Path.axis path + turn.toNat) / 2 = Path.axis path by omega,
        show (2 * Path.axis path + turn.toNat) % 2 = turn.toNat by omega, ih]
      cases turn <;> rfl

/-- An axis is the axis of its turns. -/
lemma axis_turns (hx : 1 ≤ x) : Path.axis (turns x) = x := by
  obtain ⟨k, rfl⟩ := Int.eq_ofNat_of_zero_le (by omega : 0 ≤ x)
  induction k using Nat.strong_induction_on with
  | _ k ih =>
      by_cases h1 : (k : Int) = 1
      · rw [h1]
        rfl
      · rw [turns_half (by omega), Path.axis_concat]
        have hhalf : ((k / 2 : Nat) : Int) = (k : Int) / 2 := rfl
        rw [← hhalf, ih (k / 2) (by omega) (by omega), hhalf]
        rcases Int.emod_two_eq_zero_or_one k with h | h
        · rw [h, show ((0 : Int) == 1).toNat = 0 from rfl]
          omega
        · rw [h, show ((1 : Int) == 1).toNat = 1 from rfl]
          omega

/-- An axis has one turn less than binary digits. -/
lemma length_turns (hx : 1 ≤ x) : (turns x).length + 1 = bitLength x := by
  have hdigits := bitLength_axis hx
  rw [turns, Bits.ofNumber, if_neg (by omega), List.length_reverse, List.length_dropLast,
    Bits.low_length]
  omega

lemma bitLength_eq_of_axis (hlow : 2 ^ m ≤ y) (hhigh : y < 2 ^ (m + 1)) : bitLength y = m + 1 := by
  have hpos : (0 : Int) < 2 ^ m := pow_pos (by decide) m
  obtain ⟨k, rfl⟩ := Int.eq_ofNat_of_zero_le (by omega : 0 ≤ y)
  exact bitLength_eq (by exact_mod_cast hlow) (by exact_mod_cast hhigh)

/-- The turns of an axis inside the part at another axis: the ones after the others. -/
lemma turns_append (hx : 1 ≤ x) (hlow : 2 ^ m ≤ y) (hhigh : y < 2 ^ (m + 1)) :
    turns (x * 2 ^ m + (y - 2 ^ m)) = turns x ++ turns y := by
  have hpos : (0 : Int) < 2 ^ m := pow_pos (by decide) m
  have hlength := length_turns (by omega : 1 ≤ y)
  rw [bitLength_eq_of_axis hlow hhigh, Nat.add_right_cancel_iff] at hlength
  have haxis := Path.axis_append (turns x) (turns y)
  rw [hlength, axis_turns hx, axis_turns (by omega)] at haxis
  rw [← haxis, turns_axis]

/-! ## Where a path ends -/

namespace Noun

/-- A path leads nowhere exactly if it meets an atom before it ends. -/
lemma walk_eq_none_iff {n : Noun} {path : Path} :
    n.walk path = none ↔
      ∃ before k, before <+: path ∧ before ≠ path ∧ n.walk before = some (.atom k) := by
  constructor
  · intro hnone
    induction path generalizing n with
    | nil => simp at hnone
    | cons turn path ih =>
        cases n with
        | atom k => exact ⟨[], k, List.nil_prefix, (List.cons_ne_nil _ _).symm, walk_nil _⟩
        | cell hd tl =>
            cases turn
            · obtain ⟨before, k, hprefix, hne, hatom⟩ := ih (n := hd) hnone
              exact ⟨false :: before, k, by simpa using hprefix, by simpa using hne, hatom⟩
            · obtain ⟨before, k, hprefix, hne, hatom⟩ := ih (n := tl) hnone
              exact ⟨true :: before, k, by simpa using hprefix, by simpa using hne, hatom⟩
  · rintro ⟨before, k, ⟨rest, rfl⟩, hne, hatom⟩
    cases rest with
    | nil => simp at hne
    | cons turn rest => rw [walk_append, hatom, Option.bind_some, walk_atom_cons]

end Noun

lemma reached_eq_ok {found : Option Noun} {part : Noun} :
    reached found = .ok part ↔ found = some part := by
  cases found <;> simp

lemma reached_eq_error {found : Option Noun} : reached found = .error .splitAtom ↔ found = none := by
  cases found <;> simp

/-! ## Lookups -/

/-- Looking up at the appended axis is looking up twice. -/
lemma slot_append (n : Noun) (hx : 1 ≤ x) (hlow : 2 ^ m ≤ y) (hhigh : y < 2 ^ (m + 1))
    (hbound : bitLength x + m ≤ bound) :
    Noun.slot bound (x * 2 ^ m + (y - 2 ^ m)) n = Noun.slot bound x n >>= Noun.slot bound y := by
  have hpos : (0 : Int) < 2 ^ m := pow_pos (by decide) m
  have hxm : (1 : Int) * 2 ^ m ≤ x * 2 ^ m := mul_le_mul_of_nonneg_right hx hpos.le
  have hturns := turns_append hx hlow hhigh
  have hdigits := bitLength_eq_of_axis hlow hhigh
  have hlength := length_turns (by omega : 1 ≤ x * 2 ^ m + (y - 2 ^ m))
  have hlengthx := length_turns hx
  have hlengthy := length_turns (by omega : 1 ≤ y)
  rw [hturns, List.length_append] at hlength
  rw [Noun.slot, Noun.slot, slot_eq_walk n (by omega) (by omega), slot_eq_walk n hx (by omega),
    hturns, Noun.walk_append, reached_bind]
  congr 1
  funext part
  rw [Noun.slot, slot_eq_walk part (by omega) (by omega)]

/-- **A lookup follows the digits.**  The binary digits of an axis are a one and its turns.  Under a
bound with room for them, a lookup gives the part that is reached by going to the head for every 0
and to the tail for every 1, from the highest digit on, and fails at an atom exactly if this way
meets an atom before it ends; it does nothing else.  So if the digits of one axis behind its leading
one are appended to those of another, looking up there is looking up at the one and then, in what
was found, at the other, in success and in failure.  Held nouns are looked up like plain ones. -/
theorem slot_follows_digits (hx : 1 ≤ x) (hbound : bitLength x ≤ bound) (n : Noun) :
    Path.axis (turns x) = x ∧
    (∀ part, Noun.slot bound x n = .ok part ↔ n.walk (turns x) = some part) ∧
    (Noun.slot bound x n = .error .splitAtom ↔
      ∃ before k, before <+: turns x ∧ before ≠ turns x ∧ n.walk before = some (.atom k)) ∧
    ((∃ part, Noun.slot bound x n = .ok part) ∨ Noun.slot bound x n = .error .splitAtom) ∧
    Fault.message .splitAtom = "fail: atom" ∧
    (∀ (y : Int) (m : Nat), 2 ^ m ≤ y → y < 2 ^ (m + 1) → bitLength x + m ≤ bound →
      Noun.slot bound (x * 2 ^ m + (y - 2 ^ m)) n = Noun.slot bound x n >>= Noun.slot bound y) ∧
    ∀ (s : Store) (dx dn : Datum), s.Sound → s.noun? dx = some (.atom x) → s.noun? dn = some n →
      Realizes s (slotAt bound dx dn) (Noun.slot bound x n) Has ∧
      ∀ (y : Int) (dy : Datum), s.noun? dy = some (.atom y) →
        Realizes s (slotAt bound dx dn >>= slotAt bound dy)
          (Noun.slot bound x n >>= Noun.slot bound y) Has := by
  have hslot : Noun.slot bound x n = reached (n.walk (turns x)) := slot_eq_walk n hx hbound
  refine ⟨axis_turns hx, fun part => ?_, ?_, ?_, rfl, fun y m hlow hhigh hroom => ?_,
    fun s dx dn hs hdx hdn => ?_⟩
  · rw [hslot, reached_eq_ok]
  · rw [hslot, reached_eq_error, Noun.walk_eq_none_iff]
  · rw [hslot]
    cases n.walk (turns x) with
    | none => exact Or.inr rfl
    | some part => exact Or.inl ⟨part, rfl⟩
  · exact slot_append n hx hlow hhigh hroom
  · have hfits := hs.fits
    rw [hfits.noun?_iff] at hdx hdn
    have hread := slotAt_refines bound hfits hdx hdn
    refine ⟨hread.realizes_has hfits, fun y dy hdy => ?_⟩
    rw [hfits.noun?_iff] at hdy
    refine (hread.bind fun s' ν' _ _ hlater hs' hpart => ?_).realizes_has hfits
    exact slotAt_refines bound hs' (hdy.later hlater) hpart

/-- In `evenPair`, axis 6 with the digits 110 is the head of the tail, also where it is held in a shared
cell; it is axis 2 in what stands at axis 3.  Axis 12 meets an atom behind the first two turns. -/
theorem slot_follows_digits_even :
    (bitLength 6 ≤ 9 ∧ turns 6 = [true, false] ∧ Path.axis [true, false] = 6) ∧
    (Noun.slot 9 6 evenPair = .ok (.atom 1) ↔ evenPair.walk [true, false] = some (.atom 1)) ∧
    Noun.slot 9 (3 * 2 ^ 1 + (2 - 2 ^ 1)) evenPair = Noun.slot 9 3 evenPair >>= Noun.slot 9 2 ∧
    Realizes evenStore (slotAt 9 (.atom 3) (.cell 1) >>= slotAt 9 (.atom 2))
      (Noun.slot 9 3 evenPair >>= Noun.slot 9 2) Has ∧
    Noun.slot 9 12 evenPair = .error .splitAtom := by
  have hthree : bitLength 3 ≤ 9 := by decide +kernel
  have hsix : bitLength 6 ≤ 9 := by decide +kernel
  have htwelve : bitLength 12 ≤ 9 := by decide +kernel
  have hturns : turns 6 = [true, false] := by decide +kernel
  have hturns' : turns 12 = [true, false, false] := by decide +kernel
  obtain ⟨haxis, hpart, -⟩ := slot_follows_digits (by decide) hsix evenPair
  obtain ⟨-, -, hfail, -⟩ := slot_follows_digits (by decide) htwelve evenPair
  obtain ⟨-, -, -, -, -, htwice, hheld⟩ := slot_follows_digits (by decide) hthree evenPair
  rw [hturns] at haxis hpart
  refine ⟨⟨hsix, hturns, haxis⟩, hpart _, ?_, ?_, hfail.mpr ?_⟩
  · exact htwice 2 1 (by decide) (by decide) (by decide +kernel)
  · exact (hheld evenStore (.atom 3) (.cell 1) (by decide +kernel) rfl rfl).2 2 (.atom 2) rfl
  · rw [hturns']
    exact ⟨[true, false], 1, by decide, by decide, rfl⟩

end Nock
