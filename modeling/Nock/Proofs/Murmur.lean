import Mathlib.Algebra.Group.Nat.Defs
import Mathlib.Tactic.Common
import Nock.Murmur

/-!
# One key, one hash for every seed

Two seeds never give the same hash of one key (`hash32_injective`).  The state of the hash starts as
the seed, and once the key is known each step on the way to the hash can be undone.

**Products.**  The factors of the hash are odd, so each has an inverse modulo 2³².

**Turns.**  A turned word is made of the two parts of the word, exchanged (`toNat_rotate`).

**Shifts.**  Two words that agree after their own higher bits were added to them differ by a word
that equals its own shift, and only zero does.
-/

namespace Nock.Murmur

open Function

/-! ## Single steps -/

/-- Multiplying by a word that has an inverse. -/
lemma mul_injective_of_inverse {factor inverse : UInt32} (h : factor * inverse = 1) :
    Injective (· * factor) := by
  intro v w hvw
  have hback := congrArg (· * inverse) hvw
  simpa only [UInt32.mul_assoc, h, UInt32.mul_one] using hback

/-- The lowest 19 bits of a word go up by 13, and the others come down to where they were. -/
lemma toNat_rotate (w : UInt32) :
    (rotate w 13).toNat = w.toNat % 2 ^ 19 * 2 ^ 13 + w.toNat / 2 ^ 19 := by
  have hw := w.toNat_lt
  have hhigh : (w >>> (32 - 13)).toNat = w.toNat / 2 ^ 19 := by
    rw [UInt32.toNat_shiftRight, Nat.shiftRight_eq_div_pow]
    rfl
  have hlow : (w <<< 13).toNat = (w.toNat % 2 ^ 19) <<< 13 := by
    rw [UInt32.toNat_shiftLeft, Nat.shiftLeft_eq, Nat.shiftLeft_eq]
    change w.toNat * 2 ^ 13 % 2 ^ 32 = _
    omega
  rw [rotate, UInt32.toNat_or, hlow, hhigh, ← Nat.shiftLeft_add_eq_or_of_lt (by omega),
    Nat.shiftLeft_eq]

lemma rotate_injective : Injective (rotate · 13) := by
  intro v w h
  have hnat : (rotate v 13).toNat = (rotate w 13).toNat := congrArg UInt32.toNat h
  have hv := v.toNat_lt
  have hw := w.toNat_lt
  rw [toNat_rotate, toNat_rotate] at hnat
  exact UInt32.toNat_inj.mp (by omega)

/-- Only zero equals its own shift. -/
lemma eq_zero_of_eq_shiftRight {w count : UInt32} (hcount : 0 < count.toNat % 32)
    (h : w = w >>> count) : w = 0 := by
  have hnat := congrArg UInt32.toNat h
  rw [UInt32.toNat_shiftRight, Nat.shiftRight_eq_div_pow] at hnat
  by_contra hne
  have hpos : 0 < w.toNat := Nat.pos_of_ne_zero fun hz => hne (UInt32.toNat_inj.mp hz)
  have hlt := Nat.div_lt_self hpos (Nat.one_lt_two_pow (Nat.ne_of_gt hcount))
  omega

/-- Adding to a word its own higher bits. -/
lemma xorShift_injective {count : UInt32} (hcount : 0 < count.toNat % 32) :
    Injective fun w : UInt32 => w ^^^ (w >>> count) := by
  intro v w h
  have hshift : v ^^^ w = (v ^^^ w) >>> count := by
    rw [UInt32.shiftRight_xor, ← UInt32.xor_eq_zero_iff]
    have hzero : (v ^^^ v >>> count) ^^^ (w ^^^ w >>> count) = 0 := UInt32.xor_eq_zero_iff.mpr h
    rw [← hzero]
    ac_rfl
  exact UInt32.xor_eq_zero_iff.mp (eq_zero_of_eq_shiftRight hcount hshift)

/-! ## From the seed to the hash -/

/-- Mixing in a block. -/
lemma mix_injective (block : UInt32) : Injective (mix · block) := by
  have hfactor : (5 : UInt32) * 0xcccccccd = 1 := by decide
  intro v w h
  have hsum := (UInt32.add_left_inj _).mp h
  have hturned := mul_injective_of_inverse hfactor hsum
  exact (UInt32.xor_left_inj _).mp (rotate_injective hturned)

lemma avalanche_injective : Injective avalanche := by
  have hfirst : (0x85ebca6b : UInt32) * 0xa5cb9243 = 1 := by decide
  have hsecond : (0xc2b2ae35 : UInt32) * 0x7ed1b41d = 1 := by decide
  have hshift : Injective fun w : UInt32 => w ^^^ (w >>> 16) := xorShift_injective (by decide)
  exact hshift.comp <| (mul_injective_of_inverse hsecond).comp <|
    (xorShift_injective (by decide)).comp <| (mul_injective_of_inverse hfirst).comp hshift

section

-- Otherwise the two states below are compared by computing them.
attribute [local irreducible] mix

lemma absorb_block (state : UInt32) (a b c d : UInt8) (rest : List UInt8) :
    absorb state (a :: b :: c :: d :: rest) = absorb (mix state (word [a, b, c, d])) rest := rfl

lemma absorb_short (state : UInt32) : ∀ {key : List UInt8}, key.length < 4 →
    absorb state key = state ^^^ scramble (word key)
  | [], _ => rfl
  | [_], _ => rfl
  | [_, _], _ => rfl
  | [_, _, _], _ => rfl
  | _ :: _ :: _ :: _ :: _, h => absurd h (by simp)

end

lemma absorb_injective_of_short {key : List UInt8} (hshort : key.length < 4) :
    Injective (absorb · key) := by
  intro v w h
  simp only [absorb_short _ hshort] at h
  exact (UInt32.xor_left_inj _).mp h

/-- Mixing in a key, block by block. -/
lemma absorb_injective : ∀ key : List UInt8, Injective (absorb · key)
  | a :: b :: c :: d :: rest => by
      intro v w h
      simp only [absorb_block] at h
      exact mix_injective _ (absorb_injective rest h)
  | [] | [_] | [_, _] | [_, _, _] => absorb_injective_of_short (by simp)

/-- **Two seeds never give the same hash of one key.** -/
lemma hash32_injective (key : List UInt8) : Injective (hash32 · key) := by
  intro v w h
  exact absorb_injective key ((UInt32.xor_left_inj _).mp (avalanche_injective h))

end Nock.Murmur
