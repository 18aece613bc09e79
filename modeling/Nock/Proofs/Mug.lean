import Mathlib.Order.Nat
import Nock.Mug
import Nock.Proofs.Outcome

/-!
# Mugs of natural nouns

A noun is **natural** if none of its atoms is negative.  Every natural noun has a mug
(`Noun.Natural.exists_mug`), and a mug is a word of 32 bits (`Noun.mug_range`).
-/

namespace Nock

/-- No atom of the noun is negative. -/
def Noun.Natural : Noun → Prop
  | .atom n => 0 ≤ n
  | .cell h t => h.Natural ∧ t.Natural

instance Noun.decidableNatural : (n : Noun) → Decidable n.Natural
  | .atom n => inferInstanceAs (Decidable (0 ≤ n))
  | .cell h t => @instDecidableAnd _ _ (decidableNatural h) (decidableNatural t)

namespace Mug

lemma firstNonzero_lt (key : List UInt8) : ∀ (tries : Nat) (seed : UInt32) {m : Nat},
    firstNonzero key tries seed = some m → m < 0x100000000
  | 0, _, _, h => by cases h
  | tries + 1, seed, m, h => by
      simp only [firstNonzero] at h
      split at h
      · exact firstNonzero_lt key tries (seed + 1) h
      · cases h
        exact UInt32.toNat_lt _

lemma hashOr_range {seed fallback key m : Int} (hf : 0 ≤ fallback ∧ fallback < 0x100000000)
    (h : hashOr seed fallback key = .ok m) : 0 ≤ m ∧ m < 0x100000000 := by
  unfold hashOr search at h
  cases hbytes : toBytes key with
  | error e => rw [hbytes] at h; cases h
  | ok bytes =>
      rw [hbytes] at h
      cases hfirst : firstNonzero bytes 8 (seedWord seed) with
      | none =>
          simp only [ok_bind, pure_eq_ok, hfirst, Option.map_none, Option.getD_none] at h
          cases h
          exact hf
      | some k =>
          simp only [ok_bind, pure_eq_ok, hfirst, Option.map_some, Option.getD_some] at h
          cases h
          have hk := firstNonzero_lt _ _ _ hfirst
          exact ⟨Int.natCast_nonneg k, by simpa using Int.ofNat_lt.mpr hk⟩

/-- Only negative numbers have no hash. -/
lemma hashOr_eq_ok (seed fallback : Int) {key : Int} (h : 0 ≤ key) :
    ∃ m, hashOr seed fallback key = .ok m := by
  have hbytes : toBytes key = .ok (lowBytes (byteLength key) key.natAbs) := by
    simp [toBytes, Int.not_lt.mpr h]
  rw [hashOr, search, hbytes]
  exact ⟨_, rfl⟩

lemma ofAtom_range {n m : Int} (h : ofAtom n = .ok m) : 0 ≤ m ∧ m < 0x100000000 :=
  hashOr_range (by decide) h

lemma pair_range {head tail m : Int} (h : pair head tail = .ok m) :
    0 ≤ m ∧ m < 0x100000000 := by
  unfold pair at h
  split_ifs at h
  exact hashOr_range (by decide) h

end Mug

lemma Noun.mug_range : ∀ {n : Noun} {m : Int}, n.mug = .ok m → 0 ≤ m ∧ m < 0x100000000
  | .atom _, _, h => Mug.ofAtom_range h
  | .cell h t, m, hm => by
      simp only [Noun.mug, bind_eq_ok] at hm
      obtain ⟨_, _, _, _, hm⟩ := hm
      exact Mug.pair_range hm

lemma Noun.Natural.exists_mug : ∀ {n : Noun}, n.Natural → ∃ m, n.mug = .ok m
  | .atom _, h => Mug.hashOr_eq_ok _ _ h
  | .cell h t, hn => by
      obtain ⟨head, hhead⟩ := exists_mug hn.1
      obtain ⟨tail, htail⟩ := exists_mug hn.2
      have hneg : (decide (head < 0) || decide (tail < 0)) = false := by
        simp [(mug_range hhead).1, (mug_range htail).1]
      obtain ⟨m, hm⟩ := Mug.hashOr_eq_ok 0xdeadbeef 0xfffe
        (Int.natCast_nonneg (tail.natAbs <<< 32 ||| head.natAbs))
      refine ⟨m, ?_⟩
      simp only [Noun.mug, hhead, htail, ok_bind, Mug.pair, hneg]
      exact hm

end Nock
