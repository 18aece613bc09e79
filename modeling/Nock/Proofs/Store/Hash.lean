import Nock.Proofs.Mug
import Nock.Proofs.Effects
import Nock.Proofs.Store.Reading
import Nock.Store.Hash

/-!
# Hashing a held noun

Hashing gives the mug of the noun that a datum denotes, or fails as the plain noun does, and all it
changes is that cells come to remember the mugs of their nouns.  This holds also when it fails half
way: the cells on the left of the fault have got their mugs by then.
-/

namespace Nock

open StoreM Store

variable {s : Store} {ν : Reading}

lemma Mug.handOut_mug {n : Noun} {m : Int} (h : n.mug = .ok m) : handOut m = m := by
  obtain ⟨h0, h1⟩ := Noun.mug_range h
  have hword : fitsWord m = true := by
    simp only [fitsWord, Bool.and_eq_true, decide_eq_true_eq]
    omega
  simp only [handOut, hword, if_true, avoidMinusOne]
  rw [if_neg (by omega)]

/-- Hashing gives the mug of the noun, and keeps every denotation. -/
lemma mugWithin_exec : ∀ (fuel : Nat) {s : Store} {d : Datum} {n : Noun}, s.Fits ν →
    s.Denotes ν d n → n.height ≤ fuel →
      ∃ s', exec (mugWithin fuel d) s = (n.mug, s') ∧ s'.Fits ν ∧
        s'.cells.size = s.cells.size
  | fuel, s, .atom k, n, hs, hd, _ => by
      subst hd
      exact ⟨s, by rw [mugWithin, exec_ofExcept]; rfl, hs, rfl⟩
  | fuel, s, .flag b, n, hs, hd, _ => by
      subst hd
      exact ⟨s, by rw [mugWithin, exec_ofExcept]; rfl, hs, rfl⟩
  | 0, s, .cell c, n, hs, hd, hn => by
      obtain ⟨hc, rfl⟩ := hd
      obtain ⟨cell, h, t, _, hν, _⟩ := hs.get hc
      simp [hν, Noun.height] at hn
  | fuel + 1, s, .cell c, n, hs, hd, hn => by
      obtain ⟨hc, rfl⟩ := hd
      obtain ⟨cell, h, t, hget, hν, hcell⟩ := hs.get hc
      rw [hν, Noun.height] at hn
      rw [hν, mugWithin, exec_bind_ok (exec_cell? c s)]
      simp only [hget]
      by_cases hmug : cell.mug ≠ 0
      · have hm := hcell.mug.resolve_left hmug
        rw [if_pos hmug, exec_pure, Mug.handOut_mug hm, hm]
        exact ⟨s, rfl, hs, rfl⟩
      rw [if_neg hmug]
      -- the head, then the tail, each in the store that the one before has left
      obtain ⟨s₁, hexec₁, hs₁, hsize₁⟩ := mugWithin_exec fuel hs hcell.head (by omega)
      cases hhead : h.mug with
      | error e =>
          rw [hhead] at hexec₁
          refine ⟨s₁, ?_, hs₁, hsize₁⟩
          rw [exec_bind_error hexec₁, Noun.mug, hhead]
          rfl
      | ok head =>
          rw [hhead] at hexec₁
          rw [exec_bind_ok hexec₁]
          obtain ⟨s₂, hexec₂, hs₂, hsize₂⟩ := mugWithin_exec fuel hs₁
            (hcell.tail.later (.of_size hsize₁)) (by omega)
          cases htail : t.mug with
          | error e =>
              rw [htail] at hexec₂
              refine ⟨s₂, ?_, hs₂, hsize₂.trans hsize₁⟩
              rw [exec_bind_error hexec₂, Noun.mug, hhead, htail]
              rfl
          | ok tail =>
              rw [htail] at hexec₂
              rw [exec_bind_ok hexec₂]
              have hpair : (Noun.cell h t).mug = Mug.pair head tail := by
                simp only [Noun.mug, hhead, htail, ok_bind]
              cases hm : Mug.pair head tail with
              | error e =>
                  refine ⟨s₂, ?_, hs₂, hsize₂.trans hsize₁⟩
                  rw [exec_bind_error (exec_ofExcept _ s₂), hpair, hm]
              | ok m =>
                  refine ⟨s₂.update c ({ · with mug := m }), ?_, ?_, ?_⟩
                  · rw [exec_bind_ok (exec_ofExcept _ s₂), exec_bind_ok (exec_modify _ s₂), hpair,
                      hm]
                    rfl
                  · refine hs₂.update fun old h' t' _ hν' hold => ?_
                    rw [hν] at hν'
                    cases hν'
                    exact ⟨hold.head, hold.tail, hold.height, Or.inr (hpair.trans hm)⟩
                  · rw [update_size, hsize₂, hsize₁]

/-- The mug of a held noun is the mug of the noun. -/
lemma mug_exec (hs : s.Fits ν) {d : Datum} {n : Noun} (hd : s.Denotes ν d n) :
    ∃ s', exec (StoreM.mug d) s = (n.mug, s') ∧ s'.Fits ν ∧ s'.cells.size = s.cells.size := by
  rw [StoreM.mug, exec_bind_ok (exec_get s)]
  exact mugWithin_exec _ hs hd (by rw [hs.heightOf_eq hd])

end Nock
