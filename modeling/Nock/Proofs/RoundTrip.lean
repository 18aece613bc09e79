import Nock.Proofs.Store.Jam
import Nock.Proofs.Store.Refinement

/-!
# Held nouns survive serialising

A held noun is serialised to the number of the noun that it denotes, and this number is read back to
a datum that denotes the same noun.  The cells that are read are new ones, and neither direction
changes what the cells that were there denote.
-/

namespace Nock

open StoreM hiding look same copy
open Store

/-- **What is serialised is read back.**  In a sound store, however its cells are shared and whatever
mugs they remember, serialising a noun of natural atoms gives its number, and reading that number
gives the noun again, held in such a way that a comparison with the original says yes. -/
theorem cue_jam_held {s : Store} {d : Datum} {n : Noun} (hs : s.Sound) (hd : s.noun? d = some n)
    (hn : n.Natural) :
    Noun.cue n.jam = .ok n ∧
    ∃ s₁ s₂ copy, exec (StoreM.jam d) s = (.ok n.jam, s₁) ∧
      exec (cue n.jam) s₁ = (.ok copy, s₂) ∧
      s₂.Sound ∧ s₂.noun? copy = some n ∧ s₂.noun? d = some n ∧ (s₂.unify copy d).1 = true := by
  have hdenotes := hs.fits.noun?_iff.mp hd
  obtain ⟨s₁, hjam, hs₁, hsize₁⟩ := jam_exec hs.fits hdenotes hn
  obtain ⟨ν₂, hlater, hs₂, hmatch⟩ := cueBits_refines hs₁ (Bits.ofNumber n.jam)
  have hplain : Noun.cueBits (Bits.ofNumber n.jam) = .ok n := Noun.cue_jam hn
  rw [hplain] at hmatch
  rcases hcue : exec (cueBits (Bits.ofNumber n.jam)) s₁ with ⟨outcome, s₂⟩
  rw [hcue] at hlater hs₂ hmatch
  cases hmatch with
  | ok hcopy =>
      have hold := hdenotes.later ((Store.Extends.of_size hsize₁).trans hlater)
      exact ⟨hplain, s₁, s₂, _, hjam, hcue, hs₂.sound, hs₂.noun?_eq hcopy, hs₂.noun?_eq hold,
        (unify_answers hs₂ hcopy hold).iff.mpr rfl⟩

/-- The noun `[[[1000 1000] 1000 1000] 1000 1000]`. -/
def thousands : Noun :=
  let pair := Noun.cell (.atom 1000) (.atom 1000)
  .cell (.cell pair pair) pair

/-- A store that holds `thousands` as cell 3: one of its pairs is shared and remembers its mug, the
other does not. -/
def thousandStore : Store :=
  ⟨#[⟨.atom 1000, .atom 1000, 678999580, 1⟩, ⟨.atom 1000, .atom 1000, 0, 1⟩,
    ⟨.cell 0, .cell 1, 0, 2⟩, ⟨.cell 2, .cell 0, 0, 3⟩], #[]⟩

theorem cue_jam_held_thousands :
    (thousandStore.Sound ∧ thousandStore.noun? (.cell 3) = some thousands ∧ thousands.Natural) ∧
    Noun.cue thousands.jam = .ok thousands ∧
    ∃ s₁ s₂ copy, exec (StoreM.jam (.cell 3)) thousandStore = (.ok thousands.jam, s₁) ∧
      exec (cue thousands.jam) s₁ = (.ok copy, s₂) ∧
      s₂.Sound ∧ s₂.noun? copy = some thousands ∧ s₂.noun? (.cell 3) = some thousands ∧
      (s₂.unify copy (.cell 3)).1 = true := by
  have hsound : thousandStore.Sound := by decide +kernel
  have hnatural : thousands.Natural := by decide
  exact ⟨⟨hsound, rfl, hnatural⟩, cue_jam_held hsound rfl hnatural⟩

end Nock
