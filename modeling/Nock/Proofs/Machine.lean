import Nock.Proofs.Reduction
import Nock.Proofs.Store.Refinement

/-!
# The machine computes the reduction rules

Evaluation under a bound against derivation by the rules of `Nock.Proofs.Reduction`, for plain nouns
and for nouns held in a store.  A store brings nothing new: held nouns are evaluated as the plain
nouns that they denote, however their cells are shared and whatever mugs they remember.
-/

namespace Nock

open StoreM hiding look same copy
open Filter

/-- **Evaluation is derivation.**  A result is found under some bound exactly if the rules derive it,
and then it is found under every larger bound.  Where the rules derive nothing, the evaluation meets
every bound, or fails in one and the same way under every large enough bound.  All of this holds of
held nouns as well, since under every bound they give what the plain nouns give. -/
theorem nock_iff_reduces (a f : Noun) :
    (∀ r, (∃ bound, Noun.nock bound a f = .ok r) ↔ Reduces a f r) ∧
    (∀ r bound larger, bound ≤ larger → Noun.nock bound a f = .ok r →
      Noun.nock larger a f = .ok r) ∧
    ((¬∃ r, Reduces a f r) →
      (∀ bound, Noun.nock bound a f = .error .tooDeep) ∨
        ∃ fault, fault ≠ .tooDeep ∧ ∀ᶠ bound in atTop, Noun.nock bound a f = .error fault) ∧
    (∀ (s : Store) (subject formula : Datum) (bound : Nat), s.Sound → s.noun? subject = some a →
      s.noun? formula = some f →
        answer (nock bound subject formula) s = (Noun.nock bound a f).map some) := by
  refine ⟨fun r => exists_nock_iff_reduces, fun r bound larger hle hr => ?_, nock_fails_or_tooDeep,
    fun s subject formula bound hs hsubject hformula => ?_⟩
  · exact (nock_approximates hle a f).eq_ok hr
  · have ha := hs.fits.noun?_iff.mp hsubject
    have hf := hs.fits.noun?_iff.mp hformula
    exact (nock_refines bound hs.fits ha hf).answer_eq

/-- The formula `[5 [0 2] 0 3]`, which compares the two parts of its subject. -/
def compareParts : Noun :=
  .formula 5 (.cell (.formula 0 (.atom 2)) (.formula 0 (.atom 3)))

/-- A store that holds `evenPair` as cell 2, its parts being two cells, and `compareParts` as cell 6. -/
def twinStore : Store :=
  ⟨#[⟨.atom 1, .atom 2, 0, 1⟩, ⟨.atom 1, .atom 2, 0, 1⟩, ⟨.cell 0, .cell 1, 0, 2⟩,
    ⟨.atom 0, .atom 2, 0, 1⟩, ⟨.atom 0, .atom 3, 0, 1⟩, ⟨.cell 3, .cell 4, 0, 2⟩,
    ⟨.atom 5, .cell 5, 0, 3⟩], #[]⟩

/-- Comparing the parts of `evenPair` gives 0, also where they are held in two cells; an atom is no
formula. -/
theorem nock_iff_reduces_twins :
    (Noun.nock 4 evenPair compareParts = .ok (.atom 0) ∧ Reduces evenPair compareParts (.atom 0) ∧
      Noun.nock 9 evenPair compareParts = .ok (.atom 0)) ∧
    (twinStore.Sound ∧ twinStore.noun? (.cell 2) = some evenPair ∧
      twinStore.noun? (.cell 6) = some compareParts ∧
      answer (nock 4 (.cell 2) (.cell 6)) twinStore = .ok (some (.atom 0))) ∧
    ((¬∃ r, Reduces evenPair (.atom 0) r) ∧
      ((∀ bound, Noun.nock bound evenPair (.atom 0) = .error .tooDeep) ∨
        ∃ fault, fault ≠ .tooDeep ∧
          ∀ᶠ bound in atTop, Noun.nock bound evenPair (.atom 0) = .error fault)) := by
  obtain ⟨hiff, hlarger, _, hheld⟩ := nock_iff_reduces evenPair compareParts
  have hfound : Noun.nock 4 evenPair compareParts = .ok (.atom 0) := rfl
  have hsound : twinStore.Sound := by decide
  have hnone : ¬∃ r, Reduces evenPair (.atom 0) r := by
    rintro ⟨r, h⟩
    cases h
  refine ⟨⟨hfound, (hiff _).mp ⟨4, hfound⟩, hlarger _ 4 9 (by decide) hfound⟩,
    ⟨hsound, rfl, rfl, ?_⟩, hnone, (nock_iff_reduces evenPair (.atom 0)).2.2.1 hnone⟩
  rw [hheld twinStore (.cell 2) (.cell 6) 4 hsound rfl rfl, hfound]
  rfl

end Nock
