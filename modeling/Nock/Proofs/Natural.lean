import Nock.Proofs.Mug
import Nock.Proofs.Reduction

/-!
# Natural nouns stay natural

The rules put nouns together from parts of the subject and the formula and from small constants, and
an increment only goes up.  So whatever is derived from natural nouns is natural, and an evaluation
never finds a negative atom that was not put in.
-/

namespace Nock

open Reduction

namespace Noun.Natural

lemma of_slot {x : Int} {n r : Noun} (h : Slot x n r) (hn : n.Natural) : r.Natural := by
  induction h with
  | whole => exact hn
  | head => exact hn.1
  | tail => exact hn.2
  | even _ _ inner outer => exact outer (inner hn)
  | odd _ _ inner outer => exact outer (inner hn)

lemma of_edit {x : Int} {part n r : Noun} (h : Edit x part n r) (hpart : part.Natural)
    (hn : n.Natural) : r.Natural := by
  induction h with
  | whole => exact hpart
  | even beside _ above => exact above ⟨hpart, of_slot beside hn⟩ hn
  | odd beside _ above => exact above ⟨of_slot beside hn, hpart⟩ hn

lemma of_test {n r : Noun} (h : Test n r) : r.Natural := by
  cases h <;> decide

lemma of_bump {n r : Noun} (h : Bump n r) (hn : n.Natural) : r.Natural := by
  cases h with
  | atom a => exact Int.add_nonneg (by decide) hn

lemma of_same {a b r : Noun} (h : Same a b r) : r.Natural := by
  cases h <;> decide

lemma formula (opcode : Nat) {arg : Noun} (h : arg.Natural) : (Noun.formula opcode arg).Natural :=
  ⟨Int.natCast_nonneg opcode, h⟩

/-- Whatever is derived from natural nouns is natural. -/
lemma of_reduces {a f r : Noun} (h : Reduces a f r) (ha : a.Natural) (hf : f.Natural) :
    r.Natural := by
  induction h with
  | pair _ _ left right => exact ⟨left ha hf.1, right ha hf.2⟩
  | slot h => exact of_slot h ha
  | const => exact hf.2
  | apply _ _ _ subject code rest => exact rest (subject ha hf.2.1) (code ha hf.2.2)
  | test _ h _ => exact of_test h
  | bump _ h arg => exact of_bump h (arg ha hf.2)
  | same _ _ h _ _ => exact of_same h
  | branch _ _ _ _ test choose pick rest =>
      obtain ⟨hb, hc, hd⟩ := hf.2
      have htwice := test ha (formula 4 (formula 4 hb))
      have hchoice := choose (by decide) (formula 0 htwice)
      exact rest ha (pick ⟨hc, hd⟩ (formula 0 hchoice))
  | compose _ _ subject rest => exact rest (subject ha hf.2.1) hf.2.2
  | push _ _ pinned rest => exact rest ⟨pinned ha hf.2.1, ha⟩ hf.2.2
  | call _ _ subject rest =>
      exact rest (subject ha hf.2.2) (formula 2 ⟨by decide, formula 0 hf.2.1⟩)
  | edit _ _ h part whole => exact of_edit h (part ha hf.2.1.2) (whole ha hf.2.2)
  | hint _ _ _ clue result rest => exact rest ⟨clue ha hf.2.1.2, result ha hf.2.2⟩ (by decide)
  | tag _ _ result => exact result ha hf.2.2

end Noun.Natural

end Nock
