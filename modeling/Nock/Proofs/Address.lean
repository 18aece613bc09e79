import Nock.Proofs.Axis
import Nock.Proofs.Bits
import Nock.Proofs.Path
import Nock.Proofs.Store.Refinement

/-!
# Axes are paths

The binary digits of an axis behind the highest one are the turns of a path.  Looking up takes the
digits from the lowest one on and goes down on the way back (`slot_eq_walk`); editing also takes them
from the lowest one on and fetches the neighbour at every turn from the noun as it was
(`edit_eq_graft`).  Both give what walking and grafting along the path give, and all failures on the
way come down to one: the path goes through an atom.

A bound with more room than the axis has binary digits is never met, whatever the nouns are.
-/

namespace Nock

open StoreM hiding look same copy
open Store Memory

/-! ## The turns of an axis -/

/-- The turns that an axis stands for: its binary digits behind the highest one, from the higher ones
to the lower ones. -/
def turns (axis : Int) : Path :=
  (Bits.ofNumber axis).dropLast.reverse

@[simp] lemma turns_one : turns 1 = [] := rfl

variable {x y : Int} {bound : Nat}

lemma ofNumber_ne_nil (hx : 1 ≤ x) : Bits.ofNumber x ≠ [] := by
  rw [Bits.ofNumber_half (by omega)]
  exact List.cons_ne_nil _ _

/-- The lowest digit is the last turn. -/
lemma turns_half (hx : 1 < x) : turns x = turns (x / 2) ++ [x % 2 == 1] := by
  have hhalf : Bits.ofNumber (x / 2) ≠ [] := ofNumber_ne_nil (by omega)
  rw [turns, turns, Bits.ofNumber_half (by omega), List.dropLast_cons_of_ne_nil hhalf,
    List.reverse_cons]

/-- An axis has one binary digit more than its half. -/
lemma bitLength_axis (hx : 1 ≤ x) : bitLength x = bitLength (x / 2) + 1 := by
  obtain ⟨k, rfl⟩ := Int.eq_ofNat_of_zero_le (by omega : 0 ≤ x)
  exact bitLength_half (by omega)

/-! ## Looking up and editing -/

/-- What is reached on a path: a path fails at an atom. -/
def reached (found : Option Noun) : Except Fault Noun :=
  found.elim (.error .splitAtom) .ok

@[simp] lemma reached_none : reached none = .error .splitAtom := rfl

@[simp] lemma reached_some (n : Noun) : reached (some n) = .ok n := rfl

lemma reached_bind (found : Option Noun) (f : Noun → Option Noun) :
    reached (found.bind f) = reached found >>= fun n => reached (f n) := by
  cases found <;> rfl

lemma side_eq_walk (n : Noun) : Noun.side x n = reached (n.walk [x % 2 == 1]) := by
  rcases Int.emod_two_eq_zero_or_one x with h | h <;> cases n <;> simp [Noun.side, h] <;> rfl

/-- Looking up at an axis is walking along its turns. -/
lemma slot_eq_walk (n : Noun) (hx : 1 ≤ x) (hbound : bitLength x ≤ bound) :
    slot bound x n = reached (n.walk (turns x)) := by
  induction bound generalizing x with
  | zero =>
      rw [bitLength_axis hx] at hbound
      omega
  | succ bound ih =>
      by_cases h1 : x = 1
      · subst h1
        simp
      · have hturns := turns_half (by omega : 1 < x)
        rw [bitLength_axis hx] at hbound
        rw [slot_succ (by omega) h1, ih (by omega) (by omega), hturns, Noun.walk_append,
          reached_bind]
        simp only [← side_eq_walk]

/-- Editing at an axis is grafting along its turns. -/
lemma edit_eq_graft (n part : Noun) (hx : 1 ≤ x) (hbound : bitLength x < bound) :
    edit bound x part n = reached (n.graft (turns x) part) := by
  induction bound generalizing x part with
  | zero => omega
  | succ bound ih =>
      by_cases h1 : x = 1
      · subst h1
        simp
      have hlength := bitLength_axis hx
      have hturns := turns_half (by omega : 1 < x)
      have ih' := fun cell => ih cell (by omega : 1 ≤ x / 2) (by omega)
      rcases Int.emod_two_eq_zero_or_one x with h | h
      · -- the neighbour is the tail, at the next axis
        have hhalf : (x + 1) / 2 = x / 2 := by omega
        have hnext := turns_half (by omega : 1 < x + 1)
        have hlength' := bitLength_axis (by omega : 1 ≤ x + 1)
        rw [hhalf] at hnext hlength'
        rw [edit_even h, slot_eq_walk n (by omega) (by omega), hturns, hnext, h,
          show (x + 1) % 2 = 1 by omega]
        simp only [ih', ← reached_bind]
        exact congrArg reached (Noun.graft_concat_false n _ part).symm
      · -- the neighbour is the head, at the axis before
        have hhalf : (x - 1) / 2 = x / 2 := by omega
        have hbefore := turns_half (by omega : 1 < x - 1)
        have hlength' := bitLength_axis (by omega : 1 ≤ x - 1)
        rw [hhalf] at hbefore hlength'
        rw [edit_odd (by omega) h1, slot_eq_walk n (by omega) (by omega), hturns, hbefore, h,
          show (x - 1) % 2 = 0 by omega]
        simp only [ih', ← reached_bind]
        exact congrArg reached (Noun.graft_concat_true n _ part).symm

/-! ## One axis -/

section

variable (hx : 1 ≤ x) (hbound : bitLength x < bound) (a b c : Noun)

include hx hbound

/-- An axis can be looked up and edited, or it goes through an atom. -/
lemma slot_edit_cases :
    (Noun.slot bound x b = .error .splitAtom ∧ Noun.edit bound x a b = .error .splitAtom) ∨
      ∃ part whole, b.walk (turns x) = some part ∧ b.graft (turns x) a = some whole ∧
        Noun.slot bound x b = .ok part ∧ Noun.edit bound x a b = .ok whole := by
  have hboth := b.graft_isSome (turns x) a
  rw [Noun.slot, Noun.edit, slot_eq_walk b hx hbound.le, edit_eq_graft b a hx hbound]
  cases hwalk : b.walk (turns x) with
  | none =>
      rw [hwalk, Option.isSome_none, Option.isSome_eq_false_iff, Option.isNone_iff_eq_none] at hboth
      exact Or.inl ⟨rfl, by rw [hboth, reached_none]⟩
  | some part =>
      rw [hwalk, Option.isSome_some, Option.isSome_iff_exists] at hboth
      obtain ⟨whole, hwhole⟩ := hboth
      exact Or.inr ⟨part, whole, rfl, hwhole, rfl, by rw [hwhole, reached_some]⟩

/-- What was put in is found. -/
lemma slot_edit : (Noun.edit bound x a b >>= Noun.slot bound x)
    = Noun.slot bound x b >>= fun _ => .ok a := by
  rcases slot_edit_cases hx hbound a b with ⟨hslot, hedit⟩ | ⟨part, whole, -, hgraft, hslot, hedit⟩
  · rw [hslot, hedit, error_bind, error_bind]
  · rw [hslot, hedit, ok_bind, ok_bind, Noun.slot, slot_eq_walk whole hx hbound.le,
      Noun.walk_graft hgraft, reached_some]

/-- Putting in what was found changes nothing. -/
lemma edit_slot : (Noun.slot bound x b >>= fun part => Noun.edit bound x part b)
    = Noun.slot bound x b >>= fun _ => .ok b := by
  rcases slot_edit_cases hx hbound b b with ⟨hslot, -⟩ | ⟨part, whole, hwalk, -, hslot, -⟩
  · rw [hslot, error_bind, error_bind]
  · rw [hslot, ok_bind, ok_bind, Noun.edit, edit_eq_graft b part hx hbound, Noun.graft_walk hwalk,
      reached_some]

/-- Only what is put in last counts. -/
lemma edit_edit : (Noun.edit bound x a b >>= Noun.edit bound x c) = Noun.edit bound x c b := by
  rcases slot_edit_cases hx hbound a b with ⟨hslot, hedit⟩ | ⟨part, whole, -, hgraft, -, hedit⟩
  · rcases slot_edit_cases hx hbound c b with ⟨-, hedit'⟩ | ⟨_, _, -, -, hslot', -⟩
    · rw [hedit, hedit', error_bind]
    · rw [hslot] at hslot'
      cases hslot'
  · rw [hedit, ok_bind, Noun.edit, Noun.edit, edit_eq_graft whole c hx hbound,
      edit_eq_graft b c hx hbound, Noun.graft_graft hgraft]

end

/-- **Reading and writing at one axis.**  Under a bound with more room than the axis has binary digits,
an edit gives a noun exactly if the lookup does, and otherwise both fail at an atom.  Then what was
put in is found, putting in what was found changes nothing, and of two edits the last one counts.
Held nouns are looked up and edited like plain ones, so the same holds of them. -/
theorem edit_slot_laws (hx : 1 ≤ x) (hbound : bitLength x < bound) (a b c : Noun) :
    ((Noun.slot bound x b = .error .splitAtom ∧ Noun.edit bound x a b = .error .splitAtom ∧
        Fault.message .splitAtom = "fail: atom") ∨
      ∃ part whole, Noun.slot bound x b = .ok part ∧ Noun.edit bound x a b = .ok whole ∧
        Noun.slot bound x whole = .ok a ∧ Noun.edit bound x part b = .ok b ∧
        ∃ other, Noun.edit bound x c whole = .ok other ∧ Noun.edit bound x c b = .ok other) ∧
    ∀ (s : Store) (dx da db dc : Datum), s.Sound → s.noun? dx = some (.atom x) →
      s.noun? da = some a → s.noun? db = some b → s.noun? dc = some c →
        Realizes s (slotAt bound dx db) (Noun.slot bound x b) Has ∧
        Realizes s (editAt bound dx da db) (Noun.edit bound x a b) Has ∧
        Realizes s (editAt bound dx da db >>= slotAt bound dx)
          (Noun.slot bound x b >>= fun _ => .ok a) Has ∧
        Realizes s (slotAt bound dx db >>= fun part => editAt bound dx part db)
          (Noun.slot bound x b >>= fun _ => .ok b) Has ∧
        Realizes s (editAt bound dx da db >>= editAt bound dx dc) (Noun.edit bound x c b) Has := by
  have hslot := slot_edit hx hbound a b
  have hsame := edit_slot hx hbound b
  have hlast := edit_edit hx hbound a b c
  refine ⟨?_, fun s dx da db dc hs hdx hda hdb hdc => ?_⟩
  · rcases slot_edit_cases hx hbound a b with ⟨hfail, hfail'⟩ | ⟨part, whole, -, -, hpart, hwhole⟩
    · exact Or.inl ⟨hfail, hfail', rfl⟩
    · rw [hpart, hwhole, ok_bind, ok_bind] at hslot
      rw [hpart, ok_bind, ok_bind] at hsame
      rw [hwhole, ok_bind] at hlast
      refine Or.inr ⟨part, whole, hpart, hwhole, hslot, hsame, ?_⟩
      rcases slot_edit_cases hx hbound c b with ⟨hfail, -⟩ | ⟨-, other, -, -, -, hother⟩
      · rw [hpart] at hfail
        cases hfail
      · exact ⟨other, hlast.trans hother, hother⟩
  · have hfits := hs.fits
    rw [hfits.noun?_iff] at hdx hda hdb hdc
    have hread := slotAt_refines bound hfits hdx hdb
    have hwrite := editAt_refines bound hfits hdx hda hdb
    rw [← hslot, ← hsame, ← hlast]
    refine ⟨hread.realizes_has hfits, hwrite.realizes_has hfits, ?_, ?_, ?_⟩
    · refine (hwrite.bind fun s' ν' _ _ hlater hs' hwhole => ?_).realizes_has hfits
      exact slotAt_refines bound hs' (hdx.later hlater) hwhole
    · refine (hread.bind fun s' ν' _ _ hlater hs' hpart => ?_).realizes_has hfits
      exact editAt_refines bound hs' (hdx.later hlater) hpart (hdb.later hlater)
    · refine (hwrite.bind fun s' ν' _ _ hlater hs' hwhole => ?_).realizes_has hfits
      exact editAt_refines bound hs' (hdx.later hlater) (hdc.later hlater) hwhole

/-- A store that holds `evenPair` as cell 1, with one cell for both of its parts. -/
def evenStore : Store :=
  ⟨#[⟨.atom 1, .atom 2, 0, 1⟩, ⟨.cell 0, .cell 0, 0, 2⟩], #[]⟩

/-- Axis 6 of `evenPair` can be edited, also where it is held in a shared cell, and axis 12 goes
through an atom. -/
theorem edit_slot_laws_even :
    (bitLength 6 < 9 ∧ evenStore.Sound ∧ evenStore.noun? (.cell 1) = some evenPair) ∧
    (∃ part whole, Noun.slot 9 6 evenPair = .ok part ∧
      Noun.edit 9 6 (.atom 9) evenPair = .ok whole ∧ Noun.slot 9 6 whole = .ok (.atom 9) ∧
      Noun.edit 9 6 part evenPair = .ok evenPair) ∧
    Realizes evenStore (editAt 9 (.atom 6) (.atom 9) (.cell 1) >>= slotAt 9 (.atom 6))
      (.ok (.atom 9)) Has ∧
    Noun.slot 9 12 evenPair = .error .splitAtom ∧
      Noun.edit 9 12 (.atom 9) evenPair = .error .splitAtom := by
  have hsix : bitLength 6 < 9 := by decide +kernel
  have htwelve : bitLength 12 < 9 := by decide +kernel
  have hsound : evenStore.Sound := by decide +kernel
  obtain ⟨hlaws, hheld⟩ := edit_slot_laws (by decide) hsix (.atom 9) evenPair (.atom 0)
  obtain ⟨-, -, hfound, -⟩ := hheld evenStore (.atom 6) (.atom 9) (.cell 1) (.atom 0) hsound rfl rfl
    rfl rfl
  obtain ⟨hlaws', -⟩ := edit_slot_laws (by decide) htwelve (.atom 9) evenPair (.atom 0)
  refine ⟨⟨hsix, hsound, rfl⟩, ?_, hfound, ?_⟩
  · rcases hlaws with ⟨hfail, -⟩ | ⟨part, whole, hpart, hwhole, hread, hsame, -⟩
    · cases hfail
    · exact ⟨part, whole, hpart, hwhole, hread, hsame⟩
  · rcases hlaws' with ⟨hfail, hfail', -⟩ | ⟨part, -, hpart, -⟩
    · exact ⟨hfail, hfail'⟩
    · cases hpart

/-! ## Two axes -/

section

variable (hx : 1 ≤ x) (hy : 1 ≤ y) (hapart : Noun.Apart (turns x) (turns y))
  (hbx : bitLength x < bound) (hby : bitLength y < bound) (a b c : Noun)

include hx hy hapart hbx hby

/-- An edit does not change what is found elsewhere. -/
lemma slot_edit_of_apart : (Noun.edit bound x a b >>= Noun.slot bound y)
    = Noun.edit bound x a b >>= fun _ => Noun.slot bound y b := by
  rcases slot_edit_cases hx hbx a b with ⟨-, hedit⟩ | ⟨_, whole, -, hgraft, -, hedit⟩
  · rw [hedit, error_bind, error_bind]
  · rw [hedit, ok_bind, ok_bind, Noun.slot, Noun.slot, slot_eq_walk whole hy hby.le,
      slot_eq_walk b hy hby.le, Noun.walk_graft_of_apart hapart hgraft]

/-- Two edits may be exchanged. -/
lemma edit_comm : (Noun.edit bound y c b >>= Noun.edit bound x a)
    = Noun.edit bound x a b >>= Noun.edit bound y c := by
  have hcomm := congrArg reached (Noun.graft_comm hapart b a c)
  simp only [reached_bind, ← edit_eq_graft _ _ hx hbx, ← edit_eq_graft _ _ hy hby] at hcomm
  exact hcomm

end

/-- **Edits at two axes.**  Two axes of which neither path is the beginning of the other address parts
that have nothing in common.  An edit at the one does not change what is found at the other, be it
a noun or a failure, and edits at both may be made in either order, with the same noun or the same
failure.  The same holds of held nouns, whatever cells they share. -/
theorem edits_apart_commute (hx : 1 ≤ x) (hy : 1 ≤ y) (hxy : ¬turns x <+: turns y)
    (hyx : ¬turns y <+: turns x) (hbx : bitLength x < bound) (hby : bitLength y < bound)
    (a b c : Noun) :
    (∀ whole, Noun.edit bound x a b = .ok whole →
      Noun.slot bound y whole = Noun.slot bound y b ∧
        ((∃ part, Noun.slot bound y b = .ok part) ∨ Noun.slot bound y b = .error .splitAtom)) ∧
    ((∃ whole, (Noun.edit bound y c b >>= Noun.edit bound x a) = .ok whole ∧
        (Noun.edit bound x a b >>= Noun.edit bound y c) = .ok whole) ∨
      ((Noun.edit bound y c b >>= Noun.edit bound x a) = .error .splitAtom ∧
        (Noun.edit bound x a b >>= Noun.edit bound y c) = .error .splitAtom)) ∧
    ∀ (s : Store) (dx dy da db dc : Datum), s.Sound → s.noun? dx = some (.atom x) →
      s.noun? dy = some (.atom y) → s.noun? da = some a → s.noun? db = some b →
      s.noun? dc = some c →
        Realizes s (editAt bound dx da db >>= slotAt bound dy)
          (Noun.edit bound x a b >>= fun _ => Noun.slot bound y b) Has ∧
        Realizes s (editAt bound dy dc db >>= editAt bound dx da)
          (Noun.edit bound x a b >>= Noun.edit bound y c) Has ∧
        Realizes s (editAt bound dx da db >>= editAt bound dy dc)
          (Noun.edit bound x a b >>= Noun.edit bound y c) Has := by
  have hapart : Noun.Apart (turns x) (turns y) := ⟨hxy, hyx⟩
  have hframe := slot_edit_of_apart hx hy hapart hbx hby a b
  have hcomm := edit_comm hx hy hapart hbx hby a b c
  refine ⟨fun whole hwhole => ?_, ?_, fun s dx dy da db dc hs hdx hdy hda hdb hdc => ?_⟩
  · rw [hwhole, ok_bind, ok_bind] at hframe
    refine ⟨hframe, ?_⟩
    rcases slot_edit_cases hy hby c b with ⟨hfail, -⟩ | ⟨part, -, -, -, hpart, -⟩
    · exact Or.inr hfail
    · exact Or.inl ⟨part, hpart⟩
  · rw [hcomm]
    rcases slot_edit_cases hx hbx a b with ⟨-, hfail⟩ | ⟨-, whole, -, -, -, hwhole⟩
    · exact Or.inr (by simp [hfail])
    · rw [hwhole, ok_bind]
      rcases slot_edit_cases hy hby c whole with ⟨-, hfail⟩ | ⟨-, other, -, -, -, hother⟩
      · exact Or.inr ⟨hfail, hfail⟩
      · exact Or.inl ⟨other, hother, hother⟩
  · have hfits := hs.fits
    rw [hfits.noun?_iff] at hdx hdy hda hdb hdc
    have hwrite := editAt_refines bound hfits hdx hda hdb
    have hwrite' := editAt_refines bound hfits hdy hdc hdb
    rw [← hframe]
    refine ⟨?_, hcomm ▸ ?_, ?_⟩
    · refine (hwrite.bind fun s' ν' _ _ hlater hs' hwhole => ?_).realizes_has hfits
      exact slotAt_refines bound hs' (hdy.later hlater) hwhole
    · refine (hwrite'.bind fun s' ν' _ _ hlater hs' hwhole => ?_).realizes_has hfits
      exact editAt_refines bound hs' (hdx.later hlater) (hda.later hlater) hwhole
    · refine (hwrite.bind fun s' ν' _ _ hlater hs' hwhole => ?_).realizes_has hfits
      exact editAt_refines bound hs' (hdy.later hlater) (hdc.later hlater) hwhole

/-- Edits of `evenPair` at the axes 4 and 6, which are one and the same cell's head in `evenStore`,
and a lookup at axis 12, where there is nothing. -/
theorem edits_apart_commute_even :
    ((¬turns 4 <+: turns 6 ∧ ¬turns 6 <+: turns 4) ∧ (¬turns 4 <+: turns 12 ∧ ¬turns 12 <+: turns 4) ∧
      evenStore.Sound ∧ evenStore.noun? (.cell 1) = some evenPair) ∧
    (∃ whole, Noun.edit 9 4 (.atom 8) evenPair = .ok whole ∧
      Noun.slot 9 6 whole = Noun.slot 9 6 evenPair ∧ Noun.slot 9 12 whole = Noun.slot 9 12 evenPair) ∧
    (∃ whole, (Noun.edit 9 6 (.atom 9) evenPair >>= Noun.edit 9 4 (.atom 8)) = .ok whole ∧
      (Noun.edit 9 4 (.atom 8) evenPair >>= Noun.edit 9 6 (.atom 9)) = .ok whole) ∧
    Realizes evenStore (editAt 9 (.atom 4) (.atom 8) (.cell 1) >>= slotAt 9 (.atom 6))
      (.ok (.atom 1)) Has := by
  have hapart : ¬turns 4 <+: turns 6 ∧ ¬turns 6 <+: turns 4 := by decide +kernel
  have hapart' : ¬turns 4 <+: turns 12 ∧ ¬turns 12 <+: turns 4 := by decide +kernel
  have hsound : evenStore.Sound := by decide +kernel
  have hfour : bitLength 4 < 9 := by decide +kernel
  have hsix : bitLength 6 < 9 := by decide +kernel
  have htwelve : bitLength 12 < 9 := by decide +kernel
  obtain ⟨hframe, hcomm, hheld⟩ := edits_apart_commute (by decide) (by decide) hapart.1 hapart.2
    hfour hsix (.atom 8) evenPair (.atom 9)
  obtain ⟨hframe', -⟩ := edits_apart_commute (by decide) (by decide) hapart'.1 hapart'.2
    hfour htwelve (.atom 8) evenPair (.atom 9)
  refine ⟨⟨hapart, hapart', hsound, rfl⟩, ⟨_, rfl, (hframe _ rfl).1, (hframe' _ rfl).1⟩, ?_, ?_⟩
  · rcases hcomm with hcomm | ⟨hfail, -⟩
    · exact hcomm
    · cases hfail
  · exact (hheld evenStore (.atom 4) (.atom 6) (.atom 8) (.cell 1) (.atom 9) hsound rfl rfl rfl rfl
      rfl).1

end Nock
