import Nock.Proofs.Digits

/-!
# Which lookups and edits end

Looking up and editing halve the axis at every step, rounding down.  What becomes of that does not
depend on the nouns but on the axis alone.

* From a **positive** axis the halves come down to 1, after as many steps as the axis has binary digits
  behind the highest one.  A lookup goes down all the way before it looks at the noun, and an edit
  first looks up the neighbour, so there is one bound for all nouns: below it the computation always
  meets the bound, and from it on never (`slot_eq_ite`, `edit_eq_ite`).
* **Axis 0** is its own half.  A lookup refuses it.  An edit does not: it finds its neighbour, which is
  the whole noun at axis 1, and goes on at axis 0 (`edit_tooDeep_of_nonpos`).
* The halves of a **negative** axis come down to −1, whose half is −1 again.  A lookup never ends
  (`slot_tooDeep_of_neg`), and an edit never gets past looking up its neighbour.
-/

namespace Nock

open StoreM hiding look same copy
open Store Memory

variable {x : Int} {bound : Nat}

/-! ## Lookups -/

/-- How many nested lookups an axis takes. -/
def lookupDepth (axis : Int) : Nat :=
  max 1 (bitLength axis)

/-- The computation has ended with a noun or refused what it was asked. -/
def HasEnded (outcome : Except Fault Noun) : Prop :=
  (∃ n, outcome = .ok n) ∨ outcome = .error .zeroAxis ∨ outcome = .error .splitAtom

lemma hasEnded_reached (found : Option Noun) : HasEnded (reached found) := by
  cases found with
  | none => exact Or.inr (Or.inr rfl)
  | some n => exact Or.inl ⟨n, rfl⟩

/-- A negative axis stays negative. -/
lemma slot_tooDeep_of_neg (hx : x < 0) (bound : Nat) (n : Noun) :
    slot bound x n = (.error .tooDeep : Except Fault Noun) := by
  induction bound generalizing x with
  | zero => rfl
  | succ bound ih =>
      rw [slot_succ (by omega) (by omega), ih (by omega), error_bind]

/-- The bound is met before the noun is looked at. -/
lemma slot_tooDeep_of_lt (hx : 1 ≤ x) (hbound : bound < bitLength x) (n : Noun) :
    slot bound x n = (.error .tooDeep : Except Fault Noun) := by
  induction bound generalizing x with
  | zero => rfl
  | succ bound ih =>
      have hdigits := bitLength_axis hx
      have h1 : x ≠ 1 := by
        rintro rfl
        rw [show bitLength 1 = 1 from rfl] at hbound
        omega
      rw [slot_succ (by omega) h1, ih (by omega) (by omega), error_bind]

/-- A lookup meets the bounds below its depth, and has one outcome from there on. -/
lemma slot_eq_ite (hx : 0 ≤ x) (n : Noun) : ∃ outcome, HasEnded outcome ∧ ∀ bound,
    Noun.slot bound x n = if bound < lookupDepth x then .error .tooDeep else outcome := by
  rcases eq_or_lt_of_le hx with rfl | hpos
  · refine ⟨.error .zeroAxis, Or.inr (Or.inl rfl), fun bound => ?_⟩
    cases bound with
    | zero => rfl
    | succ bound => rw [if_neg (by simp [lookupDepth])]; rfl
  · refine ⟨reached (n.walk (turns x)), hasEnded_reached _, fun bound => ?_⟩
    have hdepth : lookupDepth x = bitLength x := by
      have hdigits := bitLength_axis hpos
      exact Nat.max_eq_right (by omega)
    rw [hdepth]
    split_ifs with hbound
    · exact slot_tooDeep_of_lt hpos hbound n
    · exact slot_eq_walk n hpos (Nat.not_lt.mp hbound)

/-! ## Edits -/

/-- How many nested edits and lookups an axis takes. -/
def editDepth (axis : Int) : Nat :=
  if axis = 1 then 1 else bitLength axis + 1

/-- An axis that is not positive never becomes 1. -/
lemma edit_tooDeep_of_nonpos (hx : x ≤ 0) (bound : Nat) (part n : Noun) :
    edit bound x part n = (.error .tooDeep : Except Fault Noun) := by
  induction bound generalizing x part with
  | zero => rfl
  | succ bound ih =>
      rcases Int.emod_two_eq_zero_or_one x with h | h
      · rw [edit_even h]
        by_cases h0 : x = 0
        · -- the neighbour of axis 0 is the whole noun
          subst h0
          cases bound with
          | zero => rfl
          | succ bound => rw [Int.zero_add, slot_one, ok_bind]; exact ih (by decide) _
        · have hneighbour := slot_tooDeep_of_neg (by omega : x + 1 < 0) bound n
          rw [hneighbour, error_bind]
      · have hneighbour := slot_tooDeep_of_neg (by omega : x - 1 < 0) bound n
        rw [edit_odd (by omega) (by omega), hneighbour, error_bind]

/-- The bound is met while the neighbour is looked up. -/
lemma edit_tooDeep_of_le (hx : 1 < x) (hbound : bound ≤ bitLength x) (part n : Noun) :
    edit bound x part n = (.error .tooDeep : Except Fault Noun) := by
  cases bound with
  | zero => rfl
  | succ bound =>
      have hdigits := bitLength_axis (by omega : 1 ≤ x)
      rcases Int.emod_two_eq_zero_or_one x with h | h
      · have hdigits' := bitLength_axis (by omega : 1 ≤ x + 1)
        rw [show (x + 1) / 2 = x / 2 by omega] at hdigits'
        have hneighbour := slot_tooDeep_of_lt (by omega : 1 ≤ x + 1)
          (by omega : bound < bitLength (x + 1)) n
        rw [edit_even h, hneighbour, error_bind]
      · have hdigits' := bitLength_axis (by omega : 1 ≤ x - 1)
        rw [show (x - 1) / 2 = x / 2 by omega] at hdigits'
        have hneighbour := slot_tooDeep_of_lt (by omega : 1 ≤ x - 1)
          (by omega : bound < bitLength (x - 1)) n
        rw [edit_odd (by omega) (by omega), hneighbour, error_bind]

/-- An edit meets the bounds below its depth, and has one outcome from there on. -/
lemma edit_eq_ite (hx : 1 ≤ x) (part n : Noun) : ∃ outcome, HasEnded outcome ∧ ∀ bound,
    Noun.edit bound x part n = if bound < editDepth x then .error .tooDeep else outcome := by
  refine ⟨reached (n.graft (turns x) part), hasEnded_reached _, fun bound => ?_⟩
  rw [editDepth]
  by_cases h1 : x = 1
  · subst h1
    cases bound with
    | zero => rfl
    | succ bound => simp
  · rw [if_neg h1]
    split_ifs with hbound
    · exact edit_tooDeep_of_le (by omega) (Nat.lt_succ_iff.mp hbound) part n
    · exact edit_eq_graft n part hx (by omega)

/-! ## All axes -/

/-- **Which axes end.**  A lookup at an axis that is not negative, and an edit at a positive axis, end
with a noun or a refusal under every bound from some depth on, always with the same outcome, and meet
every bound below it.  The depth is given by the axis alone, whatever the nouns are.  A lookup at a
negative axis, and an edit at an axis that is not positive, meet every bound, whatever the nouns are.
Held nouns are looked up and edited like plain ones, under every bound. -/
theorem axes_end_or_never (x : Int) (n a b : Noun) :
    (0 ≤ x → ∃ outcome, HasEnded outcome ∧ ∀ bound,
      Noun.slot bound x n = if bound < lookupDepth x then .error .tooDeep else outcome) ∧
    (1 ≤ x → ∃ outcome, HasEnded outcome ∧ ∀ bound,
      Noun.edit bound x a b = if bound < editDepth x then .error .tooDeep else outcome) ∧
    (x < 0 → ∀ bound, Noun.slot bound x n = .error .tooDeep) ∧
    (x ≤ 0 → ∀ bound, Noun.edit bound x a b = .error .tooDeep) ∧
    ∀ (s : Store) (dx dn da db : Datum), s.Sound → s.noun? dx = some (.atom x) →
      s.noun? dn = some n → s.noun? da = some a → s.noun? db = some b → ∀ bound,
        Realizes s (slotAt bound dx dn) (Noun.slot bound x n) Has ∧
        Realizes s (editAt bound dx da db) (Noun.edit bound x a b) Has := by
  refine ⟨fun hx => slot_eq_ite hx n, fun hx => edit_eq_ite hx a b,
    fun hx bound => slot_tooDeep_of_neg hx bound n,
    fun hx bound => edit_tooDeep_of_nonpos hx bound a b,
    fun s dx dn da db hs hdx hdn hda hdb bound => ?_⟩
  have hfits := hs.fits
  rw [hfits.noun?_iff] at hdx hdn hda hdb
  exact ⟨(slotAt_refines bound hfits hdx hdn).realizes_has hfits,
    (editAt_refines bound hfits hdx hda hdb).realizes_has hfits⟩

/-- At axis 6 a lookup takes a bound of 3 and an edit one of 4; axis 0 can be looked up but not
edited, and axis −5 neither, in `evenPair` as elsewhere. -/
theorem axes_end_or_never_even :
    (lookupDepth 6 = 3 ∧ editDepth 6 = 4 ∧ lookupDepth 0 = 1) ∧
    (Noun.slot 2 6 evenPair = .error .tooDeep ∧
      ∃ outcome, HasEnded outcome ∧ ∀ bound, 3 ≤ bound → Noun.slot bound 6 evenPair = outcome) ∧
    (∃ outcome, HasEnded outcome ∧ ∀ bound, 4 ≤ bound →
      Noun.edit bound 6 (.atom 9) evenPair = outcome) ∧
    (∃ outcome, HasEnded outcome ∧ ∀ bound, 1 ≤ bound → Noun.slot bound 0 evenPair = outcome) ∧
    (∀ bound, Noun.edit bound 0 (.atom 9) evenPair = .error .tooDeep) ∧
    (∀ bound, Noun.slot bound (-5) evenPair = .error .tooDeep) ∧
    ∀ bound, Realizes evenStore (editAt bound (.atom 0) (.atom 9) (.cell 1)) (.error .tooDeep) Has := by
  have hsix : lookupDepth 6 = 3 := by decide +kernel
  have hsix' : editDepth 6 = 4 := by decide +kernel
  have hzero : lookupDepth 0 = 1 := by decide +kernel
  obtain ⟨hslot, hedit, -⟩ := axes_end_or_never 6 evenPair (.atom 9) evenPair
  obtain ⟨outcome, hended, hslot⟩ := hslot (by decide)
  obtain ⟨outcome', hended', hedit⟩ := hedit (by decide)
  obtain ⟨hslot₀, -, -, hedit₀, hheld⟩ := axes_end_or_never 0 evenPair (.atom 9) evenPair
  obtain ⟨outcome₀, hended₀, hslot₀⟩ := hslot₀ (by decide)
  refine ⟨⟨hsix, hsix', hzero⟩, ⟨?_, outcome, hended, fun bound hbound => ?_⟩,
    ⟨outcome', hended', fun bound hbound => ?_⟩, ⟨outcome₀, hended₀, fun bound hbound => ?_⟩,
    hedit₀ (by decide), (axes_end_or_never (-5) evenPair evenPair evenPair).2.2.1 (by decide),
    fun bound => ?_⟩
  · rw [hslot, hsix, if_pos (by decide)]
  · rw [hslot, hsix, if_neg (by omega)]
  · rw [hedit, hsix', if_neg (by omega)]
  · rw [hslot₀, hzero, if_neg (by omega)]
  · rw [← hedit₀ (by decide) bound]
    exact (hheld evenStore (.atom 0) (.cell 1) (.atom 9) (.cell 1) (by decide +kernel) rfl rfl rfl rfl
      bound).2

end Nock
