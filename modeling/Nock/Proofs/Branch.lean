import Nock.Proofs.Digits
import Nock.Proofs.Natural

/-!
# Branching

The rule of opcode 6 has no case distinction.  It adds two to the result of the test, takes this as
an axis of `[2 3]`, takes what it finds there as an axis of the two branches, and evaluates what it
finds there.  `nock_branch` puts the four evaluations into one line: the test is evaluated,
`Noun.pick` looks up a branch, and that branch is evaluated.

**What is picked.**  0 and 1 become the axes 2 and 3.  A larger atom becomes an axis of two turns or
more, and no path of two turns leads anywhere in `[2 3]`, however long it is; a cell cannot be
increased.  So `Noun.pick` gives what `Noun.select` says by cases, unless it meets its bound
(`Noun.pick_approximates_select`).

The branch that is not picked appears in the lookup only, hence the outcome does not depend on it.
-/

namespace Nock

open StoreM hiding look same copy
open Store Memory Filter

namespace Noun

/-- The formula `[6 b c d]`. -/
abbrev branch (test yes no : Noun) : Noun :=
  formula 6 (.cell test (.cell yes no))

/-- The branch that the result of a test leads to: two more than it is an axis of `[2 3]`, and what
stands there is an axis of the branches. -/
def pick (bound : Nat) (yes no test : Noun) : Except Fault Noun := do
  let twice ← bump (← bump test)
  let choice ← slotAt bound twice (.cell (.atom 2) (.atom 3))
  slotAt bound choice (.cell yes no)

/-- The branch that the result of a test selects: 0 the first one, 1 the second one, and nothing else
any. -/
def select (yes no : Noun) : (test : Noun) → Except Fault Noun
  | .atom 0 => .ok yes
  | .atom 1 => .ok no
  | .atom _ => .error .splitAtom
  | .cell _ _ => .error .bumpCell

variable {c d f test : Noun} {bound larger : Nat}

/-! ## What is picked -/

lemma select_eq_ok (h : select c d test = .ok f) :
    test = .atom 0 ∧ f = c ∨ test = .atom 1 ∧ f = d := by
  unfold select at h
  split at h
  · exact Or.inl ⟨rfl, (Except.ok.inj h).symm⟩
  · exact Or.inr ⟨rfl, (Except.ok.inj h).symm⟩
  · cases h
  · cases h

/-- Any other test selects nothing. -/
lemma select_eq_error (h0 : test ≠ .atom 0) (h1 : test ≠ .atom 1) :
    select c d test = .error (if test.isCell then .bumpCell else .splitAtom) := by
  unfold select
  split
  · exact absurd rfl h0
  · exact absurd rfl h1
  · rfl
  · rfl

/-- In a cell of two atoms there is nothing behind two turns. -/
lemma slot_atoms_eq_error {x : Int} (hx : 4 ≤ x) (hbound : bitLength x ≤ bound) (p q : Int) :
    Noun.slot bound x (.cell (.atom p) (.atom q)) = .error .splitAtom := by
  rw [Noun.slot, slot_eq_walk _ (by omega) hbound, reached_eq_error, Option.eq_none_iff_forall_ne_some]
  intro part hpart
  -- two turns need more height than there is
  have hheight := height_of_walk hpart
  have hturns := turns_half (by omega : 1 < x)
  have hturns' := turns_half (by omega : 1 < x / 2)
  rw [hturns, hturns', List.length_append, List.length_append] at hheight
  simp only [height, List.length_singleton] at hheight
  omega

/-- With room for the axis that the test becomes, what is picked is what is selected. -/
lemma eventually_pick (htest : test.Natural) (c d : Noun) :
    ∀ᶠ bound in atTop, pick bound c d test = select c d test := by
  cases test with
  | cell hd tl => exact .of_forall fun _ => rfl
  | atom n =>
      by_cases hlarge : 2 ≤ n
      · -- the axis goes through one of the two atoms
        filter_upwards [eventually_ge_atTop (bitLength (n + 1 + 1))] with bound hbound
        have hnone := slot_atoms_eq_error (by omega) hbound 2 3
        have hselect : select c d (.atom n) = .error .splitAtom :=
          select_eq_error (by simp; omega) (by simp; omega)
        simp [pick, hnone, hselect]
      · have hn : 0 ≤ n := htest
        filter_upwards [eventually_ge_atTop 2] with bound hbound
        obtain ⟨bound, rfl⟩ : ∃ k, bound = k + 2 := ⟨bound - 2, by omega⟩
        obtain rfl | rfl : n = 0 ∨ n = 1 := by omega
        · rfl
        · rfl

lemma pick_approximates (h : bound ≤ larger) (c d test : Noun) :
    Approximates (pick bound c d test) (pick larger c d test) := by
  refine (Approximates.refl _).bind fun once => (Approximates.refl _).bind fun twice => ?_
  exact (slotAt_approximates h _ _).bind fun choice => slotAt_approximates h _ _

/-- What is picked is what is selected, unless the bound is met. -/
lemma pick_approximates_select (htest : test.Natural) (bound : Nat) (c d : Noun) :
    Approximates (pick bound c d test) (select c d test) := by
  obtain ⟨larger, hlarger, hpick⟩ :=
    ((eventually_ge_atTop bound).and (eventually_pick htest c d)).exists
  rw [← hpick]
  exact pick_approximates hlarger c d test

end Noun

open Noun

variable {a b c d f test : Noun} {bound least : Nat}

/-! ## One line for the rule -/

lemma nock_slot (bound : Nat) (a axis : Noun) :
    Noun.nock (bound + 1) a (formula 0 axis) = slotAt bound axis a := rfl

lemma nock_bump (bound : Nat) (a b : Noun) :
    Noun.nock (bound + 1) a (formula 4 b) = Noun.nock bound a b >>= bump := rfl

lemma applyRule_branch (bound : Nat) (run : Noun → Noun → Except Fault Noun) (a b c d : Noun) :
    applyRule bound run a 6 (.cell b (.cell c d))
      = run a (formula 4 (formula 4 b)) >>= fun twice =>
          run (.cell (.atom 2) (.atom 3)) (formula 0 twice) >>= fun choice =>
            run (.cell c d) (formula 0 choice) >>= run a := rfl

/-- The test is evaluated, a branch is picked, and that branch is evaluated. -/
lemma nock_branch (bound : Nat) (a b c d : Noun) :
    Noun.nock (bound + 4) a (branch b c d)
      = Noun.nock (bound + 1) a b >>= fun test =>
          pick (bound + 2) c d test >>= Noun.nock (bound + 3) a := by
  rw [nock_formula, applyRule_branch, nock_bump, nock_bump, bind_assoc, bind_assoc]
  simp only [pick, bind_assoc]
  refine bind_congr fun test => bind_congr fun once => bind_congr fun twice => ?_
  rw [nock_slot]
  refine bind_congr fun choice => ?_
  rw [nock_slot]

/-- Below that, the bound is met before the test has a result. -/
lemma nock_branch_tooDeep (hbound : bound < 4) (a b c d : Noun) :
    Noun.nock bound a (branch b c d) = .error .tooDeep := by
  obtain rfl | rfl | rfl | rfl : bound = 0 ∨ bound = 1 ∨ bound = 2 ∨ bound = 3 := by omega
  all_goals rfl

/-- Under any bound, a test whose result is known has that result or meets the bound. -/
lemma nock_eq_or_tooDeep (htest : Noun.nock least a b = .ok test) (bound : Nat) :
    Noun.nock bound a b = .error .tooDeep ∨ Noun.nock bound a b = .ok test := by
  have hlarger := (nock_approximates (Nat.le_max_left least bound) a b).eq_ok htest
  rw [← hlarger]
  exact nock_approximates (Nat.le_max_right least bound) a b

/-! ## A test that selects a branch -/

/-- A test that selects a branch leads to it, under every bound. -/
lemma branch_of_selected (htest : Noun.nock least a b = .ok test) (hselect : select c d test = .ok f)
    (bound : Nat) :
    Noun.nock (bound + 4) a (branch b c d)
      = Noun.nock (bound + 1) a b >>= fun _ => Noun.nock (bound + 3) a f := by
  rw [nock_branch]
  rcases nock_eq_or_tooDeep htest (bound + 1) with h | h
  · rw [h, error_bind, error_bind]
  · have hpick : pick (bound + 2) c d test = .ok f := by
      obtain ⟨rfl, rfl⟩ | ⟨rfl, rfl⟩ := select_eq_ok hselect
      · rfl
      · rfl
    rw [h, ok_bind, ok_bind, hpick, ok_bind]

/-- The evaluation goes on as that of the branch, be it to a result, to a failure or forever. -/
lemma branch_eq_selected (htest : Noun.nock least a b = .ok test)
    (hselect : select c d test = .ok f) (hbound : least + 2 ≤ bound) :
    Noun.nock (bound + 1) a (branch b c d) = Noun.nock bound a f := by
  have hleast : least ≠ 0 := by
    rintro rfl
    cases htest
  obtain ⟨bound, rfl⟩ : ∃ k, bound = k + 3 := ⟨bound - 3, by omega⟩
  rw [branch_of_selected htest hselect,
    (nock_approximates (by omega : least ≤ bound + 1) a b).eq_ok htest, ok_bind]

/-- Two formulas whose tests select the same branch cannot be told apart. -/
lemma branch_congr {c' d' : Noun} (htest : Noun.nock least a b = .ok test)
    (hselect : select c d test = .ok f) (hselect' : select c' d' test = .ok f) (bound : Nat) :
    Noun.nock bound a (branch b c d) = Noun.nock bound a (branch b c' d') := by
  by_cases hbound : bound < 4
  · rw [nock_branch_tooDeep hbound, nock_branch_tooDeep hbound]
  · obtain ⟨bound, rfl⟩ : ∃ k, bound = k + 4 := ⟨bound - 4, by omega⟩
    rw [branch_of_selected htest hselect, branch_of_selected htest hselect']

/-- What the selected branch finds is found. -/
lemma exists_branch_of_selected {r : Noun} (htest : Noun.nock least a b = .ok test)
    (hselect : select c d test = .ok f) (hr : Noun.nock bound a f = .ok r) :
    ∃ bound, Noun.nock bound a (branch b c d) = .ok r := by
  refine ⟨max (least + 2) bound + 1, ?_⟩
  rw [branch_eq_selected htest hselect (Nat.le_max_left _ _)]
  exact (nock_approximates (Nat.le_max_right _ _) a f).eq_ok hr

/-- Whatever is found was found by a branch that the test selects. -/
lemma selected_of_branch {r : Noun} (ha : a.Natural) (hb : b.Natural)
    (h : Noun.nock bound a (branch b c d) = .ok r) :
    ∃ bound test f, Noun.nock bound a b = .ok test ∧ select c d test = .ok f ∧
      ∃ bound, Noun.nock bound a f = .ok r := by
  by_cases hbound : bound < 4
  · rw [nock_branch_tooDeep hbound] at h
    cases h
  · obtain ⟨bound, rfl⟩ : ∃ k, bound = k + 4 := ⟨bound - 4, by omega⟩
    rw [nock_branch, bind_eq_ok] at h
    obtain ⟨test, htest, h⟩ := h
    rw [bind_eq_ok] at h
    obtain ⟨f, hpick, hr⟩ := h
    have hnatural := Natural.of_reduces (reduces_of_nock _ htest) ha hb
    have hselect := (pick_approximates_select hnatural _ c d).eq_ok hpick
    exact ⟨_, test, f, htest, hselect, _, hr⟩

/-! ## A test that selects nothing -/

/-- A test that selects no branch fails under every bound. -/
lemma branch_of_refused {fault : Fault} (htest : Noun.nock least a b = .ok test)
    (hnatural : test.Natural) (hselect : select c d test = .error fault) (bound : Nat) :
    Approximates (Noun.nock bound a (branch b c d)) (.error fault) := by
  by_cases hbound : bound < 4
  · rw [nock_branch_tooDeep hbound]
    exact Approximates.tooDeep _
  · obtain ⟨bound, rfl⟩ : ∃ k, bound = k + 4 := ⟨bound - 4, by omega⟩
    rw [nock_branch]
    rcases nock_eq_or_tooDeep htest (bound + 1) with h | h
    · rw [h, error_bind]
      exact Approximates.tooDeep _
    · rw [h, ok_bind]
      have hpick := pick_approximates_select hnatural (bound + 2) c d
      rw [hselect] at hpick
      exact hpick.bind (g := Noun.nock (bound + 3) a) fun _ => Approximates.refl _

/-- From some bound on, the failure is that of the selection. -/
lemma eventually_branch_of_refused {fault : Fault} (htest : Noun.nock least a b = .ok test)
    (hnatural : test.Natural) (hselect : select c d test = .error fault) :
    ∀ᶠ bound in atTop, Noun.nock bound a (branch b c d) = .error fault := by
  obtain ⟨room, hpick⟩ := eventually_atTop.mp (eventually_pick hnatural c d)
  refine eventually_atTop.mpr ⟨max room least + 4, fun bound hbound => ?_⟩
  obtain ⟨bound, rfl⟩ : ∃ k, bound = k + 4 := ⟨bound - 4, by omega⟩
  rw [nock_branch, (nock_approximates (by omega : least ≤ bound + 1) a b).eq_ok htest, ok_bind,
    hpick (bound + 2) (by omega), hselect, error_bind]

/-- A test that fails, or never ends, is all there is. -/
lemma eventually_branch_of_error {fault : Fault}
    (htest : ∀ᶠ bound in atTop, Noun.nock bound a b = .error fault) (c d : Noun) :
    ∀ᶠ bound in atTop, Noun.nock bound a (branch b c d) = .error fault := by
  obtain ⟨least, htest⟩ := eventually_atTop.mp htest
  refine eventually_atTop.mpr ⟨least + 4, fun bound hbound => ?_⟩
  obtain ⟨bound, rfl⟩ : ∃ k, bound = k + 4 := ⟨bound - 4, by omega⟩
  rw [nock_branch, htest (bound + 1) (by omega), error_bind]

/-- **Branching.**  With natural atoms, `[6 b c d]` has the result `r` exactly if `b` has the result 0
and `c` the result `r`, or `b` has the result 1 and `d` the result `r`; and then under every larger
bound.  Once the test is settled, evaluating the formula is evaluating the selected branch, and under
no bound does it matter what the other one is.  A test with any other result makes the formula fail
under every bound, and with `fail: cell` or `fail: atom` from some bound on.  A test that fails or
never ends makes the formula fail alike.  Held nouns are evaluated like plain ones. -/
theorem branch_selects (ha : a.Natural) (hb : b.Natural) (c d : Noun) :
    (∀ r, (∃ bound, Noun.nock bound a (branch b c d) = .ok r) ↔
      ((∃ bound, Noun.nock bound a b = .ok (.atom 0)) ∧ ∃ bound, Noun.nock bound a c = .ok r) ∨
      ((∃ bound, Noun.nock bound a b = .ok (.atom 1)) ∧ ∃ bound, Noun.nock bound a d = .ok r)) ∧
    (∀ r bound larger, bound ≤ larger → Noun.nock bound a (branch b c d) = .ok r →
      Noun.nock larger a (branch b c d) = .ok r) ∧
    (∀ least, Noun.nock least a b = .ok (.atom 0) →
      (∀ bound, least + 2 ≤ bound → Noun.nock (bound + 1) a (branch b c d) = Noun.nock bound a c) ∧
      ∀ bound d', Noun.nock bound a (branch b c d') = Noun.nock bound a (branch b c d)) ∧
    (∀ least, Noun.nock least a b = .ok (.atom 1) →
      (∀ bound, least + 2 ≤ bound → Noun.nock (bound + 1) a (branch b c d) = Noun.nock bound a d) ∧
      ∀ bound c', Noun.nock bound a (branch b c' d) = Noun.nock bound a (branch b c d)) ∧
    (∀ least test, Noun.nock least a b = .ok test → test ≠ .atom 0 → test ≠ .atom 1 →
      (∀ bound, ∃ fault, Noun.nock bound a (branch b c d) = .error fault) ∧
      ∀ᶠ bound in atTop, Noun.nock bound a (branch b c d)
        = .error (if test.isCell then .bumpCell else .splitAtom)) ∧
    (∀ fault, (∀ᶠ bound in atTop, Noun.nock bound a b = .error fault) →
      ∀ᶠ bound in atTop, Noun.nock bound a (branch b c d) = .error fault) ∧
    ∀ (s : Store) (subject formula : Datum) (bound : Nat), s.Sound → s.noun? subject = some a →
      s.noun? formula = some (branch b c d) →
        answer (nock bound subject formula) s = (Noun.nock bound a (branch b c d)).map some := by
  refine ⟨fun r => ⟨?_, ?_⟩, fun r bound larger hle => ?_, fun least htest => ⟨?_, ?_⟩,
    fun least htest => ⟨?_, ?_⟩, fun least test htest h0 h1 => ?_,
    fun fault htest => eventually_branch_of_error htest c d,
    fun s subject formula bound hs hsubject hformula => ?_⟩
  · rintro ⟨bound, h⟩
    obtain ⟨least, test, f, htest, hselect, hr⟩ := selected_of_branch ha hb h
    obtain ⟨rfl, rfl⟩ | ⟨rfl, rfl⟩ := select_eq_ok hselect
    · exact Or.inl ⟨⟨least, htest⟩, hr⟩
    · exact Or.inr ⟨⟨least, htest⟩, hr⟩
  · rintro (⟨⟨least, htest⟩, bound, hr⟩ | ⟨⟨least, htest⟩, bound, hr⟩)
    · exact exists_branch_of_selected htest rfl hr
    · exact exists_branch_of_selected htest rfl hr
  · exact (nock_approximates hle a _).eq_ok
  · exact fun bound => branch_eq_selected htest rfl
  · exact fun bound d' => branch_congr htest rfl rfl bound
  · exact fun bound => branch_eq_selected htest rfl
  · exact fun bound c' => branch_congr htest rfl rfl bound
  · have hnatural := Natural.of_reduces (reduces_of_nock _ htest) ha hb
    have hselect := select_eq_error (c := c) (d := d) h0 h1
    refine ⟨fun bound => ?_, eventually_branch_of_refused htest hnatural hselect⟩
    rcases branch_of_refused htest hnatural hselect bound with h | h
    · exact ⟨_, h⟩
    · exact ⟨_, h⟩
  · have hfits := hs.fits
    rw [hfits.noun?_iff] at hsubject hformula
    exact (nock_refines bound hfits hsubject hformula).answer_eq

/-- The formula `[2 [0 1] 0 1]`, which evaluates its subject against itself. -/
def spin : Noun :=
  formula 2 (.cell (formula 0 (.atom 1)) (formula 0 (.atom 1)))

/-- Against itself, `spin` never ends. -/
lemma nock_spin (bound : Nat) : Noun.nock bound spin spin = .error .tooDeep := by
  induction bound with
  | zero => rfl
  | succ bound ih =>
      have hstep : Noun.nock (bound + 1) spin spin
          = Noun.nock bound spin (formula 0 (.atom 1)) >>= fun subject =>
              Noun.nock bound spin (formula 0 (.atom 1)) >>= fun code =>
                Noun.nock bound subject code := rfl
      rw [hstep]
      obtain rfl | rfl | ⟨k, rfl⟩ : bound = 0 ∨ bound = 1 ∨ ∃ k, bound = k + 2 := by
        rcases bound with _ | _ | k <;> simp
      · rfl
      · rfl
      · rw [nock_slot, slotAt_atom, slot_one, ok_bind, ok_bind, ih]

/-- A branch that never ends does no harm if it is not selected, and 2 selects neither. -/
theorem branch_selects_spin :
    (spin.Natural ∧ (∀ n : Int, 0 ≤ n → (formula 1 (.atom n)).Natural) ∧
      ∀ bound, Noun.nock bound spin spin = .error .tooDeep) ∧
    (∃ bound, Noun.nock bound spin (branch (formula 1 (.atom 0)) (formula 1 (.atom 5)) spin)
      = .ok (.atom 5)) ∧
    (∃ bound, Noun.nock bound spin (branch (formula 1 (.atom 1)) spin (formula 1 (.atom 5)))
      = .ok (.atom 5)) ∧
    ∀ᶠ bound in atTop, Noun.nock bound spin (branch (formula 1 (.atom 2)) spin spin)
      = .error .splitAtom := by
  have hspin : spin.Natural := by decide
  have hconst : ∀ n : Int, 0 ≤ n → (formula 1 (.atom n)).Natural := fun n hn => ⟨by decide, hn⟩
  obtain ⟨hzero, -⟩ := branch_selects hspin (hconst 0 (by decide)) (formula 1 (.atom 5)) spin
  obtain ⟨hone, -⟩ := branch_selects hspin (hconst 1 (by decide)) spin (formula 1 (.atom 5))
  obtain ⟨-, -, -, -, hother, -⟩ := branch_selects hspin (hconst 2 (by decide)) spin spin
  refine ⟨⟨hspin, hconst, nock_spin⟩, ?_, ?_, ?_⟩
  · exact (hzero _).mpr (Or.inl ⟨⟨1, rfl⟩, 1, rfl⟩)
  · exact (hone _).mpr (Or.inr ⟨⟨1, rfl⟩, 1, rfl⟩)
  · exact (hother 1 (.atom 2) rfl (by decide) (by decide)).2

end Nock
