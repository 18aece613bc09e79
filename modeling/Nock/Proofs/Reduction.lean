import Mathlib.Order.Filter.AtTopBot.Basic
import Nock.Machine
import Nock.Proofs.Axis

/-!
# The reduction rules

The rules of the machine as relations, each written down on its own and none of them through the
functions that compute it.  There is one relation for every operator:

* `Reduction.Test` is `?`, `Reduction.Bump` is `+`, `Reduction.Same` is `=`, `Reduction.Slot` is `/`
  and `Reduction.Edit` is `#`;
* `Reduces a f r` is `*[a f] = r`.

A rule that only repeats its left side (`+[a b]`, `/a`, `#a`, `*a`) derives nothing, so it has no
constructor.

**Soundness** (`reduces_of_nock`) goes by the bound: whatever is found under a bound is derived.
**Completeness** (`eventually_nock_of_reduces`) goes by the derivation: what the premises find is found under
every large enough bound, hence under a common one.  A larger bound changes nothing that was found
and no failure but that of the bound (`nock_approximates`).
-/

namespace Nock

open Memory

/-- The formula of an opcode and its argument. -/
abbrev Noun.formula (opcode : Int) (arg : Noun) : Noun :=
  .cell (.atom opcode) arg

namespace Reduction

/-- `?n = r`. -/
inductive Test : (n r : Noun) → Prop
  /-- `?[a b]` is `0`. -/
  | cell (a b : Noun) : Test (.cell a b) (.atom 0)
  /-- `?a` is `1`. -/
  | atom (a : Int) : Test (.atom a) (.atom 1)

/-- `+n = r`. -/
inductive Bump : (n r : Noun) → Prop
  /-- `+a` is `1 + a`. -/
  | atom (a : Int) : Bump (.atom a) (.atom (1 + a))

/-- `=[a b] = r`. -/
inductive Same : (a b r : Noun) → Prop
  /-- `=[a a]` is `0`. -/
  | same (a : Noun) : Same a a (.atom 0)
  /-- `=[a b]` is `1`. -/
  | differ {a b : Noun} (h : a ≠ b) : Same a b (.atom 1)

/-- `/[x n] = r`. -/
inductive Slot : (x : Int) → (n r : Noun) → Prop
  /-- `/[1 a]` is `a`. -/
  | whole (a : Noun) : Slot 1 a a
  /-- `/[2 a b]` is `a`. -/
  | head (a b : Noun) : Slot 2 (.cell a b) a
  /-- `/[3 a b]` is `b`. -/
  | tail (a b : Noun) : Slot 3 (.cell a b) b
  /-- `/[(a + a) b]` is `/[2 /[a b]]`. -/
  | even {a : Int} {b c r : Noun} (inner : Slot a b c) (outer : Slot 2 c r) : Slot (a + a) b r
  /-- `/[(a + a + 1) b]` is `/[3 /[a b]]`. -/
  | odd {a : Int} {b c r : Noun} (inner : Slot a b c) (outer : Slot 3 c r) : Slot (a + a + 1) b r

/-- `#[x part n] = r`. -/
inductive Edit : (x : Int) → (part n r : Noun) → Prop
  /-- `#[1 a b]` is `a`. -/
  | whole (a b : Noun) : Edit 1 a b a
  /-- `#[(a + a) b c]` is `#[a [b /[(a + a + 1) c]] c]`. -/
  | even {a : Int} {b c sibling r : Noun} (beside : Slot (a + a + 1) c sibling)
      (above : Edit a (.cell b sibling) c r) : Edit (a + a) b c r
  /-- `#[(a + a + 1) b c]` is `#[a [/[(a + a) c] b] c]`. -/
  | odd {a : Int} {b c sibling r : Noun} (beside : Slot (a + a) c sibling)
      (above : Edit a (.cell sibling b) c r) : Edit (a + a + 1) b c r

end Reduction

open Reduction Noun Filter

/-- `*[a f] = r`. -/
inductive Reduces : (a f r : Noun) → Prop
  /-- `*[a [b c] d]` is `[*[a b c] *[a d]]`. -/
  | pair {a b c d l r : Noun} (left : Reduces a (.cell b c) l) (right : Reduces a d r) :
      Reduces a (.cell (.cell b c) d) (.cell l r)
  /-- `*[a 0 b]` is `/[b a]`. -/
  | slot {a : Noun} {b : Int} {r : Noun} (h : Slot b a r) : Reduces a (formula 0 (.atom b)) r
  /-- `*[a 1 b]` is `b`. -/
  | const (a b : Noun) : Reduces a (formula 1 b) b
  /-- `*[a 2 b c]` is `*[*[a b] *[a c]]`. -/
  | apply {a b c s f r : Noun} (subject : Reduces a b s) (code : Reduces a c f)
      (rest : Reduces s f r) : Reduces a (formula 2 (.cell b c)) r
  /-- `*[a 3 b]` is `?*[a b]`. -/
  | test {a b n r : Noun} (arg : Reduces a b n) (h : Test n r) : Reduces a (formula 3 b) r
  /-- `*[a 4 b]` is `+*[a b]`. -/
  | bump {a b n r : Noun} (arg : Reduces a b n) (h : Bump n r) : Reduces a (formula 4 b) r
  /-- `*[a 5 b c]` is `=[*[a b] *[a c]]`. -/
  | same {a b c m n r : Noun} (left : Reduces a b m) (right : Reduces a c n) (h : Same m n r) :
      Reduces a (formula 5 (.cell b c)) r
  /-- `*[a 6 b c d]` is `*[a *[[c d] 0 *[[2 3] 0 *[a 4 4 b]]]]`. -/
  | branch {a b c d twice choice f r : Noun} (test : Reduces a (formula 4 (formula 4 b)) twice)
      (choose : Reduces (.cell (.atom 2) (.atom 3)) (formula 0 twice) choice)
      (pick : Reduces (.cell c d) (formula 0 choice) f) (rest : Reduces a f r) :
      Reduces a (formula 6 (.cell b (.cell c d))) r
  /-- `*[a 7 b c]` is `*[*[a b] c]`. -/
  | compose {a b c s r : Noun} (subject : Reduces a b s) (rest : Reduces s c r) :
      Reduces a (formula 7 (.cell b c)) r
  /-- `*[a 8 b c]` is `*[[*[a b] a] c]`. -/
  | push {a b c n r : Noun} (pinned : Reduces a b n) (rest : Reduces (.cell n a) c r) :
      Reduces a (formula 8 (.cell b c)) r
  /-- `*[a 9 b c]` is `*[*[a c] 2 [0 1] 0 b]`. -/
  | call {a b c core r : Noun} (subject : Reduces a c core)
      (rest : Reduces core (formula 2 (.cell (formula 0 (.atom 1)) (formula 0 b))) r) :
      Reduces a (formula 9 (.cell b c)) r
  /-- `*[a 10 [b c] d]` is `#[b *[a c] *[a d]]`. -/
  | edit {a c d m n r : Noun} {b : Int} (part : Reduces a c m) (whole : Reduces a d n)
      (h : Edit b m n r) : Reduces a (formula 10 (.cell (.cell (.atom b) c) d)) r
  /-- `*[a 11 [b c] d]` is `*[[*[a c] *[a d]] 0 3]`. -/
  | hint {a b c d m n r : Noun} (clue : Reduces a c m) (result : Reduces a d n)
      (rest : Reduces (.cell m n) (formula 0 (.atom 3)) r) :
      Reduces a (formula 11 (.cell (.cell b c) d)) r
  /-- `*[a 11 b c]` is `*[a c]`. -/
  | tag {a c r : Noun} (b : Int) (result : Reduces a c r) :
      Reduces a (formula 11 (.cell (.atom b) c)) r

/-! ## The operators -/

lemma head_eq_ok {n r : Noun} :
    (head n : Except Fault Noun) = .ok r ↔ ∃ t, n = .cell r t := by
  cases n with
  | atom k => simp [head]
  | cell h t => simp [head]

lemma tail_eq_ok {n r : Noun} :
    (tail n : Except Fault Noun) = .ok r ↔ ∃ h, n = .cell h r := by
  cases n with
  | atom k => simp [tail]
  | cell h t => simp [tail]

/-- Whatever a lookup finds is derived. -/
lemma Reduction.slot_of_ok : ∀ (bound : Nat) {x : Int} {n r : Noun},
    slot bound x n = (.ok r : Except Fault Noun) → Slot x n r
  | 0, _, _, _, h => by cases h
  | bound + 1, x, n, r, h => by
      by_cases h0 : x = 0
      · subst h0; cases h
      by_cases h1 : x = 1
      · subst h1; cases h; exact .whole n
      rw [slot_succ h0 h1, bind_eq_ok] at h
      obtain ⟨part, hpart, hside⟩ := h
      have inner := slot_of_ok bound hpart
      by_cases hx : x % 2 = 0
      · obtain ⟨a, rfl⟩ : ∃ a, x = a + a := ⟨x / 2, by omega⟩
        rw [side_even, head_eq_ok] at hside
        obtain ⟨t, rfl⟩ := hside
        rw [show (a + a) / 2 = a by omega] at inner
        exact .even inner (.head _ _)
      · obtain ⟨a, rfl⟩ : ∃ a, x = a + a + 1 := ⟨x / 2, by omega⟩
        rw [side_odd, tail_eq_ok] at hside
        obtain ⟨t, rfl⟩ := hside
        rw [show (a + a + 1) / 2 = a by omega] at inner
        exact .odd inner (.tail _ _)

lemma Reduction.edit_of_ok : ∀ (bound : Nat) {x : Int} {part n r : Noun},
    edit bound x part n = (.ok r : Except Fault Noun) → Edit x part n r
  | 0, _, _, _, _, h => by cases h
  | bound + 1, x, part, n, r, h => by
      by_cases h1 : x = 1
      · subst h1; cases h; exact .whole part n
      by_cases hx : x % 2 = 0
      · obtain ⟨a, rfl⟩ : ∃ a, x = a + a := ⟨x / 2, by omega⟩
        rw [edit_even hx, bind_eq_ok, show (a + a) / 2 = a by omega] at h
        obtain ⟨sibling, hsibling, hrest⟩ := h
        exact .even (slot_of_ok bound hsibling) (edit_of_ok bound hrest)
      · obtain ⟨a, rfl⟩ : ∃ a, x = a + a + 1 := ⟨x / 2, by omega⟩
        rw [edit_odd hx h1, bind_eq_ok, show (a + a + 1) / 2 = a by omega,
          show a + a + 1 - 1 = a + a by omega] at h
        obtain ⟨sibling, hsibling, hrest⟩ := h
        exact .odd (slot_of_ok bound hsibling) (edit_of_ok bound hrest)

lemma axis_ne_zero_of_ok {bound : Nat} {x : Int} {n r : Noun}
    (h : slot bound x n = (.ok r : Except Fault Noun)) : x ≠ 0 := by
  rintro rfl
  cases bound with
  | zero => cases h
  | succ _ => cases h

/-- Every part that is derived is found. -/
lemma Reduction.Slot.exists_ok {x : Int} {n r : Noun} (h : Slot x n r) :
    ∃ bound, slot bound x n = (.ok r : Except Fault Noun) := by
  induction h with
  | whole a => exact ⟨1, rfl⟩
  | head a b => exact ⟨2, rfl⟩
  | tail a b => exact ⟨2, rfl⟩
  | @even a b c r _ _ inner outer =>
      obtain ⟨bound, hc⟩ := inner
      obtain ⟨bound', hr⟩ := outer
      have ha := axis_ne_zero_of_ok hc
      have hside : side (a + a) c = .ok r := by
        rw [side_even]
        exact (slot_approximates c (show bound' ≤ bound' + 2 by omega) 2).eq_ok hr
      refine ⟨bound + 1, ?_⟩
      rw [slot_succ (by omega) (by omega), show (a + a) / 2 = a by omega, hc]
      exact hside
  | @odd a b c r _ _ inner outer =>
      obtain ⟨bound, hc⟩ := inner
      obtain ⟨bound', hr⟩ := outer
      have ha := axis_ne_zero_of_ok hc
      have hside : side (a + a + 1) c = .ok r := by
        rw [side_odd]
        exact (slot_approximates c (show bound' ≤ bound' + 2 by omega) 3).eq_ok hr
      refine ⟨bound + 1, ?_⟩
      rw [slot_succ (by omega) (by omega), show (a + a + 1) / 2 = a by omega, hc]
      exact hside

/-- A derived part is found under every large enough bound. -/
lemma Reduction.Slot.eventually_ok {x : Int} {n r : Noun} (h : Slot x n r) :
    ∀ᶠ bound in atTop, slot bound x n = (.ok r : Except Fault Noun) := by
  obtain ⟨bound, hr⟩ := h.exists_ok
  exact eventually_atTop.mpr ⟨bound, fun larger hl => (slot_approximates n hl x).eq_ok hr⟩

lemma Reduction.Edit.exists_ok {x : Int} {part n r : Noun} (h : Edit x part n r) :
    ∃ bound, edit bound x part n = (.ok r : Except Fault Noun) := by
  induction h with
  | whole a b => exact ⟨1, rfl⟩
  | @even a b c sibling r beside _ above =>
      obtain ⟨bound, hs⟩ := beside.exists_ok
      obtain ⟨bound', hr⟩ := above
      have hs' := (slot_approximates c (Nat.le_max_left bound bound') _).eq_ok hs
      have hr' := (edit_approximates c (Nat.le_max_right bound bound') _ _).eq_ok hr
      refine ⟨max bound bound' + 1, ?_⟩
      rw [edit_even (by omega), hs', ok_bind, show (a + a) / 2 = a by omega, hr']
  | @odd a b c sibling r beside _ above =>
      obtain ⟨bound, hs⟩ := beside.exists_ok
      obtain ⟨bound', hr⟩ := above
      have ha := axis_ne_zero_of_ok hs
      have hs' := (slot_approximates c (Nat.le_max_left bound bound') _).eq_ok hs
      have hr' := (edit_approximates c (Nat.le_max_right bound bound') _ _).eq_ok hr
      refine ⟨max bound bound' + 1, ?_⟩
      rw [edit_odd (by omega) (by omega), show a + a + 1 - 1 = a + a by omega, hs', ok_bind,
        show (a + a + 1) / 2 = a by omega, hr']

lemma Reduction.Edit.eventually_ok {x : Int} {part n r : Noun} (h : Edit x part n r) :
    ∀ᶠ bound in atTop, edit bound x part n = (.ok r : Except Fault Noun) := by
  obtain ⟨bound, hr⟩ := h.exists_ok
  exact eventually_atTop.mpr ⟨bound, fun larger hl => (edit_approximates n hl x part).eq_ok hr⟩

/-! ## Larger bounds -/

/-- The rule of an opcode gives the same under a larger bound, unless the smaller one was met. -/
lemma applyRule_approximates {bound larger : Nat} (h : bound ≤ larger)
    {run run' : Noun → Noun → Except Fault Noun} (hrun : ∀ a f, Approximates (run a f) (run' a f))
    (a : Noun) (opcode : Int) (arg : Noun) :
    Approximates (applyRule bound run a opcode arg) (applyRule larger run' a opcode arg) := by
  have split_bind : ∀ (n : Noun) {f g : Noun × Noun → Except Fault Noun},
      (∀ p, Approximates (f p) (g p)) → Approximates (split n >>= f) (split n >>= g) :=
    fun n _ _ hfg => (Approximates.refl _).bind hfg
  simp only [applyRule]
  split
  · exact slotAt_approximates h _ _
  · exact Approximates.refl _
  · exact split_bind _ fun _ => (hrun _ _).bind fun _ => (hrun _ _).bind fun _ => hrun _ _
  · exact (hrun _ _).bind fun _ => Approximates.refl _
  · exact (hrun _ _).bind fun _ => Approximates.refl _
  · exact split_bind _ fun _ => (hrun _ _).bind fun _ => (hrun _ _).bind fun _ =>
      Approximates.refl _
  · exact split_bind _ fun _ => split_bind _ fun _ => (hrun _ _).bind fun _ =>
      (hrun _ _).bind fun _ => (hrun _ _).bind fun _ => hrun _ _
  · exact split_bind _ fun _ => (hrun _ _).bind fun _ => hrun _ _
  · exact split_bind _ fun _ => (hrun _ _).bind fun _ => hrun _ _
  · exact split_bind _ fun _ => (hrun _ _).bind fun _ => hrun _ _
  · refine split_bind _ fun p => ?_
    cases p.1 with
    | atom _ => exact Approximates.refl _
    | cell _ _ =>
        exact (hrun _ _).bind fun _ => (hrun _ _).bind fun _ => editAt_approximates h _ _ _
  · refine split_bind _ fun p => ?_
    cases p.1 with
    | atom _ => exact hrun _ _
    | cell _ _ => exact (hrun _ _).bind fun _ => (hrun _ _).bind fun _ => hrun _ _
  · exact Approximates.refl _

/-- An evaluation gives the same under a larger bound, unless it met the smaller one. -/
theorem nock_approximates : ∀ {bound larger : Nat}, bound ≤ larger → ∀ a f : Noun,
    Approximates (Noun.nock bound a f) (Noun.nock larger a f)
  | 0, _, _, _, _ => Approximates.tooDeep _
  | bound + 1, 0, h, _, _ => absurd h (by omega)
  | bound + 1, larger + 1, h, a, f => by
      have ih : ∀ a f, Approximates (Noun.nock bound a f) (Noun.nock larger a f) :=
        nock_approximates (by omega)
      cases f with
      | atom _ => exact Approximates.refl _
      | cell op arg =>
          cases op with
          | atom opcode => exact applyRule_approximates (by omega) ih a opcode arg
          | cell _ _ => exact (ih _ _).bind fun _ => (ih _ _).bind fun _ => Approximates.refl _

/-! ## Soundness -/

/-- The rule of an opcode derives what it gives, if evaluations inside it do. -/
lemma reduces_of_applyRule {bound : Nat} {run : Noun → Noun → Except Fault Noun}
    (hrun : ∀ {a f r}, run a f = .ok r → Reduces a f r) {a : Noun} {opcode : Int} {arg r : Noun}
    (h : applyRule bound run a opcode arg = .ok r) : Reduces a (formula opcode arg) r := by
  simp only [applyRule] at h
  split at h
  · cases arg with
    | atom x => exact .slot (slot_of_ok bound h)
    | cell _ _ => cases h
  · cases h; exact .const a _
  · cases arg with
    | atom _ => cases h
    | cell b c =>
        simp only [split_cell, ok_bind, bind_eq_ok] at h
        obtain ⟨s, hs, f, hf, hr⟩ := h
        exact .apply (hrun hs) (hrun hf) (hrun hr)
  · simp only [isCell_plain, ok_bind, bind_eq_ok] at h
    obtain ⟨n, hn, hr⟩ := h
    cases hr
    cases n with
    | atom x => exact .test (hrun hn) (.atom x)
    | cell p q => exact .test (hrun hn) (.cell p q)
  · rw [bind_eq_ok] at h
    obtain ⟨n, hn, hr⟩ := h
    cases n with
    | atom x =>
        cases hr
        rw [Int.add_comm]
        exact .bump (hrun hn) (.atom x)
    | cell _ _ => cases hr
  · cases arg with
    | atom _ => cases h
    | cell b c =>
        simp only [split_cell, equal_plain, ok_bind, bind_eq_ok] at h
        obtain ⟨m, hm, n, hn, hr⟩ := h
        cases hr
        by_cases hmn : m = n
        · subst hmn; simpa using Reduces.same (hrun hm) (hrun hn) (.same m)
        · simpa [hmn] using Reduces.same (hrun hm) (hrun hn) (.differ hmn)
  · cases arg with
    | atom _ => cases h
    | cell b branches =>
        cases branches with
        | atom _ => cases h
        | cell c d =>
            simp only [split_cell, cell_plain, atom_plain, ok_bind, bind_eq_ok] at h
            obtain ⟨twice, htwice, choice, hchoice, f, hf, hr⟩ := h
            exact .branch (hrun htwice) (hrun hchoice) (hrun hf) (hrun hr)
  · cases arg with
    | atom _ => cases h
    | cell b c =>
        simp only [split_cell, ok_bind, bind_eq_ok] at h
        obtain ⟨s, hs, hr⟩ := h
        exact .compose (hrun hs) (hrun hr)
  · cases arg with
    | atom _ => cases h
    | cell b c =>
        simp only [split_cell, cell_plain, ok_bind, bind_eq_ok] at h
        obtain ⟨n, hn, hr⟩ := h
        exact .push (hrun hn) (hrun hr)
  · cases arg with
    | atom _ => cases h
    | cell b c =>
        simp only [split_cell, copy_plain, cell_plain, atom_plain, ok_bind, bind_eq_ok] at h
        obtain ⟨core, hcore, hr⟩ := h
        exact .call (hrun hcore) (hrun hr)
  · cases arg with
    | atom _ => cases h
    | cell target d =>
        cases target with
        | atom _ => cases h
        | cell axis c =>
            simp only [split_cell, look_cell, ok_bind, bind_eq_ok] at h
            obtain ⟨m, hm, n, hn, hr⟩ := h
            cases axis with
            | atom b => exact .edit (hrun hm) (hrun hn) (edit_of_ok bound hr)
            | cell _ _ => cases hr
  · cases arg with
    | atom _ => cases h
    | cell target d =>
        cases target with
        | atom b => exact .tag b (hrun h)
        | cell b c =>
            simp only [split_cell, look_cell, cell_plain, atom_plain, ok_bind, bind_eq_ok] at h
            obtain ⟨m, hm, n, hn, hr⟩ := h
            exact .hint (hrun hm) (hrun hn) (hrun hr)
  · cases h

/-- Whatever is found under a bound is derived. -/
lemma reduces_of_nock : ∀ (bound : Nat) {a f r : Noun}, Noun.nock bound a f = .ok r → Reduces a f r
  | 0, _, _, _, h => by cases h
  | bound + 1, a, f, r, h => by
      cases f with
      | atom _ => cases h
      | cell op arg =>
          cases op with
          | atom opcode => exact reduces_of_applyRule (reduces_of_nock bound) h
          | cell b c =>
              simp only [nock, settle_plain, look_cell, cell_plain, ok_bind, bind_eq_ok] at h
              obtain ⟨left, hleft, right, hright, hr⟩ := h
              cases hr
              exact .pair (reduces_of_nock bound hleft) (reduces_of_nock bound hright)

/-! ## Completeness -/

/-- The evaluation of an opcode is its rule, one level further down. -/
lemma nock_formula (bound : Nat) (a arg : Noun) (opcode : Int) :
    Noun.nock (bound + 1) a (formula opcode arg)
      = applyRule bound (Noun.nock bound) a opcode arg := rfl

lemma nock_pair (bound : Nat) (a b c d : Noun) :
    Noun.nock (bound + 1) a (.cell (.cell b c) d)
      = Noun.nock bound a (.cell b c) >>= fun l =>
          Noun.nock bound a d >>= fun r => .ok (.cell l r) := rfl

/-- One level of nesting more or less does not matter from some bound on. -/
lemma eventually_nock_of_succ {a f r : Noun}
    (h : ∀ᶠ bound in atTop, Noun.nock (bound + 1) a f = .ok r) :
    ∀ᶠ bound in atTop, Noun.nock bound a f = .ok r := by
  obtain ⟨least, h⟩ := eventually_atTop.mp h
  refine eventually_atTop.mpr ⟨least + 1, fun bound hbound => ?_⟩
  obtain ⟨bound, rfl⟩ : ∃ b, bound = b + 1 := ⟨bound - 1, by omega⟩
  exact h bound (by omega)

/-- Whatever is derived is found under every large enough bound. -/
lemma eventually_nock_of_reduces {a f r : Noun} (h : Reduces a f r) :
    ∀ᶠ bound in atTop, Noun.nock bound a f = .ok r := by
  induction h with
  | pair _ _ left right =>
      refine eventually_nock_of_succ ?_
      filter_upwards [left, right] with bound hl hr
      simp [nock_pair, hl, hr]
  | slot h =>
      refine eventually_nock_of_succ ?_
      filter_upwards [h.eventually_ok] with bound h
      simp [nock_formula, applyRule, h]
  | const a b => exact eventually_nock_of_succ (.of_forall fun _ => rfl)
  | apply _ _ _ subject code rest =>
      refine eventually_nock_of_succ ?_
      filter_upwards [subject, code, rest] with bound hs hf hr
      simp [nock_formula, applyRule, hs, hf, hr]
  | test _ h arg =>
      refine eventually_nock_of_succ ?_
      filter_upwards [arg] with bound hn
      cases h <;> simp [nock_formula, applyRule, hn, Noun.isCell]
  | bump _ h arg =>
      refine eventually_nock_of_succ ?_
      filter_upwards [arg] with bound hn
      cases h
      simp [nock_formula, applyRule, hn, Int.add_comm]
  | same _ _ h left right =>
      refine eventually_nock_of_succ ?_
      filter_upwards [left, right] with bound hl hr
      cases h with
      | same => simp [nock_formula, applyRule, hl, hr]
      | differ hne => simp [nock_formula, applyRule, hl, hr, hne]
  | branch _ _ _ _ test choose pick rest =>
      refine eventually_nock_of_succ ?_
      filter_upwards [test, choose, pick, rest] with bound ht hc hp hr
      simp [nock_formula, applyRule, ht, hc, hp, hr]
  | compose _ _ subject rest =>
      refine eventually_nock_of_succ ?_
      filter_upwards [subject, rest] with bound hs hr
      simp [nock_formula, applyRule, hs, hr]
  | push _ _ pinned rest =>
      refine eventually_nock_of_succ ?_
      filter_upwards [pinned, rest] with bound hn hr
      simp [nock_formula, applyRule, hn, hr]
  | call _ _ subject rest =>
      refine eventually_nock_of_succ ?_
      filter_upwards [subject, rest] with bound hs hr
      simp [nock_formula, applyRule, hs, hr]
  | edit _ _ h part whole =>
      refine eventually_nock_of_succ ?_
      filter_upwards [part, whole, h.eventually_ok] with bound hm hn hr
      simp [nock_formula, applyRule, hm, hn, hr]
  | hint _ _ _ clue result rest =>
      refine eventually_nock_of_succ ?_
      filter_upwards [clue, result, rest] with bound hm hn hr
      simp [nock_formula, applyRule, hm, hn, hr]
  | tag b _ result =>
      refine eventually_nock_of_succ ?_
      filter_upwards [result] with bound hr
      simp [nock_formula, applyRule, hr]

/-- Evaluation under some bound and derivation by the rules are the same thing. -/
theorem exists_nock_iff_reduces {a f r : Noun} :
    (∃ bound, Noun.nock bound a f = .ok r) ↔ Reduces a f r :=
  ⟨fun ⟨bound, h⟩ => reduces_of_nock bound h, fun h => (eventually_nock_of_reduces h).exists⟩

/-- An evaluation that derives nothing fails in one and the same way under every large enough
bound, or meets every bound. -/
theorem nock_fails_or_tooDeep {a f : Noun} (h : ¬∃ r, Reduces a f r) :
    (∀ bound, Noun.nock bound a f = .error .tooDeep) ∨
      ∃ fault, fault ≠ .tooDeep ∧ ∀ᶠ bound in atTop, Noun.nock bound a f = .error fault := by
  by_cases hdeep : ∀ bound, Noun.nock bound a f = .error .tooDeep
  · exact Or.inl hdeep
  · right
    obtain ⟨bound, hbound⟩ := not_forall.mp hdeep
    cases houtcome : Noun.nock bound a f with
    | ok r => exact absurd ⟨r, reduces_of_nock bound houtcome⟩ h
    | error fault =>
        have hfault : fault ≠ .tooDeep := by
          rintro rfl; exact hbound houtcome
        refine ⟨fault, hfault, eventually_atTop.mpr ⟨bound, fun larger hl => ?_⟩⟩
        exact (nock_approximates hl a f).eq_error hfault houtcome

end Nock
