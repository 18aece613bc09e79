import Mathlib.Logic.Function.Basic
import Nock.Proofs.Digits
import Nock.Proofs.Jam
import Nock.Proofs.Parser
import Nock.Proofs.Session
import Nock.Workload.Addressing

/-!
# Labelling the leaves of a complete tree

The leaves of the complete tree of depth `d` have the axes from `2 ^ d` to `2 ^ (d + 1) - 1`, from left
to right.  Each of them is looked up, and then each is replaced by its own axis, one edit after the
other, so that the tree in the end shows how its leaves are addressed.

`Noun.perfect` is the tree of a depth with a given noun at each leaf.  Its leaves are addressed by
number: looking up at the axis of leaf `i` gives leaf `i` (`walk_perfect`), and editing there changes
leaf `i` and no other (`graft_perfect`).  The invariant of the edits is that after `k` of them the
first `k` leaves hold their axes and the others still hold 0 (`foldlM_edit_range`).

A tree of a depth is determined by what its leaves are, from left to right (`Balanced.ext`), which is
how the outcome is described.
-/

namespace Nock

open StoreM hiding look same copy
open Store Memory

namespace Noun

/-! ## Trees with all leaves at one depth -/

/-- The atoms of the noun from left to right. -/
def leaves : Noun → List Int
  | .atom k => [k]
  | .cell h t => h.leaves ++ t.leaves

/-- All atoms of the noun are at the given depth. -/
def Balanced : Nat → Noun → Prop
  | 0, .atom _ => True
  | d + 1, .cell h t => h.Balanced d ∧ t.Balanced d
  | _, _ => False

lemma Balanced.length_leaves : ∀ {d : Nat} {n : Noun}, n.Balanced d → n.leaves.length = 2 ^ d
  | 0, .atom _, _ => rfl
  | d + 1, .cell h t, hn => by
      rw [leaves, List.length_append, hn.1.length_leaves, hn.2.length_leaves, Nat.pow_succ, Nat.mul_two]

/-- The depth and the leaves determine the tree. -/
lemma Balanced.ext : ∀ {d : Nat} {m n : Noun}, m.Balanced d → n.Balanced d → m.leaves = n.leaves →
    m = n
  | 0, .atom j, .atom k, _, _, h => by
      rw [leaves, leaves, List.singleton_inj] at h
      rw [h]
  | d + 1, .cell h t, .cell h' t', hm, hn, hleaves => by
      rw [leaves, leaves] at hleaves
      have hlength : h.leaves.length = h'.leaves.length := by
        rw [hm.1.length_leaves, hn.1.length_leaves]
      obtain ⟨hhead, htail⟩ := List.append_inj hleaves hlength
      rw [hm.1.ext hn.1 hhead, hm.2.ext hn.2 htail]

/-- The tree of the given depth with the given nouns at its leaves, numbered from left to right. -/
def perfect : (depth : Nat) → (leaf : Nat → Noun) → Noun
  | 0, leaf => leaf 0
  | d + 1, leaf => .cell (perfect d leaf) (perfect d fun i => leaf (2 ^ d + i))

variable {d i : Nat} {leaf leaf' : Nat → Noun}

lemma complete_eq_perfect (n : Noun) (d : Nat) : complete n d = perfect d fun _ => n := by
  induction d with
  | zero => rfl
  | succ d ih => rw [complete, perfect, ih]

/-- Only the leaves that are there matter. -/
lemma perfect_congr (h : ∀ i < 2 ^ d, leaf i = leaf' i) : perfect d leaf = perfect d leaf' := by
  induction d generalizing leaf leaf' with
  | zero => exact h 0 (by decide)
  | succ d ih =>
      rw [perfect, perfect, ih fun i hi => h i (by rw [Nat.pow_succ]; omega),
        ih fun i hi => h (2 ^ d + i) (by rw [Nat.pow_succ]; omega)]

lemma balanced_perfect (d : Nat) (label : Nat → Int) :
    (perfect d fun i => .atom (label i)).Balanced d := by
  induction d generalizing label with
  | zero => trivial
  | succ d ih => exact ⟨ih label, ih fun i => label (2 ^ d + i)⟩

lemma leaves_perfect (d : Nat) (label : Nat → Int) :
    (perfect d fun i => .atom (label i)).leaves = (List.range (2 ^ d)).map label := by
  induction d generalizing label with
  | zero => rfl
  | succ d ih =>
      rw [perfect, leaves, ih, ih fun i => label (2 ^ d + i), Nat.pow_succ, Nat.mul_two,
        List.range_add, List.map_append, List.map_map]
      rfl

lemma printable_perfect (h : ∀ i < 2 ^ d, (leaf i).Printable) : (perfect d leaf).Printable := by
  induction d generalizing leaf with
  | zero => exact h 0 (by decide)
  | succ d ih =>
      exact ⟨ih fun i hi => h i (by rw [Nat.pow_succ]; omega),
        ih fun i hi => h (2 ^ d + i) (by rw [Nat.pow_succ]; omega)⟩

end Noun

/-! ## The axes of the leaves -/

/-- The axis of a leaf of the tree of the given depth. -/
def leafAxis (depth i : Nat) : Int :=
  2 ^ depth + i

section

variable {d i : Nat}

lemma leafAxis_zero : leafAxis 0 0 = 1 := by decide

lemma leafAxis_bounds (hi : i < 2 ^ d) : 2 ^ d ≤ leafAxis d i ∧ leafAxis d i < 2 ^ (d + 1) := by
  have hi' : (i : Int) < 2 ^ d := by exact_mod_cast hi
  rw [leafAxis, pow_succ]
  omega

lemma one_le_leafAxis (d i : Nat) : 1 ≤ leafAxis d i := by
  have hpos : (0 : Int) < 2 ^ d := pow_pos (by decide) d
  rw [leafAxis]
  omega

lemma bitLength_leafAxis (hi : i < 2 ^ d) : bitLength (leafAxis d i) = d + 1 :=
  bitLength_eq_of_axis (leafAxis_bounds hi).1 (leafAxis_bounds hi).2

/-- In the left half the way goes to the head first, and then as in the smaller tree. -/
lemma turns_left (hi : i < 2 ^ d) : turns (leafAxis (d + 1) i) = false :: turns (leafAxis d i) := by
  have h := turns_append (x := 2) (by decide) (leafAxis_bounds hi).1 (leafAxis_bounds hi).2
  rw [show turns 2 = [false] from rfl, List.singleton_append] at h
  rw [← h, leafAxis, leafAxis, pow_succ]
  congr 1
  omega

/-- In the right half it goes to the tail first. -/
lemma turns_right (hi : i < 2 ^ d) :
    turns (leafAxis (d + 1) (2 ^ d + i)) = true :: turns (leafAxis d i) := by
  have h := turns_append (x := 3) (by decide) (leafAxis_bounds hi).1 (leafAxis_bounds hi).2
  rw [show turns 3 = [true] from rfl, List.singleton_append] at h
  rw [← h, leafAxis, leafAxis, pow_succ]
  push_cast
  congr 1
  omega

/-- The way to leaf `i` leads to leaf `i`. -/
lemma Noun.walk_perfect (leaf : Nat → Noun) (hi : i < 2 ^ d) :
    (perfect d leaf).walk (turns (leafAxis d i)) = some (leaf i) := by
  induction d generalizing i leaf with
  | zero =>
      obtain rfl : i = 0 := by simpa using hi
      rw [leafAxis_zero, turns_one, walk_nil, perfect]
  | succ d ih =>
      by_cases hleft : i < 2 ^ d
      · rw [turns_left hleft, perfect, walk_head, ih leaf hleft]
      · obtain ⟨j, rfl⟩ := Nat.exists_eq_add_of_le (Nat.not_lt.mp hleft)
        have hj : j < 2 ^ d := by
          rw [Nat.pow_succ] at hi
          omega
        rw [turns_right hj, perfect, walk_tail, ih _ hj]

/-- Putting a noun at leaf `i` changes leaf `i` and no other. -/
lemma Noun.graft_perfect (leaf : Nat → Noun) (part : Noun) (hi : i < 2 ^ d) :
    (perfect d leaf).graft (turns (leafAxis d i)) part
      = some (perfect d (Function.update leaf i part)) := by
  induction d generalizing i leaf with
  | zero =>
      obtain rfl : i = 0 := by simpa using hi
      rw [leafAxis_zero, turns_one, graft_nil, perfect, Function.update_self]
  | succ d ih =>
      by_cases hleft : i < 2 ^ d
      · have htail : perfect d (fun j => Function.update leaf i part (2 ^ d + j))
            = perfect d fun j => leaf (2 ^ d + j) :=
          perfect_congr fun j _ => Function.update_of_ne (by omega) _ _
        rw [turns_left hleft, perfect, graft_head, ih leaf hleft, Option.map_some, perfect, htail]
      · obtain ⟨j, rfl⟩ := Nat.exists_eq_add_of_le (Nat.not_lt.mp hleft)
        have hj : j < 2 ^ d := by
          rw [Nat.pow_succ] at hi
          omega
        have hhead : perfect d (Function.update leaf (2 ^ d + j) part) = perfect d leaf :=
          perfect_congr fun k hk => Function.update_of_ne (by omega) _ _
        have htail : (fun k => Function.update leaf (2 ^ d + j) part (2 ^ d + k))
            = Function.update (fun k => leaf (2 ^ d + k)) j part := by
          funext k
          by_cases hk : k = j
          · rw [hk, Function.update_self, Function.update_self]
          · rw [Function.update_of_ne hk, Function.update_of_ne (by omega)]
        rw [turns_right hj, perfect, graft_tail, ih _ hj, Option.map_some, perfect, hhead, htail]

end

/-! ## Looking up and editing the leaves -/

namespace Workload

variable {d bound : Nat}

lemma leafAxes_eq (d : Nat) : leafAxes d = (List.range (2 ^ d)).map (leafAxis d) := by
  rw [leafAxes, Nat.one_shiftLeft]
  refine List.map_congr_left fun i _ => ?_
  rw [leafAxis]
  push_cast
  rfl

lemma mapM_eq_ok {α β : Type} {f : α → Except Fault β} {g : α → β} : ∀ {xs : List α},
    (∀ x ∈ xs, f x = .ok (g x)) → xs.mapM f = .ok (xs.map g)
  | [], _ => rfl
  | x :: xs, h => by
      obtain ⟨hx, hxs⟩ := List.forall_mem_cons.mp h
      rw [List.mapM_cons, hx, ok_bind, mapM_eq_ok hxs]
      rfl

/-- Every leaf of the tree of zeros is 0. -/
lemma leafValues_eq (hbound : d < bound) :
    leafValues bound d = .ok (List.replicate (2 ^ d) (.atom 0)) := by
  have hslot : ∀ axis ∈ leafAxes d,
      Noun.slot bound axis (Noun.complete (.atom 0) d) = .ok (.atom 0) := by
    intro axis haxis
    rw [leafAxes_eq, List.mem_map] at haxis
    obtain ⟨i, hi, rfl⟩ := haxis
    rw [List.mem_range] at hi
    rw [Noun.slot, slot_eq_walk _ (one_le_leafAxis d i) (by rw [bitLength_leafAxis hi]; omega),
      Noun.complete_eq_perfect, Noun.walk_perfect _ hi, reached_some]
  rw [leafValues, mapM_eq_ok hslot, List.map_const', leafAxes_eq, List.length_map, List.length_range]

/-- The leaves after `k` edits: the first `k` hold their axes, and the others hold 0. -/
def labelsAfter (d k i : Nat) : Noun :=
  .atom (if i < k then leafAxis d i else 0)

lemma update_labelsAfter (d k : Nat) :
    Function.update (labelsAfter d k) k (.atom (leafAxis d k)) = labelsAfter d (k + 1) := by
  funext i
  by_cases hi : i = k
  · rw [hi, Function.update_self, labelsAfter, if_pos (Nat.lt_succ_self k)]
  · have hlt : i < k + 1 ↔ i < k := by omega
    rw [Function.update_of_ne hi, labelsAfter, labelsAfter]
    simp only [hlt]

/-- **The invariant of the edits.**  By induction on their number. -/
lemma foldlM_edit_range (hbound : d + 1 < bound) {k : Nat} (hk : k ≤ 2 ^ d) :
    ((List.range k).map (leafAxis d)).foldlM
        (fun tree axis => Noun.edit bound axis (.atom axis) tree) (Noun.complete (.atom 0) d)
      = .ok (Noun.perfect d (labelsAfter d k)) := by
  induction k with
  | zero =>
      rw [Noun.complete_eq_perfect]
      rfl
  | succ k ih =>
      have hedit : Noun.edit bound (leafAxis d k) (.atom (leafAxis d k))
          (Noun.perfect d (labelsAfter d k)) = .ok (Noun.perfect d (labelsAfter d (k + 1))) := by
        rw [Noun.edit, edit_eq_graft _ _ (one_le_leafAxis d k)
          (by rw [bitLength_leafAxis hk]; exact hbound), Noun.graft_perfect _ _ hk, reached_some,
          update_labelsAfter]
      rw [List.range_succ, List.map_append, List.foldlM_append, ih (by omega), ok_bind]
      simp [hedit]

/-- The tree of the given depth with its axis at every leaf. -/
def axisTree (d : Nat) : Noun :=
  Noun.perfect d fun i => .atom (leafAxis d i)

/-- In the end every leaf holds its axis. -/
lemma labelledTree_eq (hbound : d + 1 < bound) : labelledTree bound d = .ok (axisTree d) := by
  rw [labelledTree, leafAxes_eq, foldlM_edit_range hbound le_rfl, axisTree]
  congr 1
  refine Noun.perfect_congr fun i hi => ?_
  rw [labelsAfter, if_pos hi]

/-! ## The report -/

lemma printable_axisTree (hd : 2 ^ (d + 1) ≤ 10 ^ Decimal.maxDigits) : (axisTree d).Printable := by
  refine Noun.printable_perfect fun i hi => ?_
  have hlt : 2 ^ d + i < 10 ^ Decimal.maxDigits := by
    rw [Nat.pow_succ] at hd
    omega
  have hcast : leafAxis d i = (2 ^ d + i : Nat) := by
    rw [leafAxis]
    push_cast
    rfl
  rw [Noun.Printable, hcast, Decimal.fits_natCast]
  exact hlt

lemma legible_digit {k : Nat} (hk : k < 10) : (Noun.atom k).Legible := by
  refine ⟨Int.natCast_nonneg k, Decimal.fits_natCast.mpr (lt_of_lt_of_le hk ?_)⟩
  exact Nat.le_self_pow (by decide) 10

lemma legible_serialised (hd : 2 ^ (d + 1) ≤ 10 ^ Decimal.maxDigits) :
    ∀ n ∈ serialised d, n.Legible := by
  have hpair : (Noun.cell (.atom 3) (.atom 4)).Legible :=
    .cell (legible_digit (k := 3) (by decide)) (legible_digit (k := 4) (by decide))
  have hseven : (Noun.atom 7).Legible := legible_digit (k := 7) (by decide)
  have hzero : (Noun.atom 0).Legible := legible_digit (k := 0) (by decide)
  have hone : (Noun.atom 1).Legible := legible_digit (k := 1) (by decide)
  have hdepth : (Noun.atom d).Legible := by
    have hlt : d < 2 ^ (d + 1) := Nat.lt_trans (Nat.lt_succ_self d) Nat.lt_two_pow_self
    exact ⟨Int.natCast_nonneg d, Decimal.fits_natCast.mpr (lt_of_lt_of_le hlt hd)⟩
  simp only [serialised, List.forall_mem_cons]
  exact ⟨hzero, hpair.cell hpair, hseven.cell (hseven.cell hseven), hone.cell (hzero.cell hzero),
    hdepth, List.forall_mem_nil _⟩

/-- What is read back from the number of a noun is the text of the noun. -/
lemma readBack_jam {n : Noun} (hn : n.Natural) : readBack n.jam = n.pretty false := by
  rw [readBack, Noun.cue_jam hn, ok_bind]

lemma mapM_pretty_eq_ok : ∀ {ns : List Noun}, (∀ n ∈ ns, n.Legible) →
    ∃ texts, ns.mapM (·.pretty false) = .ok texts ∧ (ns.map Noun.jam).mapM readBack = .ok texts
  | [], _ => ⟨[], rfl, rfl⟩
  | n :: ns, h => by
      obtain ⟨hn, hns⟩ := List.forall_mem_cons.mp h
      obtain ⟨text, htext⟩ := hn.2.pretty false
      obtain ⟨texts, htexts, hback⟩ := mapM_pretty_eq_ok hns
      refine ⟨text :: texts, ?_, ?_⟩
      · rw [List.mapM_cons, htext, ok_bind, htexts]
        rfl
      · rw [List.map_cons, List.mapM_cons, readBack_jam hn.1, htext, ok_bind, hback]
        rfl

/-- In every tree axis 0 and a cell are refused, each for itself. -/
lemma misaddressed_eq (hbound : 0 < bound) (tree : Noun) :
    misaddressed bound tree = [.error .zeroAxis, .error .cellAxis, .error .cellEditAxis] := by
  obtain ⟨bound, rfl⟩ := Nat.exists_eq_add_of_lt hbound
  rfl

/-- The report from the text of the labelled tree and the texts that are read back. -/
lemma addressing_eq (hbound : d + 2 ≤ bound) {text : String} {texts : List String}
    (htext : (axisTree d).pretty false = .ok text)
    (hback : ((serialised d).map Noun.jam).mapM readBack = .ok texts) :
    addressing bound d = .ok (List.replicate (2 ^ d) (.number 0) ++
      [.number 3, .text text, .row ((serialised d).map fun n => .number n.jam),
        .row (texts.map .text)]) := by
  have hdepth : shiftCount d = .ok d := by
    rw [shiftCount, if_neg (by omega), Int.toNat_natCast]
  rw [addressing, hdepth, ok_bind, leafValues_eq (by omega), ok_bind, labelledTree_eq (by omega),
    ok_bind]
  dsimp only
  rw [hback, ok_bind, htext, ok_bind, misaddressed_eq (by omega), List.map_replicate,
    List.map_map]
  rfl

/-! ## Held trees -/

/-- Held trees are looked up like plain ones, at any axes. -/
lemma mapM_slotAt_refines (bound : Nat) : ∀ (axes : List Int) {s : Store} {ν : Reading} {t : Datum}
    {n : Noun}, s.Fits ν → s.Denotes ν t n →
      Refines s ν (axes.mapM fun axis => slotAt bound (.atom axis) t)
        (axes.mapM fun axis => Noun.slot bound axis n) DenotesAll
  | [], _, _, _, _, hs, _ => .pure hs .nil
  | axis :: axes, s, ν, t, n, hs, ht => by
      rw [List.mapM_cons, List.mapM_cons]
      refine (slotAt_refines bound hs (atom_denotes s ν axis) ht).bind
        fun s₁ ν₁ _ _ h₁ hs₁ hpart => ?_
      refine (mapM_slotAt_refines bound axes hs₁ (ht.later h₁)).bind
        fun s₂ ν₂ _ _ h₂ hs₂ hparts => ?_
      exact .pure hs₂ (.cons (hpart.later h₂) hparts)

/-- Held trees are edited like plain ones, one edit after the other. -/
lemma foldlM_editAt_refines (bound : Nat) : ∀ (axes : List Int) {s : Store} {ν : Reading} {t : Datum}
    {n : Noun}, s.Fits ν → s.Denotes ν t n →
      Refines s ν (axes.foldlM (fun tree axis => editAt bound (.atom axis) (.atom axis) tree) t)
        (axes.foldlM (fun tree axis => Noun.edit bound axis (.atom axis) tree) n) Denotes
  | [], _, _, _, _, hs, ht => .pure hs ht
  | axis :: axes, s, ν, t, n, hs, ht => by
      rw [List.foldlM_cons, List.foldlM_cons]
      refine (editAt_refines bound hs (atom_denotes s ν axis) (atom_denotes s ν axis) ht).bind
        fun s₁ ν₁ _ _ _ hs₁ htree => ?_
      exact foldlM_editAt_refines bound axes hs₁ htree

end Workload

open Workload

/-- The data denote the nouns, one by one. -/
def Store.HasAll (s : Store) : List Datum → List Noun → Prop :=
  List.Forall₂ s.Has

/-- **The leaves are addressed by their axes.**  Let every number below `2 ^ (d + 1)` be short enough to
be written.  Then the workload reports, under every bound with enough room, `2 ^ d` zeros, the number
3 of refused axes, and the text of one tree: all its atoms are at depth `d`, from left to right they
are the numbers from `2 ^ d` to `2 ^ (d + 1) - 1`, and no other tree is like that.  After that come the
numbers of the five serialised nouns, and the texts of the same nouns.

The tree may be held in a store, with whatever cells shared: looking up all leaves there finds the
zeros, and editing them one after the other makes a datum that denotes the labelled tree. -/
theorem addressing_labels_leaves {d : Nat} (hd : 2 ^ (d + 1) ≤ 10 ^ Decimal.maxDigits) :
    ∃ tree text texts, tree.Balanced d ∧
      tree.leaves = (List.range (2 ^ d)).map (fun i : Nat => (2 ^ d : Int) + i) ∧
      (∀ other : Noun, other.Balanced d → other.leaves = tree.leaves → other = tree) ∧
      tree.pretty false = .ok text ∧
      (serialised d).length = 5 ∧ (serialised d).mapM (·.pretty false) = .ok texts ∧
      ∀ bound, d + 2 ≤ bound →
        addressing bound d = .ok (List.replicate (2 ^ d) (.number 0) ++
          [.number 3, .text text, .row ((serialised d).map fun n => .number n.jam),
            .row (texts.map .text)]) ∧
        ∀ (s : Store) (t : Datum), s.Sound → s.noun? t = some (Noun.complete (.atom 0) d) →
          Realizes s ((leafAxes d).mapM fun axis => slotAt bound (.atom axis) t)
            (.ok (List.replicate (2 ^ d) (.atom 0))) HasAll ∧
          Realizes s ((leafAxes d).foldlM
            (fun tree axis => editAt bound (.atom axis) (.atom axis) tree) t) (.ok tree) Has := by
  obtain ⟨text, htext⟩ := (printable_axisTree hd).pretty false
  obtain ⟨texts, htexts, hback⟩ := mapM_pretty_eq_ok (legible_serialised hd)
  have hbalanced : (axisTree d).Balanced d := Noun.balanced_perfect d (leafAxis d)
  have hleaves : (axisTree d).leaves = (List.range (2 ^ d)).map (leafAxis d) :=
    Noun.leaves_perfect d (leafAxis d)
  refine ⟨axisTree d, text, texts, hbalanced, hleaves, fun other hother => hother.ext hbalanced, htext,
    rfl, htexts, fun bound hbound => ⟨?_, fun s t hs ht => ?_⟩⟩
  · exact addressing_eq hbound htext hback
  · have hfits := hs.fits
    rw [hfits.noun?_iff] at ht
    rw [← leafValues_eq (by omega : d < bound), ← labelledTree_eq (by omega : d + 1 < bound)]
    refine ⟨(mapM_slotAt_refines bound (leafAxes d) hfits ht).realizes hfits ?_,
      (foldlM_editAt_refines bound (leafAxes d) hfits ht).realizes_has hfits⟩
    intro s' ν' ds ns hs' hall
    exact hall.imp fun _ _ hd => hs'.noun?_eq hd

/-- A store that holds the tree of zeros of depth 2 as cell 1, with one cell for both of its parts. -/
def zeroStore : Store :=
  ⟨#[⟨.atom 0, .atom 0, 0, 1⟩, ⟨.cell 0, .cell 0, 0, 2⟩], #[]⟩

/-- The whole report at depth 2, and the edits in a store where both halves of the tree are one cell. -/
theorem addressing_labels_leaves_two :
    let tree := Noun.cell (.cell (.atom 4) (.atom 5)) (.cell (.atom 6) (.atom 7))
    (2 ^ (2 + 1) ≤ 10 ^ Decimal.maxDigits ∧ zeroStore.Sound ∧
      zeroStore.noun? (.cell 1) = some (Noun.complete (.atom 0) 2)) ∧
    ∀ bound, 4 ≤ bound →
      addressing bound 2 = .ok [.number 0, .number 0, .number 0, .number 0, .number 3,
        .text "[[4 5] 6 7]",
        .row [.number 2, .number 77383301, .number 154744801, .number 2673, .number 72],
        .row [.text "0", .text "[[3 4] 3 4]", .text "[7 7 7]", .text "[1 0 0]", .text "2"]] ∧
      Realizes zeroStore ((leafAxes 2).foldlM
        (fun tree axis => editAt bound (.atom axis) (.atom axis) tree) (.cell 1)) (.ok tree) Has := by
  intro tree
  have hsmall : 2 ^ (2 + 1) ≤ 10 ^ Decimal.maxDigits :=
    le_trans (by decide : 2 ^ (2 + 1) ≤ 10) (Nat.le_self_pow (by decide) 10)
  have hsound : zeroStore.Sound := by decide +kernel
  have hzeros : zeroStore.noun? (.cell 1) = some (Noun.complete (.atom 0) 2) := by decide +kernel
  obtain ⟨labelled, text, texts, -, hleaves, hunique, htext, -, htexts, hreport⟩ :=
    addressing_labels_leaves hsmall
  have hjams : (serialised 2).map Noun.jam = [2, 77383301, 154744801, 2673, 72] := by decide +kernel
  have hrow := congrArg (List.map fun k : Nat => Entry.number k) hjams
  rw [List.map_map] at hrow
  -- the tree is the only one with these leaves
  obtain rfl : tree = labelled := hunique tree ⟨⟨trivial, trivial⟩, trivial, trivial⟩ hleaves.symm
  obtain rfl : "[[4 5] 6 7]" = text := Except.ok.inj (Eq.trans (by decide +kernel) htext)
  obtain rfl : ["0", "[[3 4] 3 4]", "[7 7 7]", "[1 0 0]", "2"] = texts :=
    Except.ok.inj (Eq.trans (by decide +kernel) htexts)
  refine ⟨⟨hsmall, hsound, hzeros⟩, fun bound hbound => ⟨?_, ?_⟩⟩
  · have h := (hreport bound hbound).1
    rw [show (serialised 2).map (fun n => Entry.number n.jam) = _ from hrow] at h
    exact h
  · exact ((hreport bound hbound).2 zeroStore (.cell 1) hsound hzeros).2

end Nock
