import Nock.Proofs.Store.Reading
import Nock.Store.Unify

/-!
# Comparison decides equality and keeps every denotation

Comparing two nouns changes cells while it is still deciding, and the cells it changes may lie
inside either operand.  With a reading at hand this is harmless: every single change gives a cell a
part, or a mug, of a cell with an equal part, or an equal noun, so the store fits the same reading
after each of them (`Fits.shareHead`, `Fits.shareTail`, `Fits.shareMug`).  What the parts of a cell
are afterwards does not matter, only what they denote.

`unify_answers` puts this together: a comparison answers whether the two nouns are equal, adds no
cell, and leaves the store fitting, whatever the answer is.
-/

namespace Nock.Store

variable {s : Store} {ν : Reading}

/-- A comparison of a store that answers the question `p` and keeps the reading. -/
structure Answers (ν : Reading) (s : Store) (outcome : Bool × Store) (p : Prop) : Prop where
  fits : outcome.2.Fits ν
  size : outcome.2.cells.size = s.cells.size
  iff : outcome.1 = true ↔ p

/-! ## Sharing parts -/

lemma shareHead_size (s : Store) (left right : CellId) :
    (s.shareHead left right).cells.size = s.cells.size := by
  unfold shareHead
  split <;> simp

lemma shareTail_size (s : Store) (left right : CellId) :
    (s.shareTail left right).cells.size = s.cells.size := by
  unfold shareTail
  split <;> simp

lemma shareMug_size (s : Store) (left right : CellId) :
    (s.shareMug left right).cells.size = s.cells.size := by
  unfold shareMug
  split
  · split_ifs <;> simp
  · rfl

/-- A cell may get the head of a cell with an equal head. -/
lemma Fits.shareHead (hs : s.Fits ν) {left right : CellId} {h t u : Noun}
    (hl : ν left = .cell h t) (hr : ν right = .cell h u) : (s.shareHead left right).Fits ν := by
  unfold Store.shareHead
  split
  · rename_i l hget
    obtain ⟨h', t', hν, hcell⟩ := hs left l hget
    rw [hl] at hν
    cases hν
    refine hs.update fun cell h' u' _ hν hold => ?_
    rw [hr] at hν
    cases hν
    exact ⟨hcell.head, hold.tail, hold.height, hold.mug⟩
  · exact hs

lemma Fits.shareTail (hs : s.Fits ν) {left right : CellId} {h i t : Noun}
    (hl : ν left = .cell h t) (hr : ν right = .cell i t) : (s.shareTail left right).Fits ν := by
  unfold Store.shareTail
  split
  · rename_i l hget
    obtain ⟨h', t', hν, hcell⟩ := hs left l hget
    rw [hl] at hν
    cases hν
    refine hs.update fun cell i' t' _ hν hold => ?_
    rw [hr] at hν
    cases hν
    exact ⟨hold.head, hcell.tail, hold.height, hold.mug⟩
  · exact hs

/-- A cell may get the mug of a cell that holds the same noun. -/
lemma Fits.giveMug (hs : s.Fits ν) {c d : CellId} {cell : Cell} (hget : s.cells[c]? = some cell)
    (hν : ν c = ν d) : (s.update d ({ · with mug := cell.mug })).Fits ν := by
  obtain ⟨h, t, hc, hcell⟩ := hs c cell hget
  refine hs.update fun old h' t' _ hd hold => ?_
  rw [← hν, hc] at hd
  cases hd
  exact ⟨hold.head, hold.tail, hold.height, hcell.mug⟩

lemma Fits.shareMug (hs : s.Fits ν) {left right : CellId} (hν : ν left = ν right) :
    (s.shareMug left right).Fits ν := by
  unfold Store.shareMug
  split
  · rename_i l r hl hr
    split_ifs
    · exact hs.giveMug hl hν
    · exact hs.giveMug hr hν.symm
    · exact hs
  · exact hs

/-- Two different remembered mugs belong to two different nouns. -/
lemma Fits.ne_of_mugsDiffer (hs : s.Fits ν) {left right : CellId}
    (h : s.mugsDiffer left right = true) : ν left ≠ ν right := by
  intro hν
  unfold Store.mugsDiffer at h
  split at h
  · rename_i l r hl hr
    simp only [Bool.and_eq_true, bne_iff_ne, ne_eq] at h
    obtain ⟨⟨hl0, hr0⟩, hne⟩ := h
    obtain ⟨h₁, t₁, hν₁, hcell₁⟩ := hs left l hl
    obtain ⟨h₂, t₂, hν₂, hcell₂⟩ := hs right r hr
    have hl' := hcell₁.mug.resolve_left hl0
    have hr' := hcell₂.mug.resolve_left hr0
    rw [← hν₁, hν, hν₂, hr'] at hl'
    exact hne (Except.ok.inj hl').symm
  · cases h

/-! ## Comparing -/

/-- Two numbers are compared as atoms, and a number differs from a cell. -/
lemma leavesEqual_iff {left right : Datum} {m n : Noun} (hl : s.Denotes ν left m)
    (hr : s.Denotes ν right n) {k : Int} (hk : left.number? = some k) (hs : s.Fits ν) :
    s.leavesEqual left right = true ↔ m = n := by
  have hm := hl.of_number hk
  cases right with
  | cell d =>
      obtain ⟨hd, rfl⟩ := hr
      obtain ⟨cell, h, t, _, hν, _⟩ := hs.get hd
      rw [hm, hν]
      cases left with
      | atom j => simp [leavesEqual, Datum.number?]
      | flag b => simp [leavesEqual, Datum.number?]
      | _ => cases hk
  | atom j =>
      rw [hm, hr.of_number rfl]
      cases left with
      | atom i => cases hk; simp [leavesEqual, Datum.number?]
      | flag b => cases hk; simp [leavesEqual, Datum.number?]
      | _ => cases hk
  | flag b =>
      rw [hm, hr.of_number rfl]
      cases left with
      | atom i => cases hk; simp [leavesEqual, Datum.number?]
      | flag b => cases hk; simp [leavesEqual, Datum.number?]
      | _ => cases hk
  | _ => exact hr.elim

/-- Data are compared rightly if cells are, as far down as the left noun reaches. -/
lemma compare_answers {cells : CellId → CellId → Store → Bool × Store} {fuel : Nat}
    (hcells : ∀ c d, c < s.cells.size → d < s.cells.size → (ν c).height ≤ fuel →
      Answers ν s (cells c d s) (ν c = ν d))
    (hs : s.Fits ν) {left right : Datum} {m n : Noun} (hl : s.Denotes ν left m)
    (hr : s.Denotes ν right n) (hm : m.height ≤ fuel) :
    Answers ν s (compare cells left right s) (m = n) := by
  cases left with
  | atom k =>
      have h := leavesEqual_iff hl hr rfl hs
      cases right <;> exact ⟨hs, rfl, h⟩
  | flag b =>
      have h := leavesEqual_iff hl hr rfl hs
      cases right <;> exact ⟨hs, rfl, h⟩
  | cell c =>
      obtain ⟨hc, rfl⟩ := hl
      cases right with
      | cell d =>
          obtain ⟨hd, rfl⟩ := hr
          exact hcells c d hc hd hm
      | atom k =>
          obtain ⟨cell, h, t, _, hν, _⟩ := hs.get hc
          refine ⟨hs, rfl, ?_⟩
          rw [hν, hr.of_number rfl]
          simp [compare, leavesEqual, Datum.number?]
      | flag b =>
          obtain ⟨cell, h, t, _, hν, _⟩ := hs.get hc
          refine ⟨hs, rfl, ?_⟩
          rw [hν, hr.of_number rfl]
          simp [compare, leavesEqual, Datum.number?]
      | _ => exact hr.elim
  | _ => exact hl.elim

lemma Fits.denotes_heads (hs : s.Fits ν) {left right : CellId} {h i t u : Noun}
    (hl : left < s.cells.size) (hr : right < s.cells.size) (hνl : ν left = .cell h t)
    (hνr : ν right = .cell i u) :
    s.Denotes ν (s.heads left right).1 h ∧ s.Denotes ν (s.heads left right).2 i := by
  obtain ⟨l, _, _, hgetl, hν, hcelll⟩ := hs.get hl
  rw [hνl] at hν
  cases hν
  obtain ⟨r, _, _, hgetr, hν, hcellr⟩ := hs.get hr
  rw [hνr] at hν
  cases hν
  simpa [heads, hgetl, hgetr] using ⟨hcelll.head, hcellr.head⟩

lemma Fits.denotes_tails (hs : s.Fits ν) {left right : CellId} {h i t u : Noun}
    (hl : left < s.cells.size) (hr : right < s.cells.size) (hνl : ν left = .cell h t)
    (hνr : ν right = .cell i u) :
    s.Denotes ν (s.tails left right).1 t ∧ s.Denotes ν (s.tails left right).2 u := by
  obtain ⟨l, _, _, hgetl, hν, hcelll⟩ := hs.get hl
  rw [hνl] at hν
  cases hν
  obtain ⟨r, _, _, hgetr, hν, hcellr⟩ := hs.get hr
  rw [hνr] at hν
  cases hν
  simpa [tails, hgetl, hgetr] using ⟨hcelll.tail, hcellr.tail⟩

/-- Two cells are compared rightly if parts are, one level less far down.  The heads are shared
before the tails are looked at, so the tails are those of the store after that. -/
lemma unifyCells_answers {parts : Datum → Datum → Store → Bool × Store} {fuel : Nat}
    (hparts : ∀ {s : Store} {left right : Datum} {m n : Noun}, s.Fits ν → s.Denotes ν left m →
      s.Denotes ν right n → m.height ≤ fuel → Answers ν s (parts left right s) (m = n))
    (hs : s.Fits ν) {left right : CellId} (hl : left < s.cells.size) (hr : right < s.cells.size)
    (hfuel : (ν left).height ≤ fuel + 1) :
    Answers ν s (unifyCells parts left right s) (ν left = ν right) := by
  obtain ⟨_, h, t, _, hνl, _⟩ := hs.get hl
  obtain ⟨_, i, u, _, hνr, _⟩ := hs.get hr
  rw [hνl, Noun.height] at hfuel
  unfold unifyCells
  split_ifs with hmugs
  · exact ⟨hs, rfl, by simp [hs.ne_of_mugsDiffer hmugs]⟩
  obtain ⟨hhl, hhr⟩ := hs.denotes_heads hl hr hνl hνr
  have hheads := hparts hs hhl hhr (by omega)
  dsimp only
  generalize parts (s.heads left right).1 (s.heads left right).2 s = outcome at hheads ⊢
  obtain ⟨answer, s₁⟩ := outcome
  cases answer with
  | false =>
      have hne : h ≠ i := fun hhi => by simpa using hheads.iff.mpr hhi
      refine ⟨hheads.fits, hheads.size, ?_⟩
      rw [hνl, hνr]
      simp [hne]
  | true =>
      obtain rfl : h = i := hheads.iff.mp rfl
      have hs₂ := hheads.fits.shareHead hνl hνr
      have hsize₂ : (s₁.shareHead left right).cells.size = s.cells.size :=
        (shareHead_size s₁ left right).trans hheads.size
      dsimp only
      generalize s₁.shareHead left right = s₂ at hs₂ hsize₂ ⊢
      obtain ⟨htl, htr⟩ := hs₂.denotes_tails (hsize₂ ▸ hl) (hsize₂ ▸ hr) hνl hνr
      have htails := hparts hs₂ htl htr (by omega)
      generalize parts (s₂.tails left right).1 (s₂.tails left right).2 s₂ = outcome at htails ⊢
      obtain ⟨answer, s₃⟩ := outcome
      cases answer with
      | false =>
          have hne : t ≠ u := fun htu => by simpa using htails.iff.mpr htu
          refine ⟨htails.fits, htails.size.trans hsize₂, ?_⟩
          rw [hνl, hνr]
          simp [hne]
      | true =>
          obtain rfl : t = u := htails.iff.mp rfl
          have hν : ν left = ν right := hνl.trans hνr.symm
          refine ⟨(htails.fits.shareTail hνl hνr).shareMug hν, ?_, by simp [hν]⟩
          exact (shareMug_size _ _ _).trans ((shareTail_size _ _ _).trans (htails.size.trans hsize₂))

/-- A comparison that may go down far enough answers whether the nouns are equal. -/
lemma unifyWithin_answers : ∀ (fuel : Nat) {s : Store} {left right : Datum} {m n : Noun},
    s.Fits ν → s.Denotes ν left m → s.Denotes ν right n → m.height ≤ fuel →
      Answers ν s (unifyWithin fuel left right s) (m = n)
  | 0, s, left, right, m, n, hs, hl, hr, hm => by
      refine compare_answers (fun c d hc _ hheight => ?_) hs hl hr hm
      obtain ⟨_, h, t, _, hν, _⟩ := hs.get hc
      rw [hν, Noun.height] at hheight
      omega
  | fuel + 1, s, left, right, m, n, hs, hl, hr, hm =>
      compare_answers
        (fun _ _ hc hd hheight => unifyCells_answers (unifyWithin_answers fuel) hs hc hd hheight)
        hs hl hr hm

/-- A comparison answers whether the nouns are equal, and keeps every denotation. -/
lemma unify_answers (hs : s.Fits ν) {left right : Datum} {m n : Noun} (hl : s.Denotes ν left m)
    (hr : s.Denotes ν right n) : Answers ν s (unify left right s) (m = n) :=
  unifyWithin_answers _ hs hl hr (by rw [hs.heightOf_eq hl])

end Nock.Store
