import Nock.Proofs.Store.Unify

/-!
# Cells that compared equal have their parts in common

A comparison of two cells that answers yes gives the right cell the head of the left one, then
compares the tails, and only then hands over the tail and the mug.  Comparing the tails changes
cells as well, and which cells these are depends on how the operands share cells: they may lie below
either of the two.

What protects the two cells is their **height**.  A comparison changes no cell that is higher than
both of its operands (`unifyWithin_keepsAbove`).  Two cells that hold the same noun have the same
height, and the heads and the tails are lower, so neither of the two cells is changed while their
parts are compared, wherever else it may lie.  What is left are the changes that the comparison makes
to the two cells by itself, one after the other (`unifyCells_joins`).
-/

namespace Nock.Store

variable {s s' s'' : Store} {ν : Reading} {limit fuel : Nat}

/-! ## Cells above a limit -/

/-- The cells whose nouns are higher than the limit are as they were. -/
def KeepsAbove (ν : Reading) (limit : Nat) (s s' : Store) : Prop :=
  ∀ c, limit < (ν c).height → s'.cells[c]? = s.cells[c]?

lemma KeepsAbove.refl (ν : Reading) (limit : Nat) (s : Store) : KeepsAbove ν limit s s :=
  fun _ _ => rfl

lemma KeepsAbove.trans (h : KeepsAbove ν limit s s') (h' : KeepsAbove ν limit s' s'') :
    KeepsAbove ν limit s s'' :=
  fun c hc => (h' c hc).trans (h c hc)

lemma update_get_of_ne {c d : CellId} (h : d ≠ c) (f : Cell → Cell) :
    (s.update d f).cells[c]? = s.cells[c]? := by
  simp [Store.update, Array.getElem?_modify, h]

lemma update_get_self {c : CellId} {cell : Cell} (h : s.cells[c]? = some cell) (f : Cell → Cell) :
    (s.update c f).cells[c]? = some (f cell) := by
  simp [Store.update, Array.getElem?_modify, h]

lemma keepsAbove_update {d : CellId} (hd : (ν d).height ≤ limit) (f : Cell → Cell) :
    KeepsAbove ν limit s (s.update d f) := by
  intro c hc
  refine update_get_of_ne ?_ f
  rintro rfl
  omega

lemma keepsAbove_shareHead (left : CellId) {right : CellId} (hr : (ν right).height ≤ limit) :
    KeepsAbove ν limit s (s.shareHead left right) := by
  unfold shareHead
  split
  · exact keepsAbove_update hr _
  · exact .refl ν limit s

lemma keepsAbove_shareTail (left : CellId) {right : CellId} (hr : (ν right).height ≤ limit) :
    KeepsAbove ν limit s (s.shareTail left right) := by
  unfold shareTail
  split
  · exact keepsAbove_update hr _
  · exact .refl ν limit s

lemma keepsAbove_shareMug {left right : CellId} (hl : (ν left).height ≤ limit)
    (hr : (ν right).height ≤ limit) : KeepsAbove ν limit s (s.shareMug left right) := by
  unfold shareMug
  split
  · split_ifs
    · exact keepsAbove_update hr _
    · exact keepsAbove_update hl _
    · exact .refl ν limit s
  · exact .refl ν limit s

/-! ## The stages of a comparison -/

/-- What the comparison of two cells can go through: it ends at the mugs, at the heads or at the
tails, or it answers yes. -/
lemma unifyCells_cases (parts : Datum → Datum → Store → Bool × Store) (left right : CellId)
    (s : Store) :
    unifyCells parts left right s = (false, s) ∨
    (∃ s₁, parts (s.heads left right).1 (s.heads left right).2 s = (false, s₁) ∧
      unifyCells parts left right s = (false, s₁)) ∨
    ∃ s₁ answer s₂, parts (s.heads left right).1 (s.heads left right).2 s = (true, s₁) ∧
      parts ((s₁.shareHead left right).tails left right).1
        ((s₁.shareHead left right).tails left right).2 (s₁.shareHead left right) = (answer, s₂) ∧
      unifyCells parts left right s = if answer then
        (true, (s₂.shareTail left right).shareMug left right) else (false, s₂) := by
  unfold unifyCells
  split_ifs
  · exact Or.inl rfl
  refine Or.inr ?_
  dsimp only
  rcases hheads : parts (s.heads left right).1 (s.heads left right).2 s with ⟨_ | _, s₁⟩
  · exact Or.inl ⟨s₁, rfl, rfl⟩
  · refine Or.inr ⟨s₁, ?_⟩
    dsimp only
    rcases htails : parts ((s₁.shareHead left right).tails left right).1
      ((s₁.shareHead left right).tails left right).2 (s₁.shareHead left right) with ⟨_ | _, s₂⟩
    · exact ⟨false, s₂, rfl, rfl, rfl⟩
    · exact ⟨true, s₂, rfl, rfl, rfl⟩

/-- The heads of two cells were found equal: they are, and the store still fits after the head is
handed over. -/
lemma Fits.after_heads (hs : s.Fits ν) {left right : CellId} {h i t u : Noun} {s₁ : Store}
    (hl : left < s.cells.size) (hr : right < s.cells.size) (hνl : ν left = .cell h t)
    (hνr : ν right = .cell i u) (hfuel : h.height ≤ fuel)
    (hheads : unifyWithin fuel (s.heads left right).1 (s.heads left right).2 s = (true, s₁)) :
    h = i ∧ (s₁.shareHead left right).Fits ν ∧
      (s₁.shareHead left right).cells.size = s.cells.size := by
  obtain ⟨hhl, hhr⟩ := hs.denotes_heads hl hr hνl hνr
  have hanswers := unifyWithin_answers fuel hs hhl hhr hfuel
  rw [hheads] at hanswers
  obtain rfl : h = i := hanswers.iff.mp rfl
  refine ⟨rfl, hanswers.fits.shareHead hνl hνr, ?_⟩
  exact (shareHead_size s₁ left right).trans hanswers.size

/-! ## A comparison keeps what is higher than its operands -/

lemma compare_keepsAbove {cells : CellId → CellId → Store → Bool × Store} {left right : Datum}
    {m n : Noun} (hl : s.Denotes ν left m) (hr : s.Denotes ν right n)
    (hcells : ∀ c d, left = .cell c → right = .cell d → KeepsAbove ν limit s (cells c d s).2) :
    KeepsAbove ν limit s (compare cells left right s).2 := by
  cases left with
  | cell c =>
      cases right with
      | cell d => exact hcells c d rfl rfl
      | atom k => exact .refl ν limit s
      | flag b => exact .refl ν limit s
      | _ => exact hr.elim
  | atom k => cases right <;> exact .refl ν limit s
  | flag b => cases right <;> exact .refl ν limit s
  | _ => exact hl.elim

/-- Two cells are compared without a change above the limit, if their parts are. -/
lemma unifyCells_keepsAbove
    (hparts : ∀ {s : Store} {left right : Datum} {m n : Noun}, s.Fits ν → s.Denotes ν left m →
      s.Denotes ν right n → m.height ≤ fuel → m.height ≤ limit → n.height ≤ limit →
        KeepsAbove ν limit s (unifyWithin fuel left right s).2)
    (hs : s.Fits ν) {left right : CellId} (hl : left < s.cells.size) (hr : right < s.cells.size)
    (hfuel : (ν left).height ≤ fuel + 1) (hleft : (ν left).height ≤ limit)
    (hright : (ν right).height ≤ limit) :
    KeepsAbove ν limit s (unifyCells (unifyWithin fuel) left right s).2 := by
  obtain ⟨_, h, t, _, hνl, _⟩ := hs.get hl
  obtain ⟨_, i, u, _, hνr, _⟩ := hs.get hr
  have hheightl : (ν left).height = max h.height t.height + 1 := by rw [hνl, Noun.height]
  have hheightr : (ν right).height = max i.height u.height + 1 := by rw [hνr, Noun.height]
  obtain ⟨hhl, hhr⟩ := hs.denotes_heads hl hr hνl hνr
  have hkeeps := hparts hs hhl hhr (by omega) (by omega) (by omega)
  obtain hmugs | ⟨s₁, hheads, hends⟩ | ⟨s₁, answer, s₂, hheads, htails, hends⟩ :=
    unifyCells_cases (unifyWithin fuel) left right s
  · rw [hmugs]
    exact .refl ν limit s
  · rw [hheads] at hkeeps
    rwa [hends]
  · obtain ⟨rfl, hs₁, hsize⟩ := hs.after_heads hl hr hνl hνr (by omega) hheads
    obtain ⟨htl, htr⟩ := hs₁.denotes_tails (hsize ▸ hl) (hsize ▸ hr) hνl hνr
    have hkeeps' := hparts hs₁ htl htr (by omega) (by omega) (by omega)
    rw [hheads] at hkeeps
    rw [htails] at hkeeps'
    have hbefore := (hkeeps.trans (keepsAbove_shareHead left hright)).trans hkeeps'
    rw [hends]
    cases answer with
    | false => exact hbefore
    | true =>
        have hafter := (keepsAbove_shareTail left hright).trans
          (keepsAbove_shareMug (s := s₂.shareTail left right) hleft hright)
        exact hbefore.trans hafter

/-- A comparison changes no cell that is higher than both operands. -/
lemma unifyWithin_keepsAbove : ∀ (fuel : Nat) {s : Store} {left right : Datum} {m n : Noun},
    s.Fits ν → s.Denotes ν left m → s.Denotes ν right n → m.height ≤ fuel → m.height ≤ limit →
      n.height ≤ limit → KeepsAbove ν limit s (unifyWithin fuel left right s).2
  | 0, s, _, _, _, _, _, hl, hr, _, _, _ =>
      compare_keepsAbove hl hr fun _ _ _ _ => .refl ν limit s
  | fuel + 1, s, left, right, m, n, hs, hl, hr, hfuel, hm, hn => by
      refine compare_keepsAbove hl hr ?_
      rintro c d rfl rfl
      obtain ⟨hc, rfl⟩ := hl
      obtain ⟨hd, rfl⟩ := hr
      exact unifyCells_keepsAbove (unifyWithin_keepsAbove fuel) hs hc hd hfuel hm hn

/-! ## Two cells that compared equal -/

/-- The mug that two cells remember after they compared equal: that of the left one, or else that of
the right one. -/
def commonMug (l r : Cell) : Int :=
  if l.mug ≠ 0 then l.mug else r.mug

variable {left right : CellId} {l r : Cell}

lemma commonMug_ne_zero (h : l.mug ≠ 0 ∨ r.mug ≠ 0) : commonMug l r ≠ 0 := by
  unfold commonMug
  split_ifs with hl
  · exact hl
  · exact h.resolve_left hl

/-- A change to one cell that would leave the other as it is, also if the two are one cell. -/
lemma update_get_both (hl : s.cells[left]? = some l) (hr : s.cells[right]? = some r)
    {f : Cell → Cell} (hf : f l = l) :
    (s.update right f).cells[left]? = some l ∧ (s.update right f).cells[right]? = some (f r) := by
  refine ⟨?_, update_get_self hr f⟩
  by_cases hsame : right = left
  · subst hsame
    rw [update_get_self hl, hf]
  · rw [update_get_of_ne hsame, hl]

lemma shareHead_get (hl : s.cells[left]? = some l) (hr : s.cells[right]? = some r) :
    (s.shareHead left right).cells[left]? = some l ∧
      (s.shareHead left right).cells[right]? = some { r with head := l.head } := by
  simp only [shareHead, hl]
  exact update_get_both hl hr rfl

lemma shareTail_get (hl : s.cells[left]? = some l) (hr : s.cells[right]? = some r) :
    (s.shareTail left right).cells[left]? = some l ∧
      (s.shareTail left right).cells[right]? = some { r with tail := l.tail } := by
  simp only [shareTail, hl]
  exact update_get_both hl hr rfl

lemma shareMug_get (hl : s.cells[left]? = some l) (hr : s.cells[right]? = some r) :
    (s.shareMug left right).cells[left]? = some { l with mug := commonMug l r } ∧
      (s.shareMug left right).cells[right]? = some { r with mug := commonMug l r } := by
  simp only [shareMug, hl, hr]
  split_ifs with hmug hmug'
  · rw [commonMug, if_pos hmug]
    exact update_get_both hl hr rfl
  · rw [commonMug, if_neg hmug]
    exact (update_get_both hr hl rfl).symm
  · have hsame : l.mug = r.mug := (not_not.mp hmug).trans (not_not.mp hmug').symm
    rw [commonMug, if_neg hmug]
    exact ⟨by rw [hl, ← hsame], hr⟩

/-- A comparison of two cells that answers yes leaves the left cell with its parts, gives them to the
right cell, and lets both remember one mug. -/
lemma unifyCells_joins (hs : s.Fits ν) (hl : s.cells[left]? = some l)
    (hr : s.cells[right]? = some r) (hfuel : (ν left).height ≤ fuel + 1)
    (hyes : unifyCells (unifyWithin fuel) left right s = (true, s')) :
    s'.cells[left]? = some { l with mug := commonMug l r } ∧
      s'.cells[right]? =
        some { r with head := l.head, tail := l.tail, mug := commonMug l r } := by
  obtain ⟨hsizel, -⟩ := Array.getElem?_eq_some_iff.mp hl
  obtain ⟨hsizer, -⟩ := Array.getElem?_eq_some_iff.mp hr
  obtain ⟨h, t, hνl, -⟩ := hs left l hl
  obtain ⟨i, u, hνr, -⟩ := hs right r hr
  have hheightl : (ν left).height = max h.height t.height + 1 := by rw [hνl, Noun.height]
  have hheightr : (ν right).height = max i.height u.height + 1 := by rw [hνr, Noun.height]
  obtain hmugs | ⟨s₁, -, hends⟩ | ⟨s₁, answer, s₂, hheads, htails, hends⟩ :=
    unifyCells_cases (unifyWithin fuel) left right s
  · rw [hmugs] at hyes
    cases hyes
  · rw [hends] at hyes
    cases hyes
  obtain ⟨rfl, hs₁, hsize⟩ := hs.after_heads hsizel hsizer hνl hνr (by omega) hheads
  -- comparing the heads changes neither cell
  obtain ⟨hhl, hhr⟩ := hs.denotes_heads hsizel hsizer hνl hνr
  have hkeeps := unifyWithin_keepsAbove fuel hs hhl hhr (by omega) (le_refl _) (le_refl _)
  rw [hheads] at hkeeps
  obtain ⟨hl₁, hr₁⟩ := shareHead_get ((hkeeps left (by omega)).trans hl)
    ((hkeeps right (by omega)).trans hr)
  -- and neither does comparing the tails
  obtain ⟨htl, htr⟩ := hs₁.denotes_tails (hsize ▸ hsizel) (hsize ▸ hsizer) hνl hνr
  have hanswers := unifyWithin_answers fuel hs₁ htl htr (by omega)
  rw [htails] at hanswers
  rw [hends] at hyes
  cases answer with
  | false => cases hyes
  | true =>
      obtain rfl : t = u := hanswers.iff.mp rfl
      cases hyes
      have hkeeps' := unifyWithin_keepsAbove fuel hs₁ htl htr (by omega) (le_refl _) (le_refl _)
      rw [htails] at hkeeps'
      obtain ⟨hl₂, hr₂⟩ := shareTail_get ((hkeeps' left (by omega)).trans hl₁)
        ((hkeeps' right (by omega)).trans hr₁)
      exact shareMug_get hl₂ hr₂

/-- **Common parts.**  Two cells of a sound store that compared equal have the same head and the same
tail afterwards, the very same cells or the same numbers, and these are the parts that the left cell
had before.  Both remember one mug, and they remember one if either of them did before.  The two
cells may share any cells below them, or be one cell. -/
theorem unify_makes_parts_common {x y : CellId} (hs : s.Sound) (hx : x < s.cells.size)
    (hy : y < s.cells.size) (hyes : s.unify (.cell x) (.cell y) = (true, s')) :
    ∃ l r l' r', s.cells[x]? = some l ∧ s.cells[y]? = some r ∧
      s'.cells[x]? = some l' ∧ s'.cells[y]? = some r' ∧
      (r'.head = l'.head ∧ r'.tail = l'.tail) ∧ (l'.head = l.head ∧ l'.tail = l.tail) ∧
      l'.mug = r'.mug ∧ (l.mug ≠ 0 ∨ r.mug ≠ 0 → l'.mug ≠ 0) := by
  obtain ⟨l, h, t, hl, hν, -⟩ := hs.fits.get hx
  obtain ⟨r, -, -, hr, -⟩ := hs.fits.get hy
  have hheight : s.heightOf (.cell x) = (s.reading x).height := hs.fits.heightOf_eq ⟨hx, rfl⟩
  obtain ⟨fuel, hfuel⟩ : ∃ fuel, s.heightOf (.cell x) = fuel + 1 := by
    rw [hheight, hν]
    exact ⟨_, rfl⟩
  rw [unify, hfuel] at hyes
  obtain ⟨hl', hr'⟩ := unifyCells_joins hs.fits hl hr (by omega) hyes
  exact ⟨l, r, _, _, hl, hr, hl', hr', ⟨rfl, rfl⟩, ⟨rfl, rfl⟩, rfl, commonMug_ne_zero⟩

/-- A store with `[[1 2] 1 2]` as cell 2 and as cell 3.  The head of the one is the tail of the other,
and only cell 3 remembers its mug. -/
def crossedStore : Store :=
  ⟨#[⟨.atom 1, .atom 2, 0, 1⟩, ⟨.atom 1, .atom 2, 0, 1⟩, ⟨.cell 0, .cell 1, 0, 2⟩,
    ⟨.cell 1, .cell 0, 963142383, 2⟩], #[]⟩

/-- Cell 3 takes over the parts of cell 2, though these are its own parts the other way round, and
cell 2 the mug of cell 3. -/
theorem unify_makes_parts_common_crossed :
    (crossedStore.Sound ∧ (crossedStore.unify (.cell 2) (.cell 3)).1 = true) ∧
    ∃ l' r', (crossedStore.unify (.cell 2) (.cell 3)).2.cells[2]? = some l' ∧
      (crossedStore.unify (.cell 2) (.cell 3)).2.cells[3]? = some r' ∧
      (r'.head = l'.head ∧ r'.tail = l'.tail) ∧ (l'.head = .cell 0 ∧ l'.tail = .cell 1) ∧
      l'.mug = r'.mug ∧ l'.mug ≠ 0 := by
  have hsound : crossedStore.Sound := by decide +kernel
  have hyes : (crossedStore.unify (.cell 2) (.cell 3)).1 = true := by decide +kernel
  obtain ⟨l, r, l', r', hl, hr, hl', hr', hparts, hkept, hmugs, hmug⟩ :=
    unify_makes_parts_common hsound (by decide) (by decide) (Prod.ext hyes rfl)
  cases hl
  cases hr
  exact ⟨⟨hsound, hyes⟩, l', r', hl', hr', hparts, hkept, hmugs, hmug (Or.inr (by decide))⟩

end Nock.Store
