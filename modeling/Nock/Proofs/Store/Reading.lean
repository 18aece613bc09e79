import Mathlib.Logic.Relation
import Mathlib.Order.Nat
import Nock.Mug
import Nock.Proofs.Outcome
import Nock.Store.Basic

/-!
# What the cells of a store denote

Cells change: a comparison gives them other parts, hashing gives them a mug.  What they **denote**
does not.  A `Reading` says once and for all which noun every cell denotes, and `Store.Fits` says
that a store bears it out.  It does so **locally**: each cell's parts denote the parts of its noun,
its recorded height is the height of its noun, and its mug is 0 or the mug of its noun.  Nothing in
this speaks of paths through the store, so a change to one cell needs a look at that cell only
(`Fits.update`), whatever shares it and wherever it lies.

`Store.Sound` says the same without a reading; it is what callers promise.  Each gives the other
(`Sound.fits`, `Fits.sound`), and the rest is read off a reading: what a datum denotes
(`Fits.noun?_iff`) and that no cell lies inside itself (`Fits.acyclic`).
-/

namespace Nock

/-- A noun for every cell of a store. -/
abbrev Reading := CellId → Noun

namespace Store

/-- The datum denotes the noun under a reading: it is the number, or a cell that is there and is
read as the noun. -/
def Denotes (s : Store) (ν : Reading) : Datum → Noun → Prop
  | .atom k, n => n = .atom k
  | .flag b, n => n = .atom (flagNumber b)
  | .cell c, n => c < s.cells.size ∧ n = ν c
  | _, _ => False

/-- The cell holds the noun `[h t]`. -/
structure Holds (s : Store) (ν : Reading) (cell : Cell) (h t : Noun) : Prop where
  head : s.Denotes ν cell.head h
  tail : s.Denotes ν cell.tail t
  height : cell.height = (Noun.cell h t).height
  mug : cell.mug = 0 ∨ (Noun.cell h t).mug = .ok cell.mug

/-- Every cell holds the noun that it is read as. -/
def Fits (s : Store) (ν : Reading) : Prop :=
  ∀ c cell, s.cells[c]? = some cell → ∃ h t, ν c = .cell h t ∧ s.Holds ν cell h t

/-- A later moment: the cells that were there are still there and are read as before. -/
structure Extends (s : Store) (ν : Reading) (s' : Store) (ν' : Reading) : Prop where
  size_le : s.cells.size ≤ s'.cells.size
  agree : ∀ c < s.cells.size, ν' c = ν c

variable {s s' s'' : Store} {ν ν' ν'' : Reading}

/-! ## Later moments -/

lemma Extends.refl (s : Store) (ν : Reading) : Extends s ν s ν :=
  ⟨le_refl _, fun _ _ => rfl⟩

lemma Extends.trans (h : Extends s ν s' ν') (h' : Extends s' ν' s'' ν'') :
    Extends s ν s'' ν'' := by
  refine ⟨le_trans h.size_le h'.size_le, fun c hc => ?_⟩
  rw [h'.agree c (lt_of_lt_of_le hc h.size_le), h.agree c hc]

lemma Extends.of_size (h : s'.cells.size = s.cells.size) : Extends s ν s' ν :=
  ⟨le_of_eq h.symm, fun _ _ => rfl⟩

lemma Denotes.later {d : Datum} {n : Noun} (h : s.Denotes ν d n) (hs : Extends s ν s' ν') :
    s'.Denotes ν' d n := by
  cases d with
  | atom k => exact h
  | flag b => exact h
  | cell c => exact ⟨lt_of_lt_of_le h.1 hs.size_le, by rw [hs.agree c h.1]; exact h.2⟩
  | _ => exact h

lemma Denotes.of_number {d : Datum} {k : Int} {n : Noun} (hk : d.number? = some k)
    (h : s.Denotes ν d n) : n = .atom k := by
  cases d with
  | atom j => cases hk; exact h
  | flag b => cases hk; exact h
  | _ => cases hk

lemma Holds.later {cell : Cell} {h t : Noun} (hc : s.Holds ν cell h t)
    (hs : Extends s ν s' ν') : s'.Holds ν' cell h t :=
  ⟨hc.head.later hs, hc.tail.later hs, hc.height, hc.mug⟩

/-! ## Cells of a store that fits -/

lemma Fits.get (hs : s.Fits ν) {c : CellId} (hc : c < s.cells.size) :
    ∃ cell h t, s.cells[c]? = some cell ∧ ν c = .cell h t ∧ s.Holds ν cell h t := by
  have hget : s.cells[c]? = some s.cells[c] := Array.getElem?_eq_getElem hc
  obtain ⟨h, t, hν, hcell⟩ := hs c _ hget
  exact ⟨_, h, t, hget, hν, hcell⟩

/-- The recorded height is the height of the noun. -/
lemma Fits.heightOf_eq (hs : s.Fits ν) {d : Datum} {n : Noun} (hd : s.Denotes ν d n) :
    s.heightOf d = n.height := by
  cases d with
  | atom k => subst hd; rfl
  | flag b => subst hd; rfl
  | cell c =>
      obtain ⟨hc, rfl⟩ := hd
      obtain ⟨cell, h, t, hget, hν, hcell⟩ := hs.get hc
      simp [heightOf, Datum.height, hget, hν, hcell.height]
  | _ => exact hd.elim

/-- Looking deep enough shows the noun. -/
lemma Fits.viewWithin_noun? (hs : s.Fits ν) : ∀ (fuel : Nat) {d : Datum} {n : Noun},
    s.Denotes ν d n → n.height ≤ fuel → (s.viewWithin fuel d).noun? = some n
  | fuel, .atom k, n, hd, _ => by
      subst hd
      cases fuel <;> simp [viewWithin, Datum.spell, View.noun?]
  | fuel, .flag b, n, hd, _ => by
      subst hd
      cases fuel <;> simp [viewWithin, Datum.spell, View.noun?]
  | 0, .cell c, n, hd, hn => by
      obtain ⟨hc, rfl⟩ := hd
      obtain ⟨cell, h, t, _, hν, _⟩ := hs.get hc
      simp [hν, Noun.height] at hn
  | fuel + 1, .cell c, n, hd, hn => by
      obtain ⟨hc, rfl⟩ := hd
      obtain ⟨cell, h, t, hget, hν, hcell⟩ := hs.get hc
      rw [hν, Noun.height] at hn
      have hh := hs.viewWithin_noun? fuel hcell.head (by omega)
      have ht := hs.viewWithin_noun? fuel hcell.tail (by omega)
      simp [viewWithin, Datum.spell, View.noun?, hget, hν, hh, ht]

/-- A datum is seen as the noun that it denotes. -/
lemma Fits.noun?_eq (hs : s.Fits ν) {d : Datum} {n : Noun} (hd : s.Denotes ν d n) :
    s.noun? d = some n := by
  rw [noun?, view, hs.heightOf_eq hd]
  exact hs.viewWithin_noun? _ hd (le_refl _)

/-- And only what denotes a noun is seen as one. -/
lemma Fits.noun?_iff (hs : s.Fits ν) {d : Datum} {n : Noun} :
    s.noun? d = some n ↔ s.Denotes ν d n := by
  refine ⟨fun h => ?_, hs.noun?_eq⟩
  cases d with
  | atom k => exact (Option.some.inj ((hs.noun?_eq (d := .atom k) rfl).symm.trans h)).symm
  | flag b => exact (Option.some.inj ((hs.noun?_eq (d := .flag b) rfl).symm.trans h)).symm
  | cell c =>
      by_cases hc : c < s.cells.size
      · have hd : s.Denotes ν (.cell c) (ν c) := ⟨hc, rfl⟩
        exact ⟨hc, (Option.some.inj ((hs.noun?_eq hd).symm.trans h)).symm⟩
      · have hget : s.cells[c]? = none := Array.getElem?_eq_none (not_lt.mp hc)
        simp [noun?, view, heightOf, Datum.height, hget, viewWithin, Datum.spell, View.noun?] at h
  | _ =>
      simp only [noun?, view] at h
      generalize s.heightOf _ = fuel at h
      cases fuel <;> simp [viewWithin, Datum.spell, View.noun?] at h

/-! ## Changing a store -/

/-- A cell that still holds its noun after a change leaves the store fitting. -/
lemma Fits.update (hs : s.Fits ν) {c : CellId} {f : Cell → Cell}
    (hf : ∀ cell h t, s.cells[c]? = some cell → ν c = .cell h t → s.Holds ν cell h t →
      s.Holds ν (f cell) h t) : (s.update c f).Fits ν := by
  have hsize : (s.update c f).cells.size = s.cells.size := Array.size_modify
  intro d cell hget
  simp only [Store.update, Array.getElem?_modify] at hget
  split at hget
  · rename_i hcd
    subst hcd
    obtain ⟨old, hold, rfl⟩ := Option.map_eq_some_iff.mp hget
    obtain ⟨h, t, hν, hcell⟩ := hs _ old hold
    exact ⟨h, t, hν, (hf old h t hold hν hcell).later (.of_size hsize)⟩
  · obtain ⟨h, t, hν, hcell⟩ := hs _ cell hget
    exact ⟨h, t, hν, hcell.later (.of_size hsize)⟩

@[simp] lemma update_size (s : Store) (c : CellId) (f : Cell → Cell) :
    (s.update c f).cells.size = s.cells.size := Array.size_modify

/-- The noun of a new cell is added to the reading. -/
def Reading.push (s : Store) (ν : Reading) (n : Noun) : Reading :=
  Function.update ν s.cells.size n

lemma Extends.push (s : Store) (ν : Reading) (head tail : Datum) (mug : Int) (n : Noun) :
    Extends s ν (s.push head tail mug).1 (Reading.push s ν n) := by
  refine ⟨by simp [Store.push], fun c hc => ?_⟩
  exact Function.update_of_ne (ne_of_lt hc) n ν

/-- A new cell of two nouns leaves the store fitting. -/
lemma Fits.push (hs : s.Fits ν) {head tail : Datum} {h t : Noun} {mug : Int}
    (hh : s.Denotes ν head h) (ht : s.Denotes ν tail t)
    (hmug : mug = 0 ∨ (Noun.cell h t).mug = .ok mug) :
    (s.push head tail mug).1.Fits (Reading.push s ν (.cell h t)) := by
  have hlater := Extends.push s ν head tail mug (.cell h t)
  intro c cell hget
  simp only [Store.push, Array.getElem?_push] at hget
  split at hget
  · rename_i hc
    subst hc
    cases hget
    refine ⟨h, t, Function.update_self _ _ _, hh.later hlater, ht.later hlater, ?_, hmug⟩
    simp [hs.heightOf_eq hh, hs.heightOf_eq ht, Noun.height]
  · obtain ⟨h', t', hν, hcell⟩ := hs c cell hget
    have hc : c < s.cells.size := (Array.getElem?_eq_some_iff.mp hget).1
    exact ⟨h', t', by rw [hlater.agree c hc, hν], hcell.later hlater⟩

/-- The new cell denotes the cell of the two nouns. -/
lemma denotes_push (s : Store) (ν : Reading) (head tail : Datum) (mug : Int) (n : Noun) :
    (s.push head tail mug).1.Denotes (Reading.push s ν n) (.cell (s.push head tail mug).2) n :=
  ⟨by simp [Store.push], (Function.update_self s.cells.size n ν).symm⟩

/-! ## No cell lies inside itself -/

/-- The cell `c` is the head or the tail of the cell `d`. -/
def PartOf (s : Store) (c d : CellId) : Prop :=
  ∃ cell, s.cells[d]? = some cell ∧ (cell.head = .cell c ∨ cell.tail = .cell c)

/-- No way down from a cell leads back to it. -/
def Acyclic (s : Store) : Prop :=
  ∀ c, ¬Relation.TransGen s.PartOf c c

/-- Going down, the nouns get lower. -/
lemma Fits.height_lt (hs : s.Fits ν) {c d : CellId} (h : s.PartOf c d) :
    (ν c).height < (ν d).height := by
  obtain ⟨cell, hget, hpart⟩ := h
  obtain ⟨hd, tl, hν, hcell⟩ := hs d cell hget
  rw [hν, Noun.height]
  rcases hpart with hpart | hpart
  · have h := hcell.head
    rw [hpart] at h
    rw [← h.2]
    omega
  · have h := hcell.tail
    rw [hpart] at h
    rw [← h.2]
    omega

lemma Fits.acyclic (hs : s.Fits ν) : s.Acyclic := by
  intro c hc
  have hlt : ∀ {a b}, Relation.TransGen s.PartOf a b → (ν a).height < (ν b).height := by
    intro a b hab
    induction hab with
    | single h => exact hs.height_lt h
    | tail _ h ih => exact lt_trans ih (hs.height_lt h)
  exact lt_irrefl _ (hlt hc)

/-! ## Soundness without a reading -/

/-- The datum is a number or a cell that is there. -/
def IsNoun (s : Store) : Datum → Prop
  | .atom _ | .flag _ => True
  | .cell c => c < s.cells.size
  | _ => False

/-- Cells are made of numbers and cells, with their heights recorded, and remember the mug of the
noun that they denote or none. -/
structure Sound (s : Store) : Prop where
  head : ∀ (c : CellId) (cell : Cell), s.cells[c]? = some cell → s.IsNoun cell.head
  tail : ∀ (c : CellId) (cell : Cell), s.cells[c]? = some cell → s.IsNoun cell.tail
  height : ∀ (c : CellId) (cell : Cell), s.cells[c]? = some cell →
    cell.height = max (s.heightOf cell.head) (s.heightOf cell.tail) + 1
  mug : ∀ (c : CellId) (cell : Cell) (n : Noun), s.cells[c]? = some cell →
    s.noun? (.cell c) = some n → cell.mug = 0 ∨ n.mug = .ok cell.mug

/-- What the cells of a store denote now. -/
def reading (s : Store) : Reading :=
  fun c => (s.noun? (.cell c)).getD (.atom 0)

lemma Sound.heightOf_cell (hs : s.Sound) {c : CellId} {cell : Cell}
    (hget : s.cells[c]? = some cell) :
    s.heightOf (.cell c) = max (s.heightOf cell.head) (s.heightOf cell.tail) + 1 := by
  rw [← hs.height c cell hget]
  simp [heightOf, Datum.height, hget]

/-- In a sound store every number and every cell shows a noun, the same from every depth that
reaches its leaves. -/
lemma Sound.exists_noun (hs : s.Sound) : ∀ (k : Nat) (d : Datum), s.IsNoun d → s.heightOf d ≤ k →
    ∃ n, n.height = s.heightOf d ∧
      ∀ fuel, s.heightOf d ≤ fuel → (s.viewWithin fuel d).noun? = some n
  | _, .atom j, _, _ => by
      refine ⟨.atom j, rfl, fun fuel _ => ?_⟩
      cases fuel <;> simp [viewWithin, Datum.spell, View.noun?]
  | _, .flag b, _, _ => by
      refine ⟨.atom (flagNumber b), rfl, fun fuel _ => ?_⟩
      cases fuel <;> simp [viewWithin, Datum.spell, View.noun?]
  | k, .cell c, hc, hk => by
      have hget : s.cells[c]? = some s.cells[c] := Array.getElem?_eq_getElem hc
      have hheight := hs.heightOf_cell hget
      cases k with
      | zero => omega
      | succ k =>
          obtain ⟨h, hh, hview⟩ := hs.exists_noun k _ (hs.head c _ hget) (by omega)
          obtain ⟨t, ht, tview⟩ := hs.exists_noun k _ (hs.tail c _ hget) (by omega)
          refine ⟨.cell h t, by rw [Noun.height, hh, ht, hheight], fun fuel hfuel => ?_⟩
          obtain ⟨fuel, rfl⟩ : ∃ f, fuel = f + 1 := ⟨fuel - 1, by omega⟩
          simp [viewWithin, Datum.spell, View.noun?, hget, hview fuel (by omega),
            tview fuel (by omega)]

/-- So every number and every cell denotes a noun. -/
lemma Sound.denotes (hs : s.Sound) {d : Datum} (hd : s.IsNoun d) :
    ∃ n, s.Denotes s.reading d n ∧ n.height = s.heightOf d ∧
      ∀ fuel, s.heightOf d ≤ fuel → (s.viewWithin fuel d).noun? = some n := by
  obtain ⟨n, hheight, hview⟩ := hs.exists_noun _ d hd (le_refl _)
  refine ⟨n, ?_, hheight, hview⟩
  cases d with
  | atom j => simpa [Denotes, viewWithin, Datum.spell, View.noun?] using (hview 0 (le_refl _)).symm
  | flag b => simpa [Denotes, viewWithin, Datum.spell, View.noun?] using (hview 0 (le_refl _)).symm
  | cell c => exact ⟨hd, by simp [reading, noun?, view, hview]⟩
  | _ => exact hd.elim

/-- A sound store fits what its cells denote. -/
lemma Sound.fits (hs : s.Sound) : s.Fits s.reading := by
  intro c cell hget
  obtain ⟨h, hh, hheight, hview⟩ := hs.denotes (hs.head c cell hget)
  obtain ⟨t, ht, theight, tview⟩ := hs.denotes (hs.tail c cell hget)
  have hnoun : s.noun? (.cell c) = some (.cell h t) := by
    rw [noun?, view, hs.heightOf_cell hget]
    simp [viewWithin, Datum.spell, View.noun?, hget, hview _ (Nat.le_max_left _ _),
      tview _ (Nat.le_max_right _ _)]
  refine ⟨h, t, by simp [reading, hnoun], hh, ht, ?_, hs.mug c cell _ hget hnoun⟩
  rw [hs.height c cell hget, Noun.height, hheight, theight]

lemma Denotes.isNoun {d : Datum} {n : Noun} (hd : s.Denotes ν d n) : s.IsNoun d := by
  cases d with
  | atom _ => trivial
  | flag _ => trivial
  | cell c => exact hd.1
  | _ => exact hd.elim

/-- A store that fits any reading is sound. -/
lemma Fits.sound (hs : s.Fits ν) : s.Sound where
  head c cell hget := by
    obtain ⟨h, t, _, hcell⟩ := hs c cell hget
    exact hcell.head.isNoun
  tail c cell hget := by
    obtain ⟨h, t, _, hcell⟩ := hs c cell hget
    exact hcell.tail.isNoun
  height c cell hget := by
    obtain ⟨h, t, _, hcell⟩ := hs c cell hget
    rw [hcell.height, Noun.height, hs.heightOf_eq hcell.head, hs.heightOf_eq hcell.tail]
  mug c cell n hget hn := by
    obtain ⟨h, t, hν, hcell⟩ := hs c cell hget
    obtain ⟨_, rfl⟩ := hs.noun?_iff.mp hn
    rw [hν]
    exact hcell.mug

instance (s : Store) : (d : Datum) → Decidable (s.IsNoun d)
  | .atom _ | .flag _ => inferInstanceAs (Decidable True)
  | .cell c => inferInstanceAs (Decidable (c < s.cells.size))
  | .nothing | .text _ | .bytes _ | .stream _ | .list _ | .tuple _ =>
      inferInstanceAs (Decidable False)

/-- Soundness is a matter of looking at every cell. -/
lemma sound_iff (s : Store) : s.Sound ↔ ∀ (c : Nat) (h : c < s.cells.size),
    s.IsNoun s.cells[c].head ∧ s.IsNoun s.cells[c].tail ∧
      s.cells[c].height = max (s.heightOf s.cells[c].head) (s.heightOf s.cells[c].tail) + 1 ∧
      ∀ n ∈ s.noun? (.cell c), s.cells[c].mug = 0 ∨ n.mug = .ok s.cells[c].mug := by
  refine ⟨fun hs c h => ?_, fun hs => ?_⟩
  · have hget : s.cells[c]? = some s.cells[c] := Array.getElem?_eq_getElem h
    exact ⟨hs.head c _ hget, hs.tail c _ hget, hs.height c _ hget, fun n => hs.mug c _ n hget⟩
  · constructor
    · intro c cell hget
      obtain ⟨h, rfl⟩ := Array.getElem?_eq_some_iff.mp hget
      exact (hs c h).1
    · intro c cell hget
      obtain ⟨h, rfl⟩ := Array.getElem?_eq_some_iff.mp hget
      exact (hs c h).2.1
    · intro c cell hget
      obtain ⟨h, rfl⟩ := Array.getElem?_eq_some_iff.mp hget
      exact (hs c h).2.2.1
    · intro c cell n hget
      obtain ⟨h, rfl⟩ := Array.getElem?_eq_some_iff.mp hget
      exact (hs c h).2.2.2 n

instance (s : Store) : Decidable s.Sound :=
  decidable_of_iff' _ s.sound_iff

end Store

end Nock
