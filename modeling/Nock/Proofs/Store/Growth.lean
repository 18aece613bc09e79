import Mathlib.Order.Lattice.Nat
import Nock.Proofs.Effects
import Nock.Proofs.Path

/-!
# Stores that grow

Making cells leaves everything else alone: the store **grows**, and what was there before is found in
it as before.  `Store.follow` goes down from a datum to one of its parts, and finds in a grown store
what it found before (`Grows.follow`).

How a datum looks is a matter of more than one cell.  A view goes down as far as the recorded heights
say, and a name without a cell may get one when the store grows.  A datum is **steady** if neither of
this shows: it looks the same in every grown store, however far down one is willing to look.  What names
no cell is steady, a new cell of steady parts is (`Steady.push`), and in a **regular** store, where names
have cells and cells are higher than their parts, everything is (`Regular.steady`).  Stores are regular
at first and stay so when cells are made of what is there (`Regular.push`).
-/

namespace Nock

namespace Datum

/-! ## Data with items -/

/-- What holds of the items of a list or a tuple holds of it, so it holds of everything. -/
lemma induct_items {P : Datum → Prop} (hlist : ∀ xs, (∀ x ∈ xs, P x) → P (.list xs))
    (htuple : ∀ xs, (∀ x ∈ xs, P x) → P (.tuple xs))
    (hleaf : ∀ d, (∀ xs, d ≠ .list xs) → (∀ xs, d ≠ .tuple xs) → P d) (d : Datum) : P d := by
  induction d using Datum.spell.induct (fun xs => ∀ x ∈ xs, P x) with
  | case8 xs ih => exact hlist xs ih
  | case9 xs ih => exact htuple xs ih
  | case10 x hx => cases hx
  | case11 x xs hx hxs y hy =>
      rcases List.mem_cons.mp hy with rfl | hy
      · exact hx
      · exact hxs y hy
  | _ => exact hleaf _ (by simp) (by simp)

/-- The cells that a datum names. -/
def named : Datum → List CellId
  | .cell c => [c]
  | .list xs | .tuple xs => namedAll xs
  | .atom _ | .flag _ | .nothing | .text _ | .bytes _ | .stream _ => []
where
  /-- The cells that several data name. -/
  namedAll : List Datum → List CellId
    | [] => []
    | x :: xs => named x ++ namedAll xs

lemma mem_namedAll {c : CellId} {xs : List Datum} :
    c ∈ named.namedAll xs ↔ ∃ x ∈ xs, c ∈ x.named := by
  induction xs with
  | nil => simp [named.namedAll]
  | cons x xs ih => simp [named.namedAll, ih]

lemma spellAll_eq_map (ofCell : CellId → View) (ofStream : StreamId → View) (xs : List Datum) :
    spell.spellAll ofCell ofStream xs = xs.map (spell ofCell ofStream) := by
  induction xs with
  | nil => rfl
  | cons x xs ih => rw [spell.spellAll, ih, List.map_cons]

/-- How a datum is spelled out depends on the cells that it names. -/
lemma spell_congr {f g : CellId → View} {ofStream : StreamId → View} {d : Datum} :
    (∀ c ∈ d.named, f c = g c) → d.spell f ofStream = d.spell g ofStream := by
  induction d using induct_items with
  | hlist xs ih | htuple xs ih =>
      intro h
      simp only [spell, spellAll_eq_map]
      refine congrArg _ (List.map_congr_left fun x hx => ih x hx fun c hc => ?_)
      exact h c (mem_namedAll.mpr ⟨x, hx, hc⟩)
  | hleaf d hlist htuple =>
      intro h
      cases d with
      | cell c => exact h c List.mem_cons_self
      | list xs => exact absurd rfl (hlist xs)
      | tuple xs => exact absurd rfl (htuple xs)
      | _ => rfl

lemma heightAll_le {f : CellId → Nat} {xs : List Datum} {limit : Nat} :
    height.heightAll f xs ≤ limit ↔ ∀ x ∈ xs, x.height f ≤ limit := by
  induction xs with
  | nil => simp [height.heightAll]
  | cons x xs ih => simp [height.heightAll, ih]

/-- A datum is as high as the highest cell that it names. -/
lemma height_le {f : CellId → Nat} {d : Datum} {limit : Nat} :
    d.height f ≤ limit ↔ ∀ c ∈ d.named, f c ≤ limit := by
  induction d using induct_items with
  | hlist xs ih | htuple xs ih =>
      simp only [height, heightAll_le, named, mem_namedAll]
      constructor
      · rintro h c ⟨x, hx, hc⟩
        exact (ih x hx).mp (h x hx) c hc
      · exact fun h x hx => (ih x hx).mpr fun c hc => h c ⟨x, hx, hc⟩
  | hleaf d hlist htuple =>
      cases d with
      | list xs => exact absurd rfl (hlist xs)
      | tuple xs => exact absurd rfl (htuple xs)
      | _ => simp [height, named]

lemma height_congr {f g : CellId → Nat} {d : Datum} (h : ∀ c ∈ d.named, f c = g c) :
    d.height f = d.height g := by
  refine le_antisymm (height_le.mpr fun c hc => ?_) (height_le.mpr fun c hc => ?_)
  · rw [h c hc]
    exact height_le.mp le_rfl c hc
  · rw [← h c hc]
    exact height_le.mp le_rfl c hc

/-- Every cell that the datum names is one of the given cells. -/
def Within (R : CellId → Prop) (d : Datum) : Prop :=
  ∀ c ∈ d.named, R c

lemma within_of_number {R : CellId → Prop} {d : Datum} {k : Int} (h : d.number? = some k) :
    d.Within R := by
  cases d with
  | atom _ => simp [Within, named]
  | flag _ => simp [Within, named]
  | _ => cases h

lemma within_cell {R : CellId → Prop} {c : CellId} : (Datum.cell c).Within R ↔ R c := by
  simp [Within, named]

lemma within_list {R : CellId → Prop} {xs : List Datum} :
    (Datum.list xs).Within R ↔ ∀ x ∈ xs, x.Within R := by
  simp only [Within, named, mem_namedAll]
  constructor
  · exact fun h x hx c hc => h c ⟨x, hx, hc⟩
  · rintro h c ⟨x, hx, hc⟩
    exact h x hx c hc

lemma within_tuple {R : CellId → Prop} {xs : List Datum} :
    (Datum.tuple xs).Within R ↔ ∀ x ∈ xs, x.Within R :=
  within_list

end Datum

/-- The head or the tail of a cell, as a turn says. -/
def Cell.part (cell : Cell) : (turn : Bool) → Datum
  | false => cell.head
  | true => cell.tail

namespace Store

variable {s s' s'' : Store} {c : CellId} {cell : Cell} {d x : Datum}

/-! ## Growing -/

/-- The second store has all that the first one has, as it was. -/
structure Grows (s s' : Store) : Prop where
  cells : ∀ (c : CellId) (cell : Cell), s.cells[c]? = some cell → s'.cells[c]? = some cell
  streams : s'.streams = s.streams

lemma Grows.refl (s : Store) : s.Grows s :=
  ⟨fun _ _ h => h, rfl⟩

lemma Grows.trans (h : s.Grows s') (h' : s'.Grows s'') : s.Grows s'' :=
  ⟨fun c cell hget => h'.cells c cell (h.cells c cell hget), h'.streams.trans h.streams⟩

lemma Grows.push (s : Store) (head tail : Datum) (mug : Int) :
    s.Grows (s.push head tail mug).1 := by
  refine ⟨fun c cell hget => ?_, rfl⟩
  obtain ⟨hc, -⟩ := Array.getElem?_eq_some_iff.mp hget
  rw [Store.push, Array.getElem?_push, if_neg (Nat.ne_of_lt hc), hget]

lemma Grows.bitsOf (h : s.Grows s') : s'.bitsOf = s.bitsOf := by
  funext i
  rw [Store.bitsOf, Store.bitsOf, h.streams]

/-- The new cell. -/
lemma push_get (s : Store) (head tail : Datum) (mug : Int) :
    (s.push head tail mug).1.cells[s.cells.size]? =
      some ⟨head, tail, mug, max (s.heightOf head) (s.heightOf tail) + 1⟩ := by
  simp [Store.push]

/-! ## Heights and views -/

lemma heightOf_cell (h : s.cells[c]? = some cell) : s.heightOf (.cell c) = cell.height := by
  simp [heightOf, Datum.height, h]

lemma heightOf_le_of_named (h : c ∈ d.named) : s.heightOf (.cell c) ≤ s.heightOf d :=
  Datum.height_le.mp (le_refl (s.heightOf d)) c h

lemma viewWithin_cell (h : s.cells[c]? = some cell) (fuel : Nat) :
    s.viewWithin (fuel + 1) (.cell c) =
      .cell cell.mug (s.viewWithin fuel cell.head) (s.viewWithin fuel cell.tail) := by
  simp [viewWithin, Datum.spell, h]

lemma heightOf_number {k : Int} (h : d.number? = some k) : s.heightOf d = 0 := by
  cases d with
  | atom _ => rfl
  | flag _ => rfl
  | _ => cases h

lemma viewWithin_number {k : Int} (h : d.number? = some k) (fuel : Nat) :
    (s.viewWithin fuel d).noun? = some (.atom k) := by
  cases d with
  | atom _ => cases h; cases fuel <;> rfl
  | flag _ => cases h; cases fuel <;> rfl
  | _ => cases h

lemma viewWithin_tuple (s : Store) (fuel : Nat) (xs : List Datum) :
    s.viewWithin fuel (.tuple xs) = .tuple (xs.map (s.viewWithin fuel)) := by
  cases fuel <;> simp [viewWithin, Datum.spell, Datum.spellAll_eq_map]

/-- A datum is viewed by viewing the cells that it names. -/
lemma viewWithin_eq_spell (s : Store) (fuel : Nat) (d : Datum) :
    s.viewWithin fuel d =
      d.spell (fun c => s.viewWithin fuel (.cell c)) (fun i => .bits (s.bitsOf i)) := by
  cases fuel <;> rfl

/-! ## Parts -/

/-- The part of a datum that a path leads to. -/
def follow (s : Store) : Datum → Path → Option Datum
  | d, [] => some d
  | .cell c, turn :: path => do s.follow ((← s.cells[c]?).part turn) path
  | _, _ :: _ => none

lemma follow_nil (s : Store) (d : Datum) : s.follow d [] = some d := by
  cases d <;> rfl

lemma follow_cell (h : s.cells[c]? = some cell) (turn : Bool) (path : Path) :
    s.follow (.cell c) (turn :: path) = s.follow (cell.part turn) path := by
  simp [follow, h]

/-- Only cells have parts. -/
lemma follow_cons {turn : Bool} {path : Path} (h : s.follow d (turn :: path) = some x) :
    ∃ c cell, d = .cell c ∧ s.cells[c]? = some cell ∧ s.follow (cell.part turn) path = some x := by
  cases d with
  | cell c =>
      obtain ⟨cell, hget, hpart⟩ := Option.bind_eq_some_iff.mp h
      exact ⟨c, cell, rfl, hget, hpart⟩
  | _ => cases h

lemma follow_append (s : Store) (d : Datum) (path rest : Path) :
    s.follow d (path ++ rest) = (s.follow d path).bind (s.follow · rest) := by
  induction path generalizing d with
  | nil => simp [follow_nil]
  | cons turn path ih =>
      cases d with
      | cell c =>
          cases hget : s.cells[c]? with
          | none => simp [follow, hget]
          | some cell => rw [List.cons_append, follow_cell hget, follow_cell hget, ih]
      | _ => rfl

lemma Grows.follow (h : s.Grows s') {path : Path} (hx : s.follow d path = some x) :
    s'.follow d path = some x := by
  induction path generalizing d with
  | nil => rwa [follow_nil] at hx ⊢
  | cons turn path ih =>
      obtain ⟨c, cell, rfl, hget, hpart⟩ := follow_cons hx
      rw [follow_cell (h.cells c cell hget), ih hpart]

/-- What shows a noun is a number, or a cell whose parts show the parts of the noun. -/
lemma noun?_cases {fuel : Nat} {n : Noun} (hn : (s.viewWithin fuel d).noun? = some n) :
    (∃ k, d.number? = some k ∧ n = .atom k) ∨
      ∃ below c cell h t, fuel = below + 1 ∧ d = .cell c ∧ s.cells[c]? = some cell ∧
        n = .cell h t ∧ (s.viewWithin below cell.head).noun? = some h ∧
          (s.viewWithin below cell.tail).noun? = some t := by
  cases d with
  | atom k =>
      rw [viewWithin_number rfl] at hn
      exact Or.inl ⟨k, rfl, (Option.some.inj hn).symm⟩
  | flag b =>
      rw [viewWithin_number rfl] at hn
      exact Or.inl ⟨_, rfl, (Option.some.inj hn).symm⟩
  | cell c =>
      cases fuel with
      | zero => cases hn
      | succ fuel =>
          cases hget : s.cells[c]? with
          | none => simp [viewWithin, Datum.spell, hget, View.noun?] at hn
          | some cell =>
              rw [viewWithin_cell hget, View.noun?] at hn
              obtain ⟨h, hh, hn⟩ := Option.bind_eq_some_iff.mp hn
              obtain ⟨t, ht, hn⟩ := Option.bind_eq_some_iff.mp hn
              exact Or.inr ⟨fuel, c, cell, h, t, rfl, rfl, hget, (Option.some.inj hn).symm, hh, ht⟩
  | _ => cases fuel <;> cases hn

/-- Every part of what shows a noun shows a noun. -/
lemma noun?_of_follow {path : Path} (hx : s.follow d path = some x) : ∀ {fuel : Nat} {n : Noun},
    (s.viewWithin fuel d).noun? = some n → ∃ fuel' m, (s.viewWithin fuel' x).noun? = some m := by
  induction path generalizing d with
  | nil =>
      intro fuel n hn
      rw [follow_nil] at hx
      cases hx
      exact ⟨fuel, n, hn⟩
  | cons turn path ih =>
      intro fuel n hn
      obtain ⟨c, cell, rfl, hget, hpart⟩ := follow_cons hx
      obtain ⟨k, hk, -⟩ | ⟨below, _, cell', h, t, -, ⟨⟩, hget', -, hh, ht⟩ := noun?_cases hn
      · cases hk
      · cases hget.symm.trans hget'
        cases turn with
        | false => exact ih hpart hh
        | true => exact ih hpart ht

/-! ## Data that look the same from now on -/

/-- The datum keeps its height and its looks when the store grows, and looks the same from every
depth that its height allows. -/
structure Steady (s : Store) (d : Datum) : Prop where
  heightOf_eq : ∀ {s' : Store}, s.Grows s' → s'.heightOf d = s.heightOf d
  viewWithin_eq : ∀ {s' : Store} {fuel : Nat}, s.Grows s' → s.heightOf d ≤ fuel →
    s'.viewWithin fuel d = s.view d

namespace Steady

lemma view_eq (h : s.Steady d) (hs : s.Grows s') : s'.view d = s.view d := by
  rw [view, h.heightOf_eq hs]
  exact h.viewWithin_eq hs le_rfl

lemma later (h : s.Steady d) (hs : s.Grows s') : s'.Steady d := by
  refine ⟨fun hs' => ?_, fun hs' hfuel => ?_⟩
  · rw [h.heightOf_eq (hs.trans hs'), h.heightOf_eq hs]
  · rw [h.heightOf_eq hs] at hfuel
    rw [h.viewWithin_eq (hs.trans hs') hfuel, h.view_eq hs]

/-- What names no cell is steady in every store. -/
lemma of_nameless (h : d.Within fun _ => False) : s.Steady d := by
  refine ⟨fun _ => Datum.height_congr fun c hc => (h c hc).elim, fun hs _ => ?_⟩
  rw [view, viewWithin_eq_spell, viewWithin_eq_spell s, hs.bitsOf]
  exact Datum.spell_congr fun c hc => (h c hc).elim

variable {head tail : Datum} {mug : Int}

/-- A new cell of steady parts shows its parts, from every depth and from now on. -/
lemma viewWithin_push (hh : s.Steady head) (ht : s.Steady tail)
    (hs : (s.push head tail mug).1.Grows s') {fuel : Nat}
    (hfuel : max (s.heightOf head) (s.heightOf tail) + 1 ≤ fuel) :
    s'.viewWithin fuel (.cell s.cells.size) = .cell mug (s.view head) (s.view tail) := by
  have hgrows := (Grows.push s head tail mug).trans hs
  obtain ⟨fuel, rfl⟩ : ∃ f, fuel = f + 1 := ⟨fuel - 1, by omega⟩
  rw [viewWithin_cell (hs.cells _ _ (push_get s head tail mug))]
  rw [hh.viewWithin_eq hgrows (by omega), ht.viewWithin_eq hgrows (by omega)]

lemma view_push (hh : s.Steady head) (ht : s.Steady tail) :
    (s.push head tail mug).1.view (.cell s.cells.size) =
      .cell mug (s.view head) (s.view tail) := by
  rw [view, heightOf_cell (push_get s head tail mug)]
  exact viewWithin_push hh ht (.refl _) le_rfl

lemma push (hh : s.Steady head) (ht : s.Steady tail) :
    (s.push head tail mug).1.Steady (.cell s.cells.size) := by
  have hget := push_get s head tail mug
  refine ⟨fun hs => ?_, fun hs hfuel => ?_⟩
  · rw [heightOf_cell hget, heightOf_cell (hs.cells _ _ hget)]
  · rw [heightOf_cell hget] at hfuel
    rw [viewWithin_push hh ht hs hfuel, view_push hh ht]

end Steady

/-! ## Regular stores -/

/-- What the given cells are made of names only these cells. -/
def Closed (s : Store) (R : CellId → Prop) : Prop :=
  ∀ (c : CellId) (cell : Cell), R c → s.cells[c]? = some cell →
    cell.head.Within R ∧ cell.tail.Within R

lemma Closed.part {R : CellId → Prop} (hs : s.Closed R) (hc : R c) (hget : s.cells[c]? = some cell)
    (turn : Bool) : (cell.part turn).Within R := by
  cases turn with
  | false => exact (hs c cell hc hget).1
  | true => exact (hs c cell hc hget).2

/-- Every name in a cell is the name of a cell, and every cell is higher than its parts.  What the
parts are, and which mugs are remembered, does not matter. -/
structure Regular (s : Store) : Prop where
  closed : s.Closed (· < s.cells.size)
  higher : ∀ (c : CellId) (cell : Cell), s.cells[c]? = some cell →
    s.heightOf cell.head < cell.height ∧ s.heightOf cell.tail < cell.height

namespace Regular

lemma empty : Regular {} :=
  ⟨fun c cell _ hget => by simp at hget, fun c cell hget => by simp at hget⟩

lemma get (hs : s.Regular) (hc : c < s.cells.size) :
    ∃ cell, s.cells[c]? = some cell ∧ 0 < cell.height := by
  have hget : s.cells[c]? = some s.cells[c] := Array.getElem?_eq_getElem hc
  exact ⟨_, hget, Nat.lt_of_le_of_lt (Nat.zero_le _) (hs.higher c _ hget).1⟩

/-- A regular store shows the same from all depths that suffice, also after it has grown. -/
lemma viewWithin_eq (hs : s.Regular) (hgrows : s.Grows s') (fuel : Nat) : ∀ (fuel' : Nat)
    {d : Datum}, d.Within (· < s.cells.size) → s.heightOf d ≤ fuel → s.heightOf d ≤ fuel' →
      s'.viewWithin fuel d = s.viewWithin fuel' d := by
  induction fuel using Nat.strongRecOn with
  | ind fuel ih =>
      intro fuel' d hd hfuel hfuel'
      rw [viewWithin_eq_spell s', viewWithin_eq_spell s fuel' d, hgrows.bitsOf]
      refine Datum.spell_congr fun c hc => ?_
      obtain ⟨cell, hget, hpos⟩ := hs.get (hd c hc)
      have hcell : cell.height ≤ s.heightOf d := by
        rw [← heightOf_cell hget]
        exact heightOf_le_of_named hc
      obtain ⟨below, rfl⟩ : ∃ f, fuel = f + 1 := ⟨fuel - 1, by omega⟩
      obtain ⟨below', rfl⟩ : ∃ f, fuel' = f + 1 := ⟨fuel' - 1, by omega⟩
      obtain ⟨hhead, htail⟩ := hs.closed c cell (hd c hc) hget
      obtain ⟨hlow, hlow'⟩ := hs.higher c cell hget
      rw [viewWithin_cell (hgrows.cells c cell hget), viewWithin_cell hget]
      rw [ih below (Nat.lt_succ_self _) below' hhead (by omega) (by omega),
        ih below (Nat.lt_succ_self _) below' htail (by omega) (by omega)]

/-- In a regular store everything is steady. -/
lemma steady (hs : s.Regular) (hd : d.Within (· < s.cells.size)) : s.Steady d := by
  refine ⟨fun hgrows => Datum.height_congr fun c hc => ?_, fun hgrows hfuel => ?_⟩
  · obtain ⟨cell, hget, -⟩ := hs.get (hd c hc)
    rw [hget, hgrows.cells c cell hget]
  · exact hs.viewWithin_eq hgrows _ _ hd hfuel le_rfl

/-- A new cell of data that are there leaves the store regular. -/
lemma push (hs : s.Regular) {head tail : Datum} (mug : Int) (hh : head.Within (· < s.cells.size))
    (ht : tail.Within (· < s.cells.size)) : (s.push head tail mug).1.Regular := by
  have hsize : (s.push head tail mug).1.cells.size = s.cells.size + 1 := by simp [Store.push]
  have hwider : ∀ {d : Datum}, d.Within (· < s.cells.size) →
      d.Within (· < (s.push head tail mug).1.cells.size) := fun hd c hc => by
    rw [hsize]
    exact Nat.lt_succ_of_lt (hd c hc)
  have hheight : ∀ {d : Datum}, d.Within (· < s.cells.size) →
      (s.push head tail mug).1.heightOf d = s.heightOf d :=
    fun hd => (hs.steady hd).heightOf_eq (.push s head tail mug)
  -- a cell of the store is an old one or the new one
  have hcases : ∀ (c : CellId) (cell : Cell), (s.push head tail mug).1.cells[c]? = some cell →
      s.cells[c]? = some cell ∨
        cell = ⟨head, tail, mug, max (s.heightOf head) (s.heightOf tail) + 1⟩ := by
    intro c cell hget
    rw [Store.push, Array.getElem?_push] at hget
    split_ifs at hget with hc
    · exact Or.inr (Option.some.inj hget).symm
    · exact Or.inl hget
  refine ⟨fun c cell _ hget => ?_, fun c cell hget => ?_⟩
  · rcases hcases c cell hget with hold | rfl
    · obtain ⟨hc, -⟩ := Array.getElem?_eq_some_iff.mp hold
      exact (hs.closed c cell hc hold).imp hwider hwider
    · exact ⟨hwider hh, hwider ht⟩
  · rcases hcases c cell hget with hold | rfl
    · obtain ⟨hc, -⟩ := Array.getElem?_eq_some_iff.mp hold
      obtain ⟨hhead, htail⟩ := hs.closed c cell hc hold
      rw [hheight hhead, hheight htail]
      exact hs.higher c cell hold
    · rw [hheight hh, hheight ht]
      exact ⟨Nat.lt_succ_of_le (Nat.le_max_left _ _), Nat.lt_succ_of_le (Nat.le_max_right _ _)⟩

end Regular

end Store

end Nock
