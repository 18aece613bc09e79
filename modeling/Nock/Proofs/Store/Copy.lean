import Nock.Proofs.Store.Footprint
import Nock.Proofs.Store.Refinement

/-!
# A copy stands apart

A noun may lie in a store in any way, with cells shared and with any mugs remembered.  Copying it makes
one new cell for every place of the noun that is a cell, head before tail before the cell itself, so
the copy lies in **consecutive** places of the store: first the cells of the head, then those of the
tail, then the root (`Laid`).  Everything about the copy is read off this: that it is a tree and shares
nothing with what was there, that none of its cells remembers a mug, and that it denotes the noun.

Since the cells of the copy name only each other, they are a closed set, and comparing, hashing or
serialising parts of the copy changes nothing else (`Uses.confined`).  This stays so as long as nobody
else changes these cells, whatever happens in the rest of the store.
-/

namespace Nock.Store

open StoreM

variable {s s' : Store} {first next : Nat} {d x : Datum} {n m : Noun}

/-! ## Nouns laid out as trees -/

/-- The noun lies in the cells from `first` on and before `next`, as a tree that remembers no mug, and
the datum is its root. -/
inductive Laid (s : Store) : (first next : Nat) → Datum → Noun → Prop
  | number {first : Nat} {d : Datum} {k : Int} (h : d.number? = some k) :
      Laid s first first d (.atom k)
  | cell {first middle next : Nat} {head tail : Datum} {h t : Noun}
      (hhead : Laid s first middle head h) (htail : Laid s middle next tail t)
      (hget : s.cells[next]? = some ⟨head, tail, 0, (Noun.cell h t).height⟩) :
      Laid s first (next + 1) (.cell next) (.cell h t)

namespace Laid

lemma le (h : s.Laid first next d n) : first ≤ next := by
  induction h with
  | number _ => exact le_rfl
  | cell _ _ _ ihh iht => omega

lemma later (h : s.Laid first next d n) (hs : s.Grows s') : s'.Laid first next d n := by
  induction h with
  | number hk => exact .number hk
  | cell _ _ hget ihh iht => exact .cell ihh iht (hs.cells _ _ hget)

lemma heightOf_eq (h : s.Laid first next d n) : s.heightOf d = n.height := by
  cases h with
  | number hk => rw [heightOf_number hk, Noun.height]
  | cell _ _ hget => rw [heightOf_cell hget]

lemma viewWithin_noun? (h : s.Laid first next d n) :
    ∀ {fuel : Nat}, n.height ≤ fuel → (s.viewWithin fuel d).noun? = some n := by
  induction h with
  | number hk => exact fun _ => viewWithin_number hk _
  | cell _ _ hget ihh iht =>
      intro fuel hfuel
      rw [Noun.height] at hfuel
      obtain ⟨fuel, rfl⟩ : ∃ f, fuel = f + 1 := ⟨fuel - 1, by omega⟩
      rw [viewWithin_cell hget, View.noun?, ihh (by omega), iht (by omega)]
      rfl

lemma noun?_eq (h : s.Laid first next d n) : s.noun? d = some n := by
  rw [noun?, view, h.heightOf_eq]
  exact h.viewWithin_noun? le_rfl

/-- What a path leads to is laid out inside. -/
lemma follow (h : s.Laid first next d n) : ∀ {path : Path}, s.follow d path = some x →
    ∃ first' next' m, first ≤ first' ∧ next' ≤ next ∧ s.Laid first' next' x m := by
  induction h with
  | @number first d k hk =>
      intro path hx
      cases path with
      | nil =>
          rw [follow_nil] at hx
          cases hx
          exact ⟨first, first, _, le_rfl, le_rfl, .number hk⟩
      | cons turn path =>
          obtain ⟨c, _, rfl, -⟩ := follow_cons hx
          cases hk
  | @cell first middle next head tail h t hhead htail hget ihh iht =>
      intro path hx
      have hle := hhead.le
      have hle' := htail.le
      cases path with
      | nil =>
          rw [follow_nil] at hx
          cases hx
          exact ⟨first, next + 1, _, le_rfl, le_rfl, .cell hhead htail hget⟩
      | cons turn path =>
          rw [follow_cell hget] at hx
          cases turn with
          | false =>
              obtain ⟨first', next', m, hfirst, hnext, hpart⟩ := ihh hx
              exact ⟨first', next', m, hfirst, by omega, hpart⟩
          | true =>
              obtain ⟨first', next', m, hfirst, hnext, hpart⟩ := iht hx
              exact ⟨first', next', m, by omega, by omega, hpart⟩

/-- The cells that paths lead to are among those laid out, and remember no mug. -/
lemma of_follow_cell (h : s.Laid first next d n) {path : Path} {c : Nat}
    (hc : s.follow d path = some (.cell c)) :
    first ≤ c ∧ c < next ∧ ∃ cell, s.cells[c]? = some cell ∧ cell.mug = 0 := by
  obtain ⟨first', next', m, hfirst, hnext, hpart⟩ := h.follow hc
  cases hpart with
  | number hk => cases hk
  | cell hhead htail hget =>
      have hle := hhead.le
      have hle' := htail.le
      exact ⟨by omega, by omega, _, hget, rfl⟩

/-- Two paths never lead to one cell. -/
lemma path_unique (h : s.Laid first next d n) : ∀ {p q : Path} {c : Nat},
    s.follow d p = some (.cell c) → s.follow d q = some (.cell c) → p = q := by
  induction h with
  | number hk =>
      intro p q c hp
      cases p with
      | nil =>
          rw [follow_nil] at hp
          cases hp
          cases hk
      | cons turn p =>
          obtain ⟨_, _, rfl, -⟩ := follow_cons hp
          cases hk
  | @cell first middle next head tail h t hhead htail hget ihh iht =>
      intro p q c hp hq
      -- the head lies before the tail, and both before the root
      have hroot : s.follow (.cell next) [] = some (.cell c) → c = next := fun hr => by
        rw [follow_nil] at hr
        cases hr
        rfl
      have hbelow : ∀ {turn r}, s.follow (.cell next) (turn :: r) = some (.cell c) →
          (turn = false ∧ c < middle ∧ s.follow head r = some (.cell c)) ∨
            (turn = true ∧ middle ≤ c ∧ c < next ∧ s.follow tail r = some (.cell c)) := by
        intro turn r hr
        rw [follow_cell hget] at hr
        cases turn with
        | false => exact Or.inl ⟨rfl, (hhead.of_follow_cell hr).2.1, hr⟩
        | true =>
            obtain ⟨hle, hlt, -⟩ := htail.of_follow_cell hr
            exact Or.inr ⟨rfl, hle, hlt, hr⟩
      have hle := htail.le
      cases p with
      | nil =>
          have hc := hroot hp
          cases q with
          | nil => rfl
          | cons turn q =>
              obtain ⟨-, hlt, -⟩ | ⟨-, -, hlt, -⟩ := hbelow hq <;> omega
      | cons turn p =>
          cases q with
          | nil =>
              have hc := hroot hq
              obtain ⟨-, hlt, -⟩ | ⟨-, -, hlt, -⟩ := hbelow hp <;> omega
          | cons turn' q =>
              obtain ⟨rfl, hlt, hp⟩ | ⟨rfl, hge, -, hp⟩ := hbelow hp <;>
                obtain ⟨rfl, hlt', hq⟩ | ⟨rfl, hge', -, hq⟩ := hbelow hq
              · rw [ihh hp hq]
              · omega
              · omega
              · rw [iht hp hq]

end Laid

/-- The cells that paths from the datum lead to. -/
def CellsOf (s : Store) (d : Datum) (c : CellId) : Prop :=
  ∃ path, s.follow d path = some (.cell c)

lemma Laid.within (h : s.Laid first next d n) {path : Path} (hx : s.follow d path = some x) :
    x.Within (s.CellsOf d) := by
  obtain ⟨_, _, _, -, -, hpart⟩ := h.follow hx
  cases hpart with
  | number hk => exact Datum.within_of_number hk
  | cell _ _ _ => exact Datum.within_cell.mpr ⟨path, hx⟩

/-- The cells of a noun that is laid out name only each other. -/
lemma Laid.closed (h : s.Laid first next d n) : s.Closed (s.CellsOf d) := by
  rintro c cell ⟨path, hpath⟩ hget
  have hpart : ∀ turn, s.follow d (path ++ [turn]) = some (cell.part turn) := fun turn => by
    rw [follow_append, hpath, Option.bind_some, follow_cell hget, follow_nil]
  exact ⟨h.within (hpart false), h.within (hpart true)⟩

/-! ## Copying -/

lemma exec_copyWithin_number {k : Int} (h : d.number? = some k) (fuel : Nat) (s : Store) :
    exec (copyWithin fuel d) s = (.ok d, s) := by
  cases d with
  | atom _ => cases fuel <;> rfl
  | flag _ => cases fuel <;> rfl
  | _ => cases h

/-- A copy is laid out behind everything that was there. -/
lemma copyWithin_laid : ∀ (fuel : Nat) {s₀ s : Store} {d : Datum} {n : Noun}, s₀.Grows s →
    (s₀.viewWithin fuel d).noun? = some n →
      ∃ copied s', exec (copyWithin fuel d) s = (.ok copied, s') ∧ s.Grows s' ∧
        s'.Laid s.cells.size s'.cells.size copied n := by
  -- the noun is seen in `s₀` all along, while the copies made so far have made it grow to `s`
  intro fuel
  induction fuel with
  | zero =>
      intro s₀ s d n _ hn
      obtain ⟨k, hk, rfl⟩ | ⟨_, _, _, _, _, hfuel, -⟩ := noun?_cases hn
      · exact ⟨d, s, exec_copyWithin_number hk 0 s, .refl s, .number hk⟩
      · omega
  | succ fuel ih =>
      intro s₀ s d n hs hn
      obtain ⟨k, hk, rfl⟩ | ⟨_, c, cell, h, t, ⟨⟩, rfl, hget, rfl, hh, ht⟩ := noun?_cases hn
      · exact ⟨d, s, exec_copyWithin_number hk (fuel + 1) s, .refl s, .number hk⟩
      obtain ⟨head, s₁, hexec₁, hgrows₁, hlaid₁⟩ := ih hs hh
      obtain ⟨tail, s₂, hexec₂, hgrows₂, hlaid₂⟩ := ih (hs.trans hgrows₁) ht
      have hgrows₃ := Grows.push s₂ head tail 0
      refine ⟨.cell s₂.cells.size, (s₂.push head tail 0).1, ?_,
        (hgrows₁.trans hgrows₂).trans hgrows₃, ?_⟩
      · rw [exec_copyWithin_cell (hs.cells c cell hget), exec_bind_ok hexec₁, exec_bind_ok hexec₂]
        rfl
      · have hlaid₁ := hlaid₁.later hgrows₂
        have hroot := push_get s₂ head tail 0
        rw [hlaid₁.heightOf_eq, hlaid₂.heightOf_eq] at hroot
        have hsize : (s₂.push head tail 0).1.cells.size = s₂.cells.size + 1 := by
          simp [Store.push]
        rw [hsize]
        exact .cell (hlaid₁.later hgrows₃) (hlaid₂.later hgrows₃) hroot

/-! ## Using a copy -/

/-- A comparison, hashing or serialisation of parts of the datum leads from the one store to the
other. -/
inductive Uses (d : Datum) (s : Store) : Store → Prop
  | same {p q : Path} {a b : Datum} (ha : s.follow d p = some a) (hb : s.follow d q = some b) :
      Uses d s (exec (StoreM.same a b) s).2
  | hash {p : Path} {a : Datum} (ha : s.follow d p = some a) : Uses d s (exec (StoreM.hash a) s).2
  | jam {p : Path} {a : Datum} (ha : s.follow d p = some a) : Uses d s (exec (StoreM.jam a) s).2

variable {R : CellId → Prop}

/-- The parts of a datum lie within a closed set if it does. -/
lemma Closed.follow (hs : s.Closed R) (hd : d.Within R) {path : Path}
    (hx : s.follow d path = some x) : x.Within R := by
  induction path generalizing d with
  | nil =>
      rw [follow_nil] at hx
      cases hx
      exact hd
  | cons turn path ih =>
      obtain ⟨c, cell, rfl, hget, hpart⟩ := follow_cons hx
      exact ih (hs.part (Datum.within_cell.mp hd) hget turn) hpart

/-- Using parts of a datum within a closed set changes nothing outside. -/
lemma Uses.confined (h : Uses d s s') (hs : s.Closed R) (hd : d.Within R) : Confined R s s' := by
  cases h with
  | same ha hb => exact (same_acts (hs.follow hd ha) (hs.follow hd hb) s hs).1
  | hash ha => exact (hash_acts (hs.follow hd ha) s hs).1
  | jam ha => exact (jam_acts (hs.follow hd ha) s hs).1

/-- What happens while a datum is only used: its parts are, or else the given cells stay as they
are. -/
def Proceeds (R : CellId → Prop) (d : Datum) (s s' : Store) : Prop :=
  Uses d s s' ∨ ∀ c, R c → s'.cells[c]? = s.cells[c]?

/-- A closed set stays closed meanwhile. -/
lemma Closed.proceeds (hs : s.Closed R) (hd : d.Within R)
    (h : Relation.ReflTransGen (Proceeds R d) s s') : s'.Closed R := by
  induction h with
  | refl => exact hs
  | tail _ hstep ih =>
      rcases hstep with huse | hkept
      · exact (huse.confined ih hd).closed
      · intro c cell hc hget
        rw [hkept c hc] at hget
        exact ih c cell hc hget

/-- In the later store the copy has nothing in common with the original, which is as it was in the
earlier one, and nothing that is done with the copy alone will change that. -/
structure StandsApart (original copied : Datum) (s s' : Store) : Prop where
  /-- Everything that was there is there as it was. -/
  kept : s.Grows s'
  /-- The cells of the copy were not there before. -/
  made : ∀ c, s'.CellsOf copied c → s.cells.size ≤ c
  /-- None of them remembers a mug. -/
  no_mug : ∀ c, s'.CellsOf copied c → ∃ cell, s'.cells[c]? = some cell ∧ cell.mug = 0
  /-- The copy is a tree: each of its cells is in one place. -/
  tree : ∀ p q c, s'.follow copied p = some (.cell c) → s'.follow copied q = some (.cell c) → p = q
  /-- No cell of the original is a cell of the copy. -/
  disjoint : ∀ c, s.CellsOf original c → ¬s'.CellsOf copied c
  /-- Using the copy, now or later, changes no cell but those of the copy. -/
  uses : ∀ t t', Relation.ReflTransGen (Proceeds (s'.CellsOf copied) copied) s' t →
    Uses copied t t' → ∀ c, ¬s'.CellsOf copied c → t'.cells[c]? = t.cells[c]?

/-- A noun that is laid out behind everything else stands apart. -/
lemma Laid.standsApart (hkept : s.Grows s') (h : s'.Laid s.cells.size next x n)
    (hd : s.noun? d = some m) : StandsApart d x s s' where
  kept := hkept
  made := by
    rintro c ⟨path, hpath⟩
    exact (h.of_follow_cell hpath).1
  no_mug := by
    rintro c ⟨path, hpath⟩
    exact (h.of_follow_cell hpath).2.2
  tree := fun _ _ _ => h.path_unique
  disjoint := by
    rintro c ⟨path, hpath⟩ ⟨path', hpath'⟩
    obtain ⟨_, _, hshown⟩ := noun?_of_follow hpath hd
    obtain ⟨k, hk, -⟩ | ⟨_, _, _, _, _, -, ⟨⟩, hget, -⟩ := noun?_cases hshown
    · cases hk
    · have hold := (Array.getElem?_eq_some_iff.mp hget).1
      exact absurd (h.of_follow_cell hpath').1 (Nat.not_le.mpr hold)
  uses := by
    intro t t' hlater huse c hc
    have hwithin := h.within (follow_nil s' x)
    exact (huse.confined (h.closed.proceeds hwithin hlater) hwithin).kept c hc

/-- **A copy stands apart.**  Whatever the cells of the store share, and whatever mugs they remember,
copying what denotes a noun succeeds, and the copy denotes the same noun and has nothing in common with
anything that was there. -/
theorem copy_stands_apart (hd : s.noun? d = some n) :
    ∃ copied s', exec (StoreM.copy d) s = (.ok copied, s') ∧ s'.noun? copied = some n ∧
      StandsApart d copied s s' := by
  obtain ⟨copied, s', hexec, hgrows, hlaid⟩ := copyWithin_laid _ (.refl s) hd
  exact ⟨copied, s', (exec_bind_ok (exec_get s)).trans hexec, hlaid.noun?_eq,
    hlaid.standsApart hgrows hd⟩

/-- One cell is the head and the tail of another, and both remember mugs that are not theirs. -/
def twice : Store :=
  ⟨#[⟨.atom 1, .atom 2, 77, 1⟩, ⟨.cell 0, .cell 0, 5, 2⟩], #[]⟩

theorem copy_stands_apart_twice :
    twice.noun? (.cell 1) = some (.cell (.cell (.atom 1) (.atom 2)) (.cell (.atom 1) (.atom 2))) ∧
      ∃ copied s', exec (StoreM.copy (.cell 1)) twice = (.ok copied, s') ∧
        s'.noun? copied = some (.cell (.cell (.atom 1) (.atom 2)) (.cell (.atom 1) (.atom 2))) ∧
          StandsApart (.cell 1) copied twice s' :=
  ⟨rfl, copy_stands_apart rfl⟩

end Nock.Store
