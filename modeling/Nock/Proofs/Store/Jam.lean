import Nock.Proofs.Jam
import Nock.Proofs.Store.Hash
import Nock.Proofs.Store.Unify
import Nock.Store.Jam

/-!
# Serialising a held noun

Plain nouns are looked up by what they are.  Held cells are looked up by mug, and cells of one mug are
compared, which moves their parts about while the tables fill up.  The tokens are the same
nevertheless: no comparison changes a denotation, equal nouns have equal mugs, and cells of equal mugs
that hold different nouns are told apart.

`Mirrors` ties the two tables together: the positions of a noun in the one are the positions of the
cells that denote it in the other.  Since a noun has one position at most, it does not matter which
of the cells is compared first.
-/

namespace Nock

open StoreM Store

variable {s s' : Store} {ν : Reading} {table : Table} {seen : Jam.Positions}

/-- The table of held nouns says the same as the table of plain ones. -/
structure StoreM.Table.Mirrors (table : Table) (s : Store) (ν : Reading) (seen : Jam.Positions) :
    Prop where
  number : ∀ k : Int, table.numbers.lookup k = seen.lookup (.atom k)
  cell : ∀ h t p, seen.lookup (.cell h t) = some p ↔
    ∃ w ∈ table.cells, ν w.cell = .cell h t ∧ w.position = p
  valid : ∀ w ∈ table.cells, w.cell < s.cells.size ∧ (ν w.cell).mug = .ok w.mug

/-! ## Looking a cell up -/

/-- The first candidate that denotes the same noun is found. -/
lemma firstEqual_spec {c : CellId} : ∀ (candidates : List WrittenCell) {s : Store}, s.Fits ν →
    c < s.cells.size → (∀ w ∈ candidates, w.cell < s.cells.size) →
    (firstEqual c candidates s).1 = (candidates.find? (ν ·.cell = ν c)).map (·.position) ∧
      (firstEqual c candidates s).2.Fits ν ∧
      (firstEqual c candidates s).2.cells.size = s.cells.size
  | [], s, hs, _, _ => ⟨rfl, hs, rfl⟩
  | w :: rest, s, hs, hc, hw => by
      rw [firstEqual]
      by_cases hsame : w.cell = c
      · rw [if_pos hsame, List.find?_cons_of_pos (by simp [hsame])]
        exact ⟨rfl, hs, rfl⟩
      rw [if_neg hsame]
      have hleft : s.Denotes ν (.cell w.cell) (ν w.cell) := ⟨hw w List.mem_cons_self, rfl⟩
      have hright : s.Denotes ν (.cell c) (ν c) := ⟨hc, rfl⟩
      have hanswer := unify_answers hs hleft hright
      rcases hunify : s.unify (.cell w.cell) (.cell c) with ⟨equal, s₁⟩
      rw [hunify] at hanswer
      have hsize : s₁.cells.size = s.cells.size := hanswer.size
      cases equal with
      | true =>
          have hν : ν w.cell = ν c := hanswer.iff.mp rfl
          rw [List.find?_cons_of_pos (by simp [hν])]
          exact ⟨rfl, hanswer.fits, hsize⟩
      | false =>
          have hν : ¬ ν w.cell = ν c := fun h => absurd (hanswer.iff.mpr h) (by simp)
          obtain ⟨hfound, hfits, hsize'⟩ := firstEqual_spec (c := c) rest hanswer.fits
            (by rw [hsize]; exact hc)
            (fun v hv => by rw [hsize]; exact hw v (List.mem_cons_of_mem _ hv))
          rw [List.find?_cons_of_neg (by simpa using hν)]
          exact ⟨hfound, hfits, hsize'.trans hsize⟩

namespace StoreM.Table.Mirrors

lemma mem_cells {mug : Int} {w : WrittenCell} (hw : w ∈ table.candidates mug) :
    w ∈ table.cells := by
  rw [candidates, List.mem_reverse, List.mem_filter] at hw
  exact hw.1

/-- A cell is found at the position of its noun. -/
lemma find?_candidates (hm : table.Mirrors s ν seen) {c : CellId} {h t : Noun}
    (hν : ν c = .cell h t) {mug : Int} (hmug : (ν c).mug = .ok mug) :
    ((table.candidates mug).find? (ν ·.cell = ν c)).map (·.position) = seen.lookup (ν c) := by
  rw [hν] at hmug ⊢
  cases hfind : (table.candidates mug).find? (ν ·.cell = .cell h t) with
  | some w =>
      have hw : ν w.cell = .cell h t := by simpa using List.find?_some hfind
      exact ((hm.cell h t w.position).mpr
        ⟨w, mem_cells (List.mem_of_find?_eq_some hfind), hw, rfl⟩).symm
  | none =>
      cases hlookup : seen.lookup (.cell h t) with
      | none => rfl
      | some p =>
          -- the cell at that position has the same noun, so the same mug: it is a candidate
          obtain ⟨w, hw, hwν, -⟩ := (hm.cell h t p).mp hlookup
          have hwmug := (hm.valid w hw).2
          rw [hwν, hmug] at hwmug
          cases hwmug
          have hcand : w ∈ table.candidates w.mug := by simp [candidates, hw]
          exact absurd hwν (by simpa using List.find?_eq_none.mp hfind w hcand)

lemma enter (hm : table.Mirrors s ν seen) {c : CellId} {h t : Noun} (hc : c < s.cells.size)
    (hν : ν c = .cell h t) {mug : Int} (hmug : (ν c).mug = .ok mug)
    (hnew : seen.lookup (.cell h t) = none) (start : Nat) :
    Mirrors { table with cells := ⟨c, mug, start⟩ :: table.cells } s ν
      ((.cell h t, start) :: seen) := by
  refine ⟨fun k => ?_, fun h' t' p => ?_, fun w hw => ?_⟩
  · rw [List.lookup_cons, show (Noun.atom k == Noun.cell h t) = false from rfl]
    exact hm.number k
  · by_cases hn : Noun.cell h' t' = Noun.cell h t
    · rw [hn, List.lookup_cons_self]
      constructor
      · intro hp
        exact ⟨_, List.mem_cons_self, hν, Option.some.inj hp⟩
      · rintro ⟨w, hw, hwν, rfl⟩
        rcases List.mem_cons.mp hw with rfl | hw
        · rfl
        · rw [(hm.cell h t w.position).mpr ⟨w, hw, hwν, rfl⟩] at hnew
          cases hnew
    · rw [List.lookup_cons, beq_false_of_ne hn, hm.cell h' t' p]
      constructor
      · rintro ⟨w, hw, hwν⟩
        exact ⟨w, List.mem_cons_of_mem _ hw, hwν⟩
      · rintro ⟨w, hw, hwν, hp⟩
        rcases List.mem_cons.mp hw with rfl | hw
        · exact absurd (hwν.symm.trans hν) hn
        · exact ⟨w, hw, hwν, hp⟩
  · rcases List.mem_cons.mp hw with rfl | hw
    · exact ⟨hc, hmug⟩
    · exact hm.valid w hw

lemma enterNumber (hm : table.Mirrors s ν seen) (k : Int) (start : Nat) :
    Mirrors { table with numbers := (k, start) :: table.numbers } s ν
      ((.atom k, start) :: seen) := by
  refine ⟨fun j => ?_, fun h t p => ?_, hm.valid⟩
  · have hbeq : (Noun.atom j == Noun.atom k) = (j == k) := by
      rw [Bool.eq_iff_iff, beq_iff_eq, beq_iff_eq, Noun.atom.injEq]
    rw [List.lookup_cons, List.lookup_cons, hbeq, hm.number j]
  · rw [List.lookup_cons, show (Noun.cell h t == Noun.atom k) = false from rfl]
    exact hm.cell h t p

/-- The tables stay tied when the store changes but keeps its cells. -/
lemma later (hm : table.Mirrors s ν seen) (hsize : s'.cells.size = s.cells.size) :
    table.Mirrors s' ν seen :=
  ⟨hm.number, hm.cell, fun w hw => by rw [hsize]; exact hm.valid w hw⟩

end StoreM.Table.Mirrors

/-- Looking a cell up finds what the plain table has, and otherwise enters the cell. -/
lemma visit_exec (hs : s.Fits ν) (hm : table.Mirrors s ν seen) {c : CellId} {h t : Noun}
    (hc : c < s.cells.size) (hν : ν c = .cell h t) {mug : Int} (hmug : (ν c).mug = .ok mug)
    (start : Nat) :
    ∃ s', s'.Fits ν ∧ s'.cells.size = s.cells.size ∧ exec (visit table start c) s =
      (.ok (match seen.find? (.cell h t) with
        | some p => .written p
        | none => .entered { table with cells := ⟨c, mug, start⟩ :: table.cells }), s') := by
  obtain ⟨s₁, hexec, hs₁, hsize₁⟩ := mug_exec hs (d := .cell c) ⟨hc, rfl⟩
  rw [hmug] at hexec
  have hc₁ : c < s₁.cells.size := by rw [hsize₁]; exact hc
  have hcands : ∀ {s' : Store}, s'.cells.size = s.cells.size →
      ∀ w ∈ table.candidates mug, w.cell < s'.cells.size := fun hsize w hw => by
    rw [hsize]
    exact (hm.valid w (Table.Mirrors.mem_cells hw)).1
  obtain ⟨hfound, hs₂, hsize₂⟩ := firstEqual_spec _ hs₁ hc₁ (hcands hsize₁)
  rw [hm.find?_candidates hν hmug, hν] at hfound
  rw [visit, exec_bind_ok hexec, exec_bind_ok (exec_modifyGet _ s₁), hfound]
  cases hfind : seen.find? (.cell h t) with
  | some p =>
      rw [Jam.Positions.find?] at hfind
      rw [hfind]
      exact ⟨_, hs₂, hsize₂.trans hsize₁, rfl⟩
  | none =>
      rw [Jam.Positions.find?] at hfind
      rw [hfind]
      obtain ⟨-, hs₃, hsize₃⟩ := firstEqual_spec (c := c) _ hs₂ (by rw [hsize₂]; exact hc₁)
        (hcands (hsize₂.trans hsize₁))
      exact ⟨_, hs₃, hsize₃.trans (hsize₂.trans hsize₁), rfl⟩

/-! ## Serialising -/

section

variable {fuel start : Nat} {c : CellId}

lemma run_bind_eq {α β : Type} {x : StateM Store α} {f : α → StateM Store β} {a : α}
    (h : x.run s = (a, s')) : (x >>= f).run s = (f a).run s' := by
  rw [StateT.run_bind, h]
  rfl

lemma run_currentParts {cell : Cell} (h : s.cells[c]? = some cell) :
    (currentParts c).run s = ((cell.head, cell.tail), s) := by
  have hget : (get : StateM Store Store).run s = (s, s) := rfl
  rw [currentParts, run_bind_eq hget, h]
  rfl

lemma encode_written {p : Nat} (hvisit : exec (visit table start c) s = (.ok (.written p), s')) :
    (StoreM.encode (fuel + 1) start table (.cell c)).run s =
      (([.reference p], .ok table), s') := by
  rw [StoreM.encode, run_bind_eq hvisit]
  rfl

lemma encode_entered {s₁ s₂ s₃ : Store} {table₁ table₂ : Table} {cell₁ cell₂ : Cell}
    {first second : List Jam.Token} {outcome : Except Fault Table}
    (hvisit : exec (visit table start c) s = (.ok (.entered table₁), s₁))
    (hcell₁ : s₁.cells[c]? = some cell₁)
    (hhead : (StoreM.encode fuel (start + 2) table₁ cell₁.head).run s₁ =
      ((first, .ok table₂), s₂))
    (hcell₂ : s₂.cells[c]? = some cell₂)
    (htail : (StoreM.encode fuel (start + 2 + (Jam.bits first).length) table₂ cell₂.tail).run s₂ =
      ((second, outcome), s₃)) :
    (StoreM.encode (fuel + 1) start table (.cell c)).run s =
      ((.cell :: (first ++ second), outcome), s₃) := by
  rw [StoreM.encode, run_bind_eq hvisit]
  simp only
  rw [run_bind_eq (run_currentParts hcell₁), run_bind_eq hhead]
  simp only
  rw [run_bind_eq (run_currentParts hcell₂), run_bind_eq htail]
  rfl

end

/-- A number gets the same token on both sides. -/
lemma encodeNumber_mirrors (hm : table.Mirrors s ν seen) (start : Nat) (k : Int) :
    ∃ token table' seen', encodeNumber start table k = (token, table') ∧
      Jam.encode start seen (.atom k) = ([token], seen') ∧ table'.Mirrors s ν seen' := by
  have hnumber : table.number? k = seen.find? (.atom k) := by
    rw [Table.number?, Jam.Positions.find?, hm.number]
  cases hfind : seen.find? (.atom k) with
  | none =>
      refine ⟨.atom k, _, _, ?_, Jam.encode_atom hfind, hm.enterNumber k start⟩
      rw [encodeNumber, hnumber, hfind]
  | some p =>
      refine ⟨Jam.repeatedAtom k p, table, _, ?_, Jam.encode_atom_found hfind, hm⟩
      rw [encodeNumber, hnumber, hfind]

/-- Whatever began at position 0 is higher.  It is the noun as a whole, which is not complete yet. -/
def RootAbove (seen : Jam.Positions) (height : Nat) : Prop :=
  ∀ a, seen.lookup a = some 0 → height < a.height

section

variable {height below : Nat} {n : Noun}

lemma RootAbove.mono (h : RootAbove seen height) (hle : below ≤ height) : RootAbove seen below :=
  fun a ha => lt_of_le_of_lt hle (h a ha)

lemma RootAbove.enter (h : RootAbove seen n.height) (start : Nat) (hbelow : below < n.height) :
    RootAbove ((n, start) :: seen) below := by
  intro a ha
  by_cases han : a = n
  · rw [han]
    exact hbelow
  · rw [List.lookup_cons, beq_false_of_ne han] at ha
    exact lt_trans hbelow (h a ha)

lemma RootAbove.encode (h : RootAbove seen height) {start : Nat} {seen' : Jam.Positions}
    {tokens : List Jam.Token} (he : Jam.encode (start + 2) seen n = (tokens, seen')) :
    RootAbove seen' height := by
  intro a ha
  rcases Jam.lookup_of_encode he ha with ha | hstart
  · exact h a ha
  · omega

/-- A noun below the root that is not found is not in the table. -/
lemma RootAbove.lookup_eq_none (h : RootAbove seen n.height) (hfind : seen.find? n = none) :
    seen.lookup n = none := by
  cases hlookup : seen.lookup n with
  | none => rfl
  | some p =>
      rcases Nat.eq_zero_or_pos p with rfl | hp
      · exact absurd (h n hlookup) (Nat.lt_irrefl _)
      · rw [Jam.Positions.find?, hlookup, Option.filter_some, if_pos (by simp; omega)] at hfind
        cases hfind

end

/-- Serialising a held noun gives the tokens of the noun, and keeps every denotation. -/
lemma encode_mirrors : ∀ (fuel : Nat) {start : Nat} {s : Store} {d : Datum} {n : Noun} {table : Table}
    {seen seen' : Jam.Positions} {tokens : List Jam.Token}, s.Fits ν → s.Denotes ν d n →
    n.Natural → n.height ≤ fuel → table.Mirrors s ν seen → RootAbove seen n.height →
    Jam.encode start seen n = (tokens, seen') →
    ∃ table' s', (StoreM.encode fuel start table d).run s = ((tokens, .ok table'), s') ∧
      s'.Fits ν ∧ s'.cells.size = s.cells.size ∧ table'.Mirrors s' ν seen'
  | fuel, start, s, .atom k, n, table, seen, seen', tokens, hs, hd, _, _, hm, _, he => by
      subst hd
      obtain ⟨token, table', _, hnumber, hplain, hm'⟩ := encodeNumber_mirrors hm start k
      cases hplain.symm.trans he
      refine ⟨table', s, ?_, hs, rfl, hm'⟩
      rw [StoreM.encode, hnumber]
      rfl
  | fuel, start, s, .flag b, n, table, seen, seen', tokens, hs, hd, _, _, hm, _, he => by
      subst hd
      obtain ⟨token, table', _, hnumber, hplain, hm'⟩ := encodeNumber_mirrors hm start (flagNumber b)
      cases hplain.symm.trans he
      refine ⟨table', s, ?_, hs, rfl, hm'⟩
      rw [StoreM.encode, hnumber]
      rfl
  | 0, start, s, .cell c, n, table, seen, seen', tokens, hs, hd, _, hfuel, _, _, _ => by
      obtain ⟨hc, rfl⟩ := hd
      obtain ⟨_, h, t, _, hν, _⟩ := hs.get hc
      simp [hν, Noun.height] at hfuel
  | fuel + 1, start, s, .cell c, n, table, seen, seen', tokens, hs, hd, hn, hfuel, hm, hroot, he => by
      obtain ⟨hc, rfl⟩ := hd
      obtain ⟨mug, hmug⟩ := hn.exists_mug
      obtain ⟨_, h, t, _, hν, _⟩ := hs.get hc
      obtain ⟨s₁, hs₁, hsize₁, hvisit⟩ := visit_exec hs hm hc hν hmug start
      rw [hν] at hn hfuel hroot he
      cases hfind : seen.find? (.cell h t) with
      | some p =>
          cases (Jam.encode_cell_found hfind).symm.trans he
          rw [hfind] at hvisit
          exact ⟨table, s₁, encode_written hvisit, hs₁, hsize₁, hm.later hsize₁⟩
      | none =>
          rw [hfind] at hvisit
          obtain ⟨first, middle, second, hfirst, hsecond, rfl⟩ := Jam.encode_cell hfind he
          have hheight : (Noun.cell h t).height = max h.height t.height + 1 := rfl
          have henter := (hm.enter hc hν hmug (hroot.lookup_eq_none hfind) start).later hsize₁
          have hroot₁ := hroot.enter start (by omega : max h.height t.height < _)
          obtain ⟨cell₁, h₁, t₁, hcell₁, hν₁, hhold₁⟩ := hs₁.get (c := c) (by rw [hsize₁]; exact hc)
          cases hν.symm.trans hν₁
          obtain ⟨table₂, s₂, hrun₂, hs₂, hsize₂, hm₂⟩ := encode_mirrors fuel hs₁ hhold₁.head
            hn.1 (by omega) henter (hroot₁.mono (by omega)) hfirst
          have hroot₂ := (hroot₁.encode hfirst).mono (by omega : t.height ≤ _)
          obtain ⟨cell₂, h₂, t₂, hcell₂, hν₂, hhold₂⟩ := hs₂.get (c := c)
            (by rw [hsize₂, hsize₁]; exact hc)
          cases hν.symm.trans hν₂
          obtain ⟨table₃, s₃, hrun₃, hs₃, hsize₃, hm₃⟩ := encode_mirrors fuel hs₂ hhold₂.tail
            hn.2 (by omega) hm₂ hroot₂ hsecond
          exact ⟨table₃, s₃, encode_entered hvisit hcell₁ hrun₂ hcell₂ hrun₃, hs₃,
            hsize₃.trans (hsize₂.trans hsize₁), hm₃⟩

lemma StoreM.Table.Mirrors.empty (s : Store) (ν : Reading) : Table.Mirrors {} s ν [] := by
  refine ⟨fun k => rfl, fun h t p => ?_, fun w hw => absurd hw List.not_mem_nil⟩
  simp

/-- The tokens of a held noun are the tokens of the noun. -/
lemma jamTokens_run (hs : s.Fits ν) {d : Datum} {n : Noun} (hd : s.Denotes ν d n)
    (hn : n.Natural) :
    ∃ s', (StoreM.jamTokens d).run s = ((n.jamTokens, none), s') ∧ s'.Fits ν ∧
      s'.cells.size = s.cells.size := by
  obtain ⟨table, s', hrun, hs', hsize, -⟩ := encode_mirrors (s.heightOf d) hs hd
    hn (by rw [hs.heightOf_eq hd]) (.empty s ν) (fun a ha => nomatch ha)
    (Prod.eta (Jam.encode 0 [] n)).symm
  refine ⟨s', ?_, hs', hsize⟩
  have hget : (get : StateM Store Store).run s = (s, s) := rfl
  rw [StoreM.jamTokens, run_bind_eq hget, run_bind_eq hrun]
  rfl

/-- The number of a held noun is the number of the noun. -/
lemma jam_exec (hs : s.Fits ν) {d : Datum} {n : Noun} (hd : s.Denotes ν d n) (hn : n.Natural) :
    ∃ s', exec (StoreM.jam d) s = (.ok n.jam, s') ∧ s'.Fits ν ∧ s'.cells.size = s.cells.size := by
  obtain ⟨s', hrun, hs', hsize⟩ := jamTokens_run hs hd hn
  refine ⟨s', ?_, hs', hsize⟩
  have hlift : exec (liftM (StoreM.jamTokens d) : StoreM _) s = (.ok (n.jamTokens, none), s') := by
    rw [exec_lift, hrun]
  have hbits : exec (StoreM.jamBits d) s = (.ok n.jamBits, s') := by
    rw [StoreM.jamBits, exec_bind_ok hlift]
    rfl
  rw [StoreM.jam, exec_bind_ok hbits]
  rfl

end Nock
