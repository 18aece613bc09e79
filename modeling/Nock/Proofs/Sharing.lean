import Mathlib.Data.Finset.Card
import Mathlib.Data.List.Pairwise
import Nock.Proofs.Path
import Nock.Proofs.Store.Streams

/-!
# Every cell is written once

The tokens of a noun say by themselves which part each of them is for: a cell in full is followed by
its head and its tail, and any other token stands for the whole of its part.  `Noun.places` reads them
so, and gives each token its path and the position of its bits.

**Writing case by case.**  `Writes` is what serialising does, with the table asked directly.  The test
for position 0 is gone: what stands at 0 is the noun as a whole, which is higher than the part at hand
(`writes_encode`).  Everything else is an induction over `Writes`.

**What the table knows.**  When the part at a path is about to be written, the table lists the nouns
at the earlier paths, no more and no less (`Reaches`).  A part that the table knows can be skipped:
all of its own parts occurred earlier as well (`Writes.lists`).

So a part is in full exactly at its first occurrence (`Noun.place_cases`), and what a later one refers
to is complete, since the paths inside it come before the later occurrence (`CellsOnce.complete`).
-/

namespace Nock

open StoreM Store

namespace Jam

/-! ## Places of tokens -/

/-- A token, the path to the part that it is for, and the position of its first bit. -/
structure Place where
  path : Path
  position : Nat
  token : Token
  deriving DecidableEq, Repr

/-- The position after the last bit. -/
def Place.stop (e : Place) : Nat :=
  e.position + e.token.bits.length

/-- One place comes before another, head before tail, and its bits end before those of the other. -/
def Place.Before (e f : Place) : Prop :=
  e.path < f.path ∧ e.stop ≤ f.position

@[simp] lemma Token.length_bits_cell : Token.cell.bits.length = 2 := rfl

/-- The paths to the parts that a token leaves to be written. -/
def Token.opens (path : Path) : Token → List Path
  | .cell => [path ++ [false], path ++ [true]]
  | .atom _ => []
  | .reference _ => []

/-- The places of tokens from a position on, given the paths to the parts that are to be written. -/
def places : (position : Nat) → (pending : List Path) → List Token → List Place
  | _, _, [] => []
  | _, [], _ :: _ => []
  | position, path :: pending, token :: tokens =>
      ⟨path, position, token⟩ ::
        places (position + token.bits.length) (token.opens path ++ pending) tokens

/-- The bits of a token are found at its position. -/
lemma bits_of_mem_places {e : Place} {position : Nat} {pending : List Path} {tokens : List Token}
    (he : e ∈ places position pending tokens) :
    position ≤ e.position ∧ e.token.bits <+: (bits tokens).drop (e.position - position) := by
  induction tokens generalizing position pending with
  | nil => simp [places] at he
  | cons token tokens ih =>
      cases pending with
      | nil => simp [places] at he
      | cons path pending =>
          rw [places, List.mem_cons] at he
          rcases he with rfl | he
          · simp
          · obtain ⟨hle, hbits⟩ := ih he
            refine ⟨by omega, ?_⟩
            rw [bits_cons, show e.position - position
              = token.bits.length + (e.position - (position + token.bits.length)) by omega,
              List.drop_length_add_append]
            exact hbits

/-- One token ends before the next begins. -/
lemma places_pairwise_stop (position : Nat) (pending : List Path) (tokens : List Token) :
    (places position pending tokens).Pairwise (·.stop ≤ ·.position) := by
  induction tokens generalizing position pending with
  | nil => simp [places]
  | cons token tokens ih =>
      cases pending with
      | nil => simp [places]
      | cons path pending =>
          rw [places, List.pairwise_cons]
          exact ⟨fun e he => (bits_of_mem_places he).1, ih _ _⟩

end Jam

namespace Noun

/-- The token of a noun in full. -/
def opening : Noun → Jam.Token
  | .atom k => .atom k
  | .cell _ _ => .cell

/-- The token of a noun that began at a position. -/
def repeated (position : Nat) : Noun → Jam.Token
  | .atom k => Jam.repeatedAtom k position
  | .cell _ _ => .reference position

end Noun

namespace Jam

lemma repeated_ne_cell (n : Noun) (p : Nat) : n.repeated p ≠ .cell := by
  cases n with
  | atom k =>
      rw [Noun.repeated, repeatedAtom]
      split_ifs <;> simp
  | cell hd tl => simp [Noun.repeated]

lemma eq_of_repeated_eq_reference {n : Noun} {p q : Nat} (h : n.repeated p = .reference q) :
    p = q := by
  cases n with
  | atom k =>
      rw [Noun.repeated, repeatedAtom] at h
      split_ifs at h
      simpa using h
  | cell hd tl => simpa [Noun.repeated] using h

@[simp] lemma opens_repeated (n : Noun) (p : Nat) (path : Path) :
    (n.repeated p).opens path = [] := by
  cases htoken : n.repeated p with
  | cell => exact absurd htoken (repeated_ne_cell n p)
  | atom k => rfl
  | reference q => rfl

/-! ## Writing, case by case -/

/-- What the tokens of a noun are and what they add to the table: the noun is in the table, or it is
entered and written in full. -/
inductive Writes : (start : Nat) → (seen : Positions) → Noun → List Token → Positions → Prop
  | again {start : Nat} {seen : Positions} {n : Noun} {p : Nat} (hp : 0 < p)
      (known : seen.lookup n = some p) : Writes start seen n [n.repeated p] seen
  | atom {start : Nat} {seen : Positions} {k : Int} (new : seen.lookup (.atom k) = none) :
      Writes start seen (.atom k) [.atom k] ((.atom k, start) :: seen)
  | cell {start : Nat} {seen middle seen' : Positions} {hd tl : Noun} {first second : List Token}
      (new : seen.lookup (.cell hd tl) = none)
      (head : Writes (start + 2) ((.cell hd tl, start) :: seen) hd first middle)
      (tail : Writes (start + 2 + (bits first).length) middle tl second seen') :
      Writes start seen (.cell hd tl) (.cell :: (first ++ second)) seen'

lemma find?_eq_some_iff {seen : Positions} {n : Noun} {p : Nat} :
    seen.find? n = some p ↔ 0 < p ∧ seen.lookup n = some p := by
  rw [Positions.find?, Option.filter_eq_some_iff]
  simp [Nat.pos_iff_ne_zero, and_comm]

/-- A noun is written in one of these ways, as long as no noun of its height began at 0. -/
lemma writes_encode {start : Nat} {seen seen' : Positions} {n : Noun} {tokens : List Token}
    (hroot : RootAbove seen n.height) (he : encode start seen n = (tokens, seen')) :
    Writes start seen n tokens seen' := by
  induction n generalizing start seen seen' tokens with
  | atom k =>
      cases hfind : seen.find? (.atom k) with
      | none =>
          cases (encode_atom hfind).symm.trans he
          exact .atom (hroot.lookup_eq_none hfind)
      | some p =>
          cases (encode_atom_found hfind).symm.trans he
          obtain ⟨hp, hknown⟩ := find?_eq_some_iff.mp hfind
          exact .again hp hknown
  | cell hd tl ihHead ihTail =>
      cases hfind : seen.find? (.cell hd tl) with
      | none =>
          obtain ⟨first, middle, second, hfirst, hsecond, rfl⟩ := encode_cell hfind he
          have hheight : (Noun.cell hd tl).height = max hd.height tl.height + 1 := rfl
          have hinside := hroot.enter start (by omega : max hd.height tl.height < _)
          refine .cell (hroot.lookup_eq_none hfind) (ihHead (hinside.mono (by omega)) hfirst) ?_
          exact ihTail ((hinside.encode hfirst).mono (by omega)) hsecond
      | some p =>
          cases (encode_cell_found hfind).symm.trans he
          obtain ⟨hp, hknown⟩ := find?_eq_some_iff.mp hfind
          exact .again hp hknown

/-- A new entry is found if it is asked for, and does not hide others. -/
lemma lookup_enter {seen : Positions} {m n : Noun} {start p : Nat} :
    List.lookup m ((n, start) :: seen) = some p ↔
      (m = n ∧ start = p) ∨ (m ≠ n ∧ seen.lookup m = some p) := by
  by_cases hm : m = n
  · simp [hm]
  · simp [List.lookup_cons, beq_false_of_ne hm, hm]

lemma lookup_enter_of_new {seen : Positions} {m n : Noun} {start p : Nat}
    (hnew : seen.lookup n = none) (hm : seen.lookup m = some p) :
    List.lookup m ((n, start) :: seen) = some p := by
  refine lookup_enter.mpr (Or.inr ⟨?_, hm⟩)
  rintro rfl
  simp [hnew] at hm

namespace Writes

variable {start p : Nat} {seen seen' : Positions} {n a : Noun} {tokens : List Token}

/-- An entry of the table stays. -/
lemma lookup_mono (hw : Writes start seen n tokens seen') (ha : seen.lookup a = some p) :
    seen'.lookup a = some p := by
  induction hw with
  | again _ _ => exact ha
  | atom new => exact lookup_enter_of_new new ha
  | cell new _ _ ihHead ihTail => exact ihTail (ihHead (lookup_enter_of_new new ha))

/-! ## The places of one part -/

lemma places_append (hw : Writes start seen n tokens seen') (position : Nat) (path : Path)
    (pending : List Path) (rest : List Token) :
    places position (path :: pending) (tokens ++ rest)
      = places position [path] tokens
        ++ places (position + (bits tokens).length) pending rest := by
  induction hw generalizing position path pending rest with
  | again _ _ => simp [places]
  | atom _ => simp [places, Token.opens]
  | cell _ _ _ ihHead ihTail =>
      simp [places, Token.opens, ihHead, ihTail, Nat.add_assoc]

/-- The places of a cell in full: the cell, its head and its tail. -/
lemma places_cell {middle : Positions} {hd : Noun} {first second : List Token}
    (hw : Writes start seen hd first middle) (position : Nat) (path : Path) :
    places position [path] (.cell :: (first ++ second))
      = ⟨path, position, .cell⟩ :: (places (position + 2) [path ++ [false]] first
        ++ places (position + 2 + (bits first).length) [path ++ [true]] second) := by
  rw [places, Token.opens, List.append_nil, hw.places_append]
  rfl

/-- Without paths and positions, the tokens are left. -/
lemma map_token_places (hw : Writes start seen n tokens seen') (position : Nat) (path : Path) :
    (places position [path] tokens).map (·.token) = tokens := by
  induction hw generalizing position path with
  | again _ _ => simp [places]
  | atom _ => simp [places]
  | cell _ head _ ihHead ihTail => simp [head.places_cell, ihHead, ihTail]

variable {position : Nat} {path : Path}

/-- The places of a part lie inside it. -/
lemma prefix_of_mem_places (hw : Writes start seen n tokens seen') {e : Place}
    (he : e ∈ places position [path] tokens) : path <+: e.path := by
  induction hw generalizing position path with
  | again _ _ => simp_all [places]
  | atom _ => simp_all [places]
  | cell _ head _ ihHead ihTail =>
      simp only [head.places_cell, List.mem_cons, List.mem_append] at he
      rcases he with rfl | he | he
      · exact List.prefix_rfl
      · exact (List.prefix_append path _).trans (ihHead he)
      · exact (List.prefix_append path _).trans (ihTail he)

/-- The places of a part are in order, head before tail. -/
lemma places_pairwise_lt (hw : Writes start seen n tokens seen') :
    (places position [path] tokens).Pairwise (·.path < ·.path) := by
  induction hw generalizing position path with
  | again _ _ => simp [places]
  | atom _ => simp [places]
  | cell _ head tail ihHead ihTail =>
      rw [head.places_cell, List.pairwise_cons, List.pairwise_append]
      refine ⟨fun e he => ?_, ihHead, ihTail, fun e he f hf => ?_⟩
      · rcases List.mem_append.mp he with he | he
        · exact Path.lt_of_concat_prefix (head.prefix_of_mem_places he)
        · exact Path.lt_of_concat_prefix (tail.prefix_of_mem_places he)
      · obtain ⟨rest, hrest⟩ := head.prefix_of_mem_places he
        obtain ⟨rest', hrest'⟩ := tail.prefix_of_mem_places hf
        rw [← hrest, ← hrest']
        refine Path.append_lt_append (Path.lt_concat_true.mpr ?_) (by simp) rest rest'
        exact Or.inr (Or.inr List.prefix_rfl)

/-- Every part of the noun has a place, or lies in a part whose token stands for the whole of it. -/
lemma exists_place (hw : Writes start seen n tokens seen') {rest : Path}
    (hwalk : n.walk rest ≠ none) :
    ∃ e ∈ places position [path] tokens, e.path <+: path ++ rest ∧
      (e.path = path ++ rest ∨ e.token ≠ .cell) := by
  induction hw generalizing position path rest with
  | @again _ _ n p _ _ =>
      refine ⟨_, List.mem_singleton_self _, List.prefix_append _ _, Or.inr ?_⟩
      exact repeated_ne_cell n p
  | atom _ => exact ⟨_, List.mem_singleton_self _, List.prefix_append _ _, Or.inr (by simp)⟩
  | cell _ head _ ihHead ihTail =>
      rw [head.places_cell]
      rcases rest with _ | ⟨_ | _, rest⟩
      · exact ⟨_, List.mem_cons_self, by simp⟩
      · obtain ⟨e, he, hpath⟩ := ihHead (by simpa using hwalk)
        refine ⟨e, List.mem_cons_of_mem _ (List.mem_append_left _ he), ?_⟩
        simpa using hpath
      · obtain ⟨e, he, hpath⟩ := ihTail (by simpa using hwalk)
        refine ⟨e, List.mem_cons_of_mem _ (List.mem_append_right _ he), ?_⟩
        simpa using hpath

end Writes

/-! ## What the table knows -/

/-- The table knows the nouns at these paths of the root, and no others. -/
def Lists (root : Noun) (seen : Positions) (done : Path → Prop) : Prop :=
  ∀ m, (∃ p, seen.lookup m = some p) ↔ ∃ path, done path ∧ root.walk path = some m

lemma Lists.congr {root : Noun} {seen : Positions} {done done' : Path → Prop}
    (hlists : Lists root seen done) (hdone : ∀ path, done path ↔ done' path) :
    Lists root seen done' := by
  intro m
  simp only [hlists m, hdone]

/-- The part at a path is to be written, and the table knows what occurs before. -/
structure Reaches (root : Noun) (seen : Positions) (path : Path) (n : Noun) : Prop where
  walk : root.walk path = some n
  lists : Lists root seen (· < path)

namespace Reaches

variable {root n hd tl : Noun} {seen middle : Positions} {path : Path}

lemma nil (n : Noun) : Reaches n [] [] n where
  walk := Noun.walk_nil n
  lists := by simp [Lists]

/-- A noun that the table does not know occurs for the first time. -/
lemma firstAt (hr : Reaches root seen path n) (hnew : seen.lookup n = none) :
    root.FirstAt n path := by
  refine ⟨hr.walk, fun other hother => not_lt.mp fun hlt => ?_⟩
  obtain ⟨p, hp⟩ := (hr.lists n).mpr ⟨other, hlt, hother⟩
  simp [hnew] at hp

lemma enter (hr : Reaches root seen path n) (start : Nat) :
    Lists root ((n, start) :: seen) fun other => other < path ∨ other = path := by
  intro m
  simp only [lookup_enter]
  constructor
  · rintro ⟨p, ⟨rfl, -⟩ | ⟨-, hp⟩⟩
    · exact ⟨path, Or.inr rfl, hr.walk⟩
    · obtain ⟨other, hlt, hother⟩ := (hr.lists m).mp ⟨p, hp⟩
      exact ⟨other, Or.inl hlt, hother⟩
  · rintro ⟨other, hother, hm⟩
    by_cases hmn : m = n
    · exact ⟨start, Or.inl ⟨hmn, rfl⟩⟩
    · rcases hother with hlt | rfl
      · obtain ⟨p, hp⟩ := (hr.lists m).mpr ⟨other, hlt, hm⟩
        exact ⟨p, Or.inr ⟨hmn, hp⟩⟩
      · exact absurd (Option.some.inj (hm.symm.trans hr.walk)) hmn

lemma head (hr : Reaches root seen path (.cell hd tl)) (start : Nat) :
    Reaches root ((.cell hd tl, start) :: seen) (path ++ [false]) hd where
  walk := by simp [Noun.walk_append, hr.walk]
  lists := (hr.enter start).congr fun _ => Path.lt_concat_false.symm

lemma tail (hr : Reaches root seen path (.cell hd tl))
    (hmiddle : Lists root middle fun other => other < path ++ [false] ∨ path ++ [false] <+: other) :
    Reaches root middle (path ++ [true]) tl where
  walk := by simp [Noun.walk_append, hr.walk]
  lists := by
    refine hmiddle.congr fun other => ?_
    rw [Path.lt_concat_false, Path.lt_concat_true, or_assoc]

end Reaches

namespace Writes

variable {start p : Nat} {seen seen' : Positions} {root n m : Noun} {tokens : List Token}
  {path : Path}

/-- After a part is written, the table knows what is inside it as well. -/
lemma lists (hw : Writes start seen n tokens seen') (hr : Reaches root seen path n) :
    Lists root seen' fun other => other < path ∨ path <+: other := by
  induction hw generalizing path with
  | @again _ _ n p _ known =>
      intro m
      rw [hr.lists m]
      constructor
      · rintro ⟨other, hlt, hother⟩
        exact ⟨other, Or.inl hlt, hother⟩
      · rintro ⟨other, hlt | ⟨rest, rfl⟩, hother⟩
        · exact ⟨other, hlt, hother⟩
        · -- the same part of the earlier occurrence
          obtain ⟨earlier, hlt, hearlier⟩ := (hr.lists n).mp ⟨p, known⟩
          have hapart := Noun.not_prefix_of_walk hearlier hr.walk hlt.ne
          refine ⟨earlier ++ rest, by simpa using Path.append_lt_append hlt hapart rest [], ?_⟩
          rwa [Noun.walk_append, hearlier, ← hr.walk, ← Noun.walk_append]
  | @atom start _ k _ =>
      intro m
      rw [hr.enter start m]
      constructor
      · rintro ⟨other, hlt | rfl, hother⟩
        · exact ⟨other, Or.inl hlt, hother⟩
        · exact ⟨other, Or.inr List.prefix_rfl, hother⟩
      · rintro ⟨other, hlt | ⟨rest, rfl⟩, hother⟩
        · exact ⟨other, Or.inl hlt, hother⟩
        · cases rest with
          | nil => exact ⟨path, Or.inr rfl, by simpa using hother⟩
          | cons turn rest => simp [Noun.walk_append, hr.walk] at hother
  | @cell start _ _ _ _ _ _ _ _ _ _ ihHead ihTail =>
      refine (ihTail (hr.tail (ihHead (hr.head start)))).congr fun other => ?_
      rw [Path.lt_concat_true, Path.prefix_iff_concat (q := path), or_assoc, or_assoc]

/-- A place is the first occurrence of a noun, in full, or a later one of a noun in the table. -/
lemma place_cases (hw : Writes start seen n tokens seen') (hr : Reaches root seen path n) {e : Place}
    (he : e ∈ places start [path] tokens) :
    ∃ m, (root.FirstAt m e.path ∧ e.token = m.opening) ∨
      (root.walk e.path = some m ∧ (∃ other < e.path, root.walk other = some m) ∧
        ∃ p, 0 < p ∧ seen'.lookup m = some p ∧ e.token = m.repeated p) := by
  induction hw generalizing path with
  | @again _ _ n p hp known =>
      cases List.mem_singleton.mp he
      exact ⟨n, Or.inr ⟨hr.walk, (hr.lists n).mp ⟨p, known⟩, p, hp, known, rfl⟩⟩
  | @atom _ _ k new =>
      cases List.mem_singleton.mp he
      exact ⟨.atom k, Or.inl ⟨hr.firstAt new, rfl⟩⟩
  | @cell start _ _ _ hd tl _ _ new head tail ihHead ihTail =>
      simp only [head.places_cell, List.mem_cons, List.mem_append] at he
      rcases he with rfl | he | he
      · exact ⟨.cell hd tl, Or.inl ⟨hr.firstAt new, rfl⟩⟩
      · obtain ⟨m, hfirst | ⟨hwalk, hother, p, hp, hlookup, htoken⟩⟩ := ihHead (hr.head start) he
        · exact ⟨m, Or.inl hfirst⟩
        · exact ⟨m, Or.inr ⟨hwalk, hother, p, hp, tail.lookup_mono hlookup, htoken⟩⟩
      · exact ihTail (hr.tail (head.lists (hr.head start))) he

/-- An entry of the table was there before, or is the place of a first occurrence. -/
lemma entry_cases (hw : Writes start seen n tokens seen') (hr : Reaches root seen path n)
    (hlookup : seen'.lookup m = some p) :
    seen.lookup m = some p ∨ ∃ e ∈ places start [path] tokens,
      e.position = p ∧ root.FirstAt m e.path ∧ e.token = m.opening := by
  induction hw generalizing path with
  | again _ _ => exact Or.inl hlookup
  | @atom start _ k new =>
      rcases lookup_enter.mp hlookup with ⟨rfl, rfl⟩ | ⟨-, hlookup⟩
      · exact Or.inr ⟨_, List.mem_singleton_self _, rfl, hr.firstAt new, rfl⟩
      · exact Or.inl hlookup
  | @cell start _ _ _ hd tl _ _ new head tail ihHead ihTail =>
      simp only [head.places_cell, List.mem_cons, List.mem_append]
      rcases ihTail (hr.tail (head.lists (hr.head start))) hlookup with hlookup | ⟨e, he, hfacts⟩
      · rcases ihHead (hr.head start) hlookup with hlookup | ⟨e, he, hfacts⟩
        · rcases lookup_enter.mp hlookup with ⟨rfl, rfl⟩ | ⟨-, hlookup⟩
          · exact Or.inr ⟨_, Or.inl rfl, rfl, hr.firstAt new, rfl⟩
          · exact Or.inl hlookup
        · exact Or.inr ⟨e, Or.inr (Or.inl he), hfacts⟩
      · exact Or.inr ⟨e, Or.inr (Or.inr he), hfacts⟩

end Writes

end Jam

/-! ## The places of a noun -/

namespace Noun

/-- The places of the tokens of a noun. -/
def places (n : Noun) : List Jam.Place :=
  Jam.places 0 [[]] n.jamTokens

/-- The cells that occur in a noun. -/
def cells : Noun → Finset Noun
  | .atom _ => ∅
  | .cell hd tl => insert (.cell hd tl) (hd.cells ∪ tl.cells)

lemma mem_cells {n m : Noun} :
    m ∈ n.cells ↔ (∃ hd tl, m = .cell hd tl) ∧ ∃ path, n.walk path = some m := by
  induction n with
  | atom k =>
      simp only [cells, Finset.notMem_empty, false_iff]
      rintro ⟨⟨hd, tl, rfl⟩, path, hpath⟩
      cases path <;> simp at hpath
  | cell hd tl ihHead ihTail =>
      simp only [cells, Finset.mem_insert, Finset.mem_union, ihHead, ihTail]
      constructor
      · rintro (rfl | ⟨hcell, path, hpath⟩ | ⟨hcell, path, hpath⟩)
        · exact ⟨⟨hd, tl, rfl⟩, [], rfl⟩
        · exact ⟨hcell, false :: path, hpath⟩
        · exact ⟨hcell, true :: path, hpath⟩
      · rintro ⟨hcell, path, hpath⟩
        rcases path with _ | ⟨_ | _, path⟩
        · exact Or.inl (by simpa using hpath.symm)
        · exact Or.inr (Or.inl ⟨hcell, path, hpath⟩)
        · exact Or.inr (Or.inr ⟨hcell, path, hpath⟩)

variable {n m : Noun} {e f : Jam.Place} {path : Path}

lemma exists_writes (n : Noun) : ∃ table, Jam.Writes 0 [] n n.jamTokens table :=
  ⟨_, Jam.writes_encode (fun _ ha => nomatch ha) (Prod.eta _).symm⟩

lemma places_map_token (n : Noun) : n.places.map (·.token) = n.jamTokens := by
  obtain ⟨table, hw⟩ := n.exists_writes
  exact hw.map_token_places 0 []

lemma places_pairwise (n : Noun) : n.places.Pairwise Jam.Place.Before := by
  obtain ⟨table, hw⟩ := n.exists_writes
  exact hw.places_pairwise_lt.and (Jam.places_pairwise_stop 0 [[]] n.jamTokens)

/-- Two places are in order, one way or the other. -/
lemma eq_or_before (he : e ∈ n.places) (hf : f ∈ n.places) : e = f ∨ e.Before f ∨ f.Before e := by
  have hsymm : Std.Symm fun e f : Jam.Place => e.Before f ∨ f.Before e := ⟨fun _ _ => Or.symm⟩
  have hpairs : n.places.Pairwise fun e f => e.Before f ∨ f.Before e :=
    n.places_pairwise.imp Or.inl
  exact or_iff_not_imp_left.mpr (hpairs.forall he hf)

/-- The order of the paths is the order of the bits. -/
lemma stop_le_of_lt (he : e ∈ n.places) (hf : f ∈ n.places) (hlt : e.path < f.path) :
    e.stop ≤ f.position := by
  rcases eq_or_before he hf with rfl | hbefore | hbefore
  · exact absurd hlt (lt_irrefl _)
  · exact hbefore.2
  · exact absurd hlt hbefore.1.not_gt

/-- A path has one place. -/
lemma place_ext (he : e ∈ n.places) (hf : f ∈ n.places) (hpath : e.path = f.path) : e = f := by
  rcases eq_or_before he hf with rfl | hbefore | hbefore
  · rfl
  · exact absurd hpath hbefore.1.ne
  · exact absurd hpath hbefore.1.ne'

/-- Every noun that occurs has a place in full, at its first occurrence. -/
lemma exists_first_place (hwalk : n.walk path = some m) :
    ∃ e ∈ n.places, n.FirstAt m e.path ∧ e.token = m.opening := by
  obtain ⟨table, hw⟩ := n.exists_writes
  obtain ⟨p, hp⟩ := (hw.lists (.nil n) m).mpr ⟨path, Or.inr List.nil_prefix, hwalk⟩
  rcases hw.entry_cases (.nil n) hp with hp | ⟨e, he, -, hfirst, htoken⟩
  · simp at hp
  · exact ⟨e, he, hfirst, htoken⟩

lemma exists_part (he : e ∈ n.places) : ∃ m, n.walk e.path = some m := by
  obtain ⟨table, hw⟩ := n.exists_writes
  obtain ⟨m, ⟨hfirst, -⟩ | ⟨hwalk, -⟩⟩ := hw.place_cases (.nil n) he
  · exact ⟨m, hfirst.1⟩
  · exact ⟨m, hwalk⟩

/-- A place is the first occurrence of its noun, in full, or refers to the first occurrence. -/
lemma place_cases (he : e ∈ n.places) (hwalk : n.walk e.path = some m) :
    (n.FirstAt m e.path ∧ e.token = m.opening) ∨
      ∃ f ∈ n.places, n.FirstAt m f.path ∧ f.path < e.path ∧ 0 < f.position ∧
        e.token = m.repeated f.position := by
  obtain ⟨table, hw⟩ := n.exists_writes
  obtain ⟨m', ⟨hfirst, htoken⟩ | ⟨hwalk', ⟨other, hlt, hother⟩, p, hp, hlookup, htoken⟩⟩ :=
    hw.place_cases (.nil n) he
  · obtain rfl : m = m' := Option.some.inj (hwalk.symm.trans hfirst.1)
    exact Or.inl ⟨hfirst, htoken⟩
  · obtain rfl : m = m' := Option.some.inj (hwalk.symm.trans hwalk')
    rcases hw.entry_cases (.nil n) hlookup with hnone | ⟨f, hf, rfl, hfirst, -⟩
    · simp at hnone
    · exact Or.inr ⟨f, hf, hfirst, (hfirst.2 hother).trans_lt hlt, hp, htoken⟩

lemma firstAt_of_cell (he : e ∈ n.places) (htoken : e.token = .cell) :
    ∃ hd tl, n.FirstAt (.cell hd tl) e.path := by
  obtain ⟨m, hwalk⟩ := exists_part he
  rcases place_cases he hwalk with ⟨hfirst, hopening⟩ | ⟨f, -, -, -, -, hrepeated⟩
  · cases m with
    | atom k => simp [opening, htoken] at hopening
    | cell hd tl => exact ⟨hd, tl, hfirst⟩
  · exact absurd (hrepeated.symm.trans htoken) (Jam.repeated_ne_cell m f.position)

/-- Every part has a place, or lies in a part that refers. -/
lemma exists_place (hwalk : n.walk path = some m) :
    ∃ e ∈ n.places, e.path = path ∨ e.path <+: path ∧ ∃ p, e.token = .reference p := by
  obtain ⟨table, hw⟩ := n.exists_writes
  obtain ⟨e, he, ⟨rest, hrest⟩, hpath⟩ : ∃ e ∈ n.places, e.path <+: path ∧
      (e.path = path ∨ e.token ≠ .cell) := hw.exists_place (by simp [hwalk])
  obtain ⟨part, hpart⟩ := exists_part he
  refine ⟨e, he, ?_⟩
  rw [← hrest, walk_append, hpart] at hwalk
  cases rest with
  | nil => exact Or.inl (by simpa using hrest)
  | cons turn rest =>
      -- the path goes on, so the part is a cell
      cases part with
      | atom k => simp at hwalk
      | cell hd tl =>
          rcases place_cases he hpart with ⟨-, hopening⟩ | ⟨f, -, -, -, -, hrepeated⟩
          · exact Or.inl (hpath.resolve_right (not_not.mpr hopening))
          · exact Or.inr ⟨⟨_, hrest⟩, f.position, hrepeated⟩

/-- Wherever else a cell has a place, it refers to the first one. -/
lemma reference_of_firstAt {hd tl : Noun} (he : e ∈ n.places) (hf : f ∈ n.places)
    (hfirst : n.FirstAt (.cell hd tl) e.path) (hwalk : n.walk f.path = some (.cell hd tl))
    (hne : f ≠ e) : f.token = .reference e.position := by
  rcases place_cases hf hwalk with ⟨hfirst', -⟩ | ⟨e', he', hfirst', -, -, htoken⟩
  · exact absurd (place_ext hf he (hfirst'.unique hfirst)) hne
  · rw [htoken, place_ext he' he (hfirst'.unique hfirst)]
    rfl

/-- What is referred to began after the start and is complete. -/
lemma complete_of_reference {p : Nat} (hf : f ∈ n.places) (htoken : f.token = .reference p) :
    0 < p ∧ ∃ e ∈ n.places, e.position = p ∧
      (∃ m, n.walk e.path = some m ∧ n.walk f.path = some m) ∧
        ∀ g ∈ n.places, e.path <+: g.path → g.stop ≤ f.position := by
  obtain ⟨m, hwalk⟩ := exists_part hf
  rcases place_cases hf hwalk with ⟨-, hopening⟩ | ⟨e, he, hfirst, hlt, hpos, hrepeated⟩
  · cases m <;> simp [opening, htoken] at hopening
  · obtain rfl := Jam.eq_of_repeated_eq_reference (hrepeated.symm.trans htoken)
    refine ⟨hpos, e, he, rfl, ⟨m, hfirst.1, hwalk⟩, ?_⟩
    rintro g hg ⟨rest, hrest⟩
    -- all of the first occurrence comes before the second
    have hapart := not_prefix_of_walk hfirst.1 hwalk hlt.ne
    refine stop_le_of_lt hg hf ?_
    simpa [hrest] using Path.append_lt_append hlt hapart rest []

/-- The cell that a place writes in full. -/
def opened? (n : Noun) (e : Jam.Place) : Option Noun :=
  if e.token = .cell then n.walk e.path else none

lemma opened?_of_mem (he : e ∈ n.places) (hm : n.opened? e = some m) :
    n.FirstAt m e.path ∧ m ∈ n.cells := by
  obtain ⟨htoken, hwalk⟩ := Option.ite_none_right_eq_some.mp hm
  obtain ⟨hd, tl, hfirst⟩ := firstAt_of_cell he htoken
  obtain rfl : m = .cell hd tl := Option.some.inj (hwalk.symm.trans hfirst.1)
  exact ⟨hfirst, mem_cells.mpr ⟨⟨hd, tl, rfl⟩, e.path, hwalk⟩⟩

lemma opened?_isSome (he : e ∈ n.places) : (n.opened? e).isSome ↔ e.token = .cell := by
  by_cases htoken : e.token = .cell
  · obtain ⟨hd, tl, hfirst⟩ := firstAt_of_cell he htoken
    have hwalk : n.walk e.path = some (.cell hd tl) := hfirst.1
    simp [opened?, htoken, hwalk]
  · simp [opened?, htoken]

lemma nodup_opened (n : Noun) : (n.places.filterMap n.opened?).Nodup := by
  refine List.pairwise_filterMap.mpr (n.places_pairwise.imp_of_mem ?_)
  intro e f he hf hbefore m hm m' hm' heq
  obtain ⟨hfirst, -⟩ := opened?_of_mem he hm
  obtain ⟨hfirst', -⟩ := opened?_of_mem hf hm'
  rw [← heq] at hfirst'
  exact absurd (hfirst.unique hfirst') hbefore.1.ne

/-- The cells in full are the cells that occur. -/
lemma toFinset_opened (n : Noun) : (n.places.filterMap n.opened?).toFinset = n.cells := by
  ext m
  rw [List.mem_toFinset, List.mem_filterMap]
  constructor
  · rintro ⟨e, he, hm⟩
    exact (opened?_of_mem he hm).2
  · intro hm
    obtain ⟨⟨hd, tl, rfl⟩, path, hwalk⟩ := mem_cells.mp hm
    obtain ⟨e, he, hfirst, htoken⟩ := exists_first_place hwalk
    exact ⟨e, he, Option.ite_none_right_eq_some.mpr ⟨htoken, hfirst.1⟩⟩

lemma count_cell (n : Noun) : (n.places.map (·.token)).count .cell = n.cells.card := by
  have hcount : n.places.countP (·.token == .cell) = n.places.countP (n.opened? · |>.isSome) := by
    refine List.countP_congr fun e he => ?_
    rw [opened?_isSome he, beq_iff_eq]
  rw [← toFinset_opened, List.toFinset_card_of_nodup n.nodup_opened,
    List.length_filterMap_eq_countP, ← hcount, List.count, List.countP_map]
  rfl

end Noun

/-! ## Every cell once -/

/-- The places write every cell of a noun once. -/
structure Jam.CellsOnce (n : Noun) (places : List Jam.Place) : Prop where
  /-- The places are in order, head before tail, and so are their bits. -/
  ordered : places.Pairwise Place.Before
  /-- A position is where the bits of the token are. -/
  positioned : ∀ e ∈ places, e.token.bits <+: (bits (places.map (·.token))).drop e.position
  /-- A part without a place lies in a part that refers. -/
  covered : ∀ path part, n.walk path = some part → ∃ e ∈ places, e.path = path ∨
    e.path <+: path ∧ ∃ p, e.token = .reference p
  /-- A cell is in full at its first occurrence, and all other places of it refer to this one. -/
  once : ∀ hd tl path, n.walk path = some (.cell hd tl) → ∃ e ∈ places,
    n.FirstAt (.cell hd tl) e.path ∧ e.token = .cell ∧
      ∀ f ∈ places, n.walk f.path = some (.cell hd tl) → f ≠ e → f.token = .reference e.position
  /-- Nothing but a first occurrence of a cell is opened as a cell. -/
  opened : ∀ e ∈ places, e.token = .cell → ∃ hd tl, n.FirstAt (.cell hd tl) e.path
  /-- What a place refers to is the same noun, began after the start, and is complete: everything
  inside it ends before the place begins. -/
  complete : ∀ f ∈ places, ∀ p, f.token = .reference p → 0 < p ∧ ∃ e ∈ places, e.position = p ∧
    (∃ m, n.walk e.path = some m ∧ n.walk f.path = some m) ∧
      ∀ g ∈ places, e.path <+: g.path → g.stop ≤ f.position
  /-- There are as many cells in full as there are different cells. -/
  count : (places.map (·.token)).count .cell = n.cells.card

lemma Noun.cellsOnce (n : Noun) : Jam.CellsOnce n n.places where
  ordered := n.places_pairwise
  positioned := by
    intro e he
    rw [n.places_map_token]
    exact (Jam.bits_of_mem_places he).2
  covered path part hwalk := exists_place hwalk
  once hd tl path hwalk := by
    obtain ⟨e, he, hfirst, htoken⟩ := exists_first_place hwalk
    exact ⟨e, he, hfirst, htoken, fun f hf => reference_of_firstAt he hf hfirst⟩
  opened e he := firstAt_of_cell he
  complete f hf p := complete_of_reference hf
  count := n.count_cell

/-- **Every cell once.**  Serialising a held noun of natural atoms appends the bits of its places.  A
cell is written in full at its first occurrence, head before tail, and nowhere else.  Where an equal
cell has another place, it refers to the position of the first one.  A position that is referred to is
positive, and the noun that began there is complete.  So as many cells are opened as the noun has
different cells, however often each of them occurs. -/
theorem jam_writes_cells_once {s : Store} {d : Datum} {n : Noun} {i : StreamId} (hs : s.Sound)
    (hd : s.noun? d = some n) (hn : n.Natural) (hi : i < s.streams.size) :
    (∃ s', exec (jamOnto d i) s = (.ok (), s') ∧
      s'.bitsOf i = s.bitsOf i ++ Jam.bits (n.places.map (·.token))) ∧
    Jam.CellsOnce n n.places := by
  obtain ⟨s', hexec, hbits, -⟩ := jamOnto_exec hs.fits (hs.fits.noun?_iff.mp hd) hn hi
  refine ⟨⟨s', hexec, ?_⟩, n.cellsOnce⟩
  rw [hbits, n.places_map_token]
  rfl

/-- The noun `[[1 2] [1 2] 1 2]`. -/
def threePairs : Noun :=
  .ofList [.cell (.atom 1) (.atom 2), .cell (.atom 1) (.atom 2), .cell (.atom 1) (.atom 2)]

/-- A store that holds `threePairs` as cell 3, with one cell for the first two pairs and another cell
for the last. -/
def threePairsStore : Store :=
  ⟨#[⟨.atom 1, .atom 2, 0, 1⟩, ⟨.atom 1, .atom 2, 0, 1⟩, ⟨.cell 0, .cell 1, 0, 2⟩,
    ⟨.cell 0, .cell 2, 0, 3⟩], #[[true]]⟩

/-- The pair is opened once, and its other occurrences refer to position 2, be they the same cell or
another one. -/
theorem jam_writes_cells_once_pairs :
    (threePairsStore.Sound ∧ threePairsStore.noun? (.cell 3) = some threePairs ∧
      threePairs.Natural ∧ 0 < threePairsStore.streams.size) ∧
    (∃ s', exec (jamOnto (.cell 3) 0) threePairsStore = (.ok (), s') ∧ s'.bitsOf 0 = true ::
      Jam.bits [.cell, .cell, .atom 1, .atom 2, .cell, .reference 2, .reference 2]) ∧
    Jam.CellsOnce threePairs threePairs.places ∧ threePairs.cells.card = 3 := by
  have hsound : threePairsStore.Sound := by decide +kernel
  have hnoun : threePairsStore.noun? (.cell 3) = some threePairs := rfl
  have hnatural : threePairs.Natural := by decide
  have hstream : 0 < threePairsStore.streams.size := by decide
  have htokens : threePairs.places.map (·.token)
      = [.cell, .cell, .atom 1, .atom 2, .cell, .reference 2, .reference 2] := by decide +kernel
  obtain ⟨⟨s', hexec, hbits⟩, honce⟩ := jam_writes_cells_once hsound hnoun hnatural hstream
  rw [htokens] at hbits
  refine ⟨⟨hsound, hnoun, hnatural, hstream⟩, ⟨s', hexec, hbits⟩, honce, ?_⟩
  rw [← honce.count, htokens]
  rfl

end Nock
