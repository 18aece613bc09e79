import Mathlib.Data.List.Lex
import Mathlib.Order.Bounds.Basic
import Mathlib.Order.Nat
import Nock.Noun.Basic

/-!
# Paths in a noun

A path goes down from a noun, to the head or to the tail at every turn.  `Noun.walk` gives the part
that a path leads to, and `Noun.graft` puts another noun in its place; neither has a value if the
path goes through an atom.

**At one place** the two behave like reading and writing a variable (`walk_graft`, `graft_walk`,
`graft_graft`), and one has a value exactly if the other has (`graft_isSome`).

**At two places** of which neither lies inside the other, a graft does not change what is read
(`walk_graft_of_apart`), and two grafts may be exchanged (`graft_comm`).

A graft can also be made from below: the part and its neighbour become a cell, which is then grafted
one turn further up (`graft_concat_false`, `graft_concat_true`).

**In order.**  Paths are lists, and the order of lists puts a path before its continuations, and those
to the head before those to the tail.  This is the order in which a noun is gone through, head before
tail.  A noun that occurs at two places lies in neither of them (`not_prefix_of_walk`), so its parts
at the first place come before the whole second place (`Path.append_lt_append`).
-/

namespace Nock

/-- The turns of a way down: `false` to the head and `true` to the tail. -/
abbrev Path := List Bool

namespace Noun

/-- The part of a noun that a path leads to. -/
def walk : Noun → Path → Option Noun
  | n, [] => some n
  | .atom _, _ :: _ => none
  | .cell h _, false :: path => h.walk path
  | .cell _ t, true :: path => t.walk path

/-- The noun with another noun in the place that a path leads to. -/
def graft : Noun → Path → (part : Noun) → Option Noun
  | _, [], part => some part
  | .atom _, _ :: _, _ => none
  | .cell h t, false :: path, part => (h.graft path part).map (.cell · t)
  | .cell h t, true :: path, part => (t.graft path part).map (.cell h ·)

@[simp] lemma walk_nil (n : Noun) : n.walk [] = some n := by cases n <;> rfl

@[simp] lemma walk_atom_cons (k : Int) (turn : Bool) (path : Path) :
    (Noun.atom k).walk (turn :: path) = none := rfl

@[simp] lemma walk_head (h t : Noun) (path : Path) :
    (Noun.cell h t).walk (false :: path) = h.walk path := rfl

@[simp] lemma walk_tail (h t : Noun) (path : Path) :
    (Noun.cell h t).walk (true :: path) = t.walk path := rfl

@[simp] lemma graft_nil (n part : Noun) : n.graft [] part = some part := by cases n <;> rfl

@[simp] lemma graft_atom_cons (k : Int) (turn : Bool) (path : Path) (part : Noun) :
    (Noun.atom k).graft (turn :: path) part = none := rfl

@[simp] lemma graft_head (h t : Noun) (path : Path) (part : Noun) :
    (Noun.cell h t).graft (false :: path) part = (h.graft path part).map (.cell · t) := rfl

@[simp] lemma graft_tail (h t : Noun) (path : Path) (part : Noun) :
    (Noun.cell h t).graft (true :: path) part = (t.graft path part).map (.cell h ·) := rfl

/-! ## Longer paths -/

lemma walk_append (n : Noun) (path rest : Path) :
    n.walk (path ++ rest) = (n.walk path).bind (·.walk rest) := by
  induction path generalizing n with
  | nil => simp
  | cons turn path ih => cases n <;> cases turn <;> simp [ih]

/-- What a path leads to is lower by at least the length of the path. -/
lemma height_of_walk {n m : Noun} {path : Path} (h : n.walk path = some m) :
    m.height + path.length ≤ n.height := by
  induction path generalizing n with
  | nil => simp_all
  | cons turn path ih =>
      cases n with
      | atom k => simp at h
      | cell hd tl =>
          cases turn <;> simp only [walk_head, walk_tail] at h <;> have := ih h <;>
            simp only [height, List.length_cons] <;> omega

/-- No noun lies inside itself. -/
lemma eq_nil_of_walk_self {n : Noun} {path : Path} (h : n.walk path = some n) : path = [] := by
  have := height_of_walk h
  exact List.length_eq_zero_iff.mp (by omega)

/-- Grafting a head is grafting the cell of the head and its neighbour. -/
lemma graft_concat_false (n : Noun) (path : Path) (part : Noun) :
    n.graft (path ++ [false]) part
      = (n.walk (path ++ [true])).bind fun sibling => n.graft path (.cell part sibling) := by
  induction path generalizing n with
  | nil => cases n <;> simp
  | cons turn path ih => cases n <;> cases turn <;> simp [ih, Option.map_bind]

/-- Grafting a tail is grafting the cell of its neighbour and the tail. -/
lemma graft_concat_true (n : Noun) (path : Path) (part : Noun) :
    n.graft (path ++ [true]) part
      = (n.walk (path ++ [false])).bind fun sibling => n.graft path (.cell sibling part) := by
  induction path generalizing n with
  | nil => cases n <;> simp
  | cons turn path ih => cases n <;> cases turn <;> simp [ih, Option.map_bind]

/-! ## At one place -/

/-- A place can be written exactly if it can be read. -/
lemma graft_isSome (n : Noun) (path : Path) (part : Noun) :
    (n.graft path part).isSome = (n.walk path).isSome := by
  induction path generalizing n with
  | nil => simp
  | cons turn path ih => cases n <;> cases turn <;> simp [ih]

variable {n part whole : Noun} {path : Path}

/-- Grafting below a turn changes one side of a cell and keeps the other. -/
lemma graft_cons_cases {turn : Bool} (h : n.graft (turn :: path) part = some whole) :
    ∃ hd tl inner, n = .cell hd tl ∧
      (turn = false ∧ hd.graft path part = some inner ∧ whole = .cell inner tl ∨
        turn = true ∧ tl.graft path part = some inner ∧ whole = .cell hd inner) := by
  cases n with
  | atom k => simp at h
  | cell hd tl =>
      cases turn
      · obtain ⟨inner, hinner, rfl⟩ := Option.map_eq_some_iff.mp h
        exact ⟨hd, tl, inner, rfl, Or.inl ⟨rfl, hinner, rfl⟩⟩
      · obtain ⟨inner, hinner, rfl⟩ := Option.map_eq_some_iff.mp h
        exact ⟨hd, tl, inner, rfl, Or.inr ⟨rfl, hinner, rfl⟩⟩

/-- What was written is read. -/
lemma walk_graft (h : n.graft path part = some whole) : whole.walk path = some part := by
  induction path generalizing n whole with
  | nil => simp_all
  | cons turn path ih =>
      obtain ⟨hd, tl, inner, rfl, ⟨rfl, hinner, rfl⟩ | ⟨rfl, hinner, rfl⟩⟩ := graft_cons_cases h
      · simpa using ih hinner
      · simpa using ih hinner

/-- Writing what was read changes nothing. -/
lemma graft_walk (h : n.walk path = some part) : n.graft path part = some n := by
  induction path generalizing n with
  | nil => simp_all
  | cons turn path ih =>
      cases n with
      | atom k => simp at h
      | cell hd tl => cases turn <;> simp_all

/-- Only what is written last counts. -/
lemma graft_graft (h : n.graft path part = some whole) (other : Noun) :
    whole.graft path other = n.graft path other := by
  induction path generalizing n whole with
  | nil => simp
  | cons turn path ih =>
      obtain ⟨hd, tl, inner, rfl, ⟨rfl, hinner, rfl⟩ | ⟨rfl, hinner, rfl⟩⟩ := graft_cons_cases h
      · simp [ih hinner]
      · simp [ih hinner]

/-! ## At two places -/

/-- Neither place lies inside the other. -/
def Apart (p q : Path) : Prop :=
  ¬p <+: q ∧ ¬q <+: p

lemma Apart.symm {p q : Path} (h : Apart p q) : Apart q p :=
  ⟨h.2, h.1⟩

lemma not_apart_nil (p : Path) : ¬Apart [] p := by
  simp [Apart]

/-- Paths part at a turn, or go on together and part later. -/
lemma apart_cons {turn turn' : Bool} {p q : Path} :
    Apart (turn :: p) (turn' :: q) ↔ turn ≠ turn' ∨ Apart p q := by
  simp only [Apart, List.cons_prefix_cons, eq_comm (a := turn')]
  tauto

/-- Writing at one place does not change what is read at the other. -/
lemma walk_graft_of_apart {p q : Path} (hpq : Apart p q) (h : n.graft p part = some whole) :
    whole.walk q = n.walk q := by
  induction p generalizing n whole q with
  | nil => exact absurd hpq (not_apart_nil q)
  | cons turn p ih =>
      cases q with
      | nil => exact absurd hpq.symm (not_apart_nil _)
      | cons turn' q =>
          rw [apart_cons] at hpq
          obtain ⟨hd, tl, inner, rfl, ⟨rfl, hinner, rfl⟩ | ⟨rfl, hinner, rfl⟩⟩ := graft_cons_cases h
          · cases turn' with
            | false => simpa using ih (by simpa using hpq) hinner
            | true => rfl
          · cases turn' with
            | false => rfl
            | true => simpa using ih (by simpa using hpq) hinner

/-- Writing at two places, in either order. -/
lemma graft_comm {p q : Path} (hpq : Apart p q) (n a c : Noun) :
    ((n.graft q c).bind fun whole => whole.graft p a)
      = (n.graft p a).bind fun whole => whole.graft q c := by
  induction p generalizing n q with
  | nil => exact absurd hpq (not_apart_nil q)
  | cons turn p ih =>
      cases q with
      | nil => exact absurd hpq.symm (not_apart_nil _)
      | cons turn' q =>
          rw [apart_cons] at hpq
          cases n with
          | atom k => simp
          | cell hd tl =>
              -- on one side of the cell by induction, on different sides by looking at both grafts
              cases turn <;> cases turn'
              · have hrest := congrArg (Option.map (Noun.cell · tl)) (ih (by simpa using hpq) hd)
                simpa [Option.map_bind, Option.bind_map, Function.comp_def] using hrest
              · cases hp : hd.graft p a <;> cases hq : tl.graft q c <;> simp [hp, hq]
              · cases hp : tl.graft p a <;> cases hq : hd.graft q c <;> simp [hp, hq]
              · have hrest := congrArg (Option.map (Noun.cell hd ·)) (ih (by simpa using hpq) tl)
                simpa [Option.map_bind, Option.bind_map, Function.comp_def] using hrest

end Noun

/-! ## In order -/

namespace Path

variable {p q : Path}

/-- What comes before the head: all that comes before the cell, and the cell. -/
lemma lt_concat_false : p < q ++ [false] ↔ p < q ∨ p = q := by
  induction q generalizing p with
  | nil => rcases p with _ | ⟨_ | _, p⟩ <;> simp [List.cons_lt_cons_iff]
  | cons turn q ih =>
      cases p with
      | nil => simp
      | cons turn' p => simp [List.cons_lt_cons_iff, ih, and_or_left, or_assoc]

/-- What comes before the tail: all that comes before the cell, the cell, and what is in its head. -/
lemma lt_concat_true : p < q ++ [true] ↔ p < q ∨ p = q ∨ q ++ [false] <+: p := by
  induction q generalizing p with
  | nil => rcases p with _ | ⟨_ | _, p⟩ <;> simp [List.cons_lt_cons_iff]
  | cons turn q ih =>
      cases p with
      | nil => simp
      | cons turn' p => simp [List.cons_lt_cons_iff, ih, and_or_left, or_assoc, eq_comm]

/-- Inside a cell are the cell, what is in its head and what is in its tail. -/
lemma prefix_iff_concat : q <+: p ↔ p = q ∨ q ++ [false] <+: p ∨ q ++ [true] <+: p := by
  induction q generalizing p with
  | nil => rcases p with _ | ⟨_ | _, p⟩ <;> simp
  | cons turn q ih =>
      cases p with
      | nil => simp
      | cons turn' p => simp [ih, and_or_left, eq_comm]

/-- A path comes before its continuations. -/
lemma lt_of_concat_prefix {turn : Bool} (h : q ++ [turn] <+: p) : q < p := by
  obtain ⟨rest, rfl⟩ := h
  induction q with
  | nil => simp
  | cons turn' q ih => simpa using ih

/-- Places apart are in the order of everything inside them. -/
lemma append_lt_append (hlt : p < q) (hnot : ¬p <+: q) (r r' : Path) : p ++ r < q ++ r' := by
  induction p generalizing q with
  | nil => simp at hnot
  | cons turn p ih =>
      cases q with
      | nil => simp at hlt
      | cons turn' q =>
          rw [List.cons_append, List.cons_append, List.cons_lt_cons_iff]
          rcases List.cons_lt_cons_iff.mp hlt with hturn | ⟨rfl, hrest⟩
          · exact Or.inl hturn
          · exact Or.inr ⟨rfl, ih hrest (by simpa using hnot)⟩

end Path

namespace Noun

/-- A noun that occurs at two places does not lie in itself. -/
lemma not_prefix_of_walk {n m : Noun} {p q : Path} (hp : n.walk p = some m)
    (hq : n.walk q = some m) (hne : p ≠ q) : ¬p <+: q := by
  rintro ⟨rest, rfl⟩
  rw [walk_append, hp, Option.bind_some] at hq
  simp [eq_nil_of_walk_self hq] at hne

/-- The path leads to a noun, and no earlier path does. -/
def FirstAt (n m : Noun) (path : Path) : Prop :=
  IsLeast {path | n.walk path = some m} path

end Noun

end Nock
