import Mathlib.Data.List.Forall2
import Nock.Cue
import Nock.Machine
import Nock.Proofs.Effects
import Nock.Proofs.Store.Unify
import Nock.Store.Memory

/-!
# A store does what plain nouns do

The machine is written once for every way to hold nouns.  On a store its steps make cells and
compare them, and comparing changes them; on plain nouns nothing changes.  `Refines` says that an
effect on a store nevertheless **does what a plain computation does**: it ends in the same way, with
the same fault or with a datum that denotes the plain result, and every cell that was there denotes
what it denoted before.

The six operations of the memory refine their plain counterparts (`settle_refines` to
`copy_refines`), sequences refine sequences (`Refines.bind`), and from there on it is a walk through
the programs: `slot_refines`, `edit_refines`, `nock_refines`.
-/

namespace Nock

open StoreM hiding look same copy
open Store Memory

variable {α β γ δ : Type} {s : Store} {ν : Reading}

/-- Two outcomes match: the same fault, or related values. -/
inductive Matches (R : α → β → Prop) : Except Fault α → Except Fault β → Prop
  | ok {a : α} {b : β} (h : R a b) : Matches R (.ok a) (.ok b)
  | error (e : Fault) : Matches R (.error e) (.error e)

/-- In the given store the effect `x` does what `y` does on plain values.  The relation `R` says, for
the store that is left and its reading, which values stand for which. -/
def Refines (s : Store) (ν : Reading) (x : StoreM α) (y : Except Fault β)
    (R : Store → Reading → α → β → Prop) : Prop :=
  ∃ ν', s.Extends ν (exec x s).2 ν' ∧ (exec x s).2.Fits ν' ∧
    Matches (R (exec x s).2 ν') (exec x s).1 y

/-! ## Sequences -/

/-- An effect whose run is known refines whatever its outcome matches. -/
lemma Refines.of_exec {x : StoreM α} {y : Except Fault β} {R : Store → Reading → α → β → Prop}
    {s' : Store} {ν' : Reading} {outcome : Except Fault α} (hx : exec x s = (outcome, s'))
    (hlater : s.Extends ν s' ν') (hs' : s'.Fits ν') (hR : Matches (R s' ν') outcome y) :
    Refines s ν x y R := by
  refine ⟨ν', ?_, ?_, ?_⟩ <;> rw [hx]
  · exact hlater
  · exact hs'
  · exact hR

lemma Refines.congr {x x' : StoreM α} {y : Except Fault β} {R : Store → Reading → α → β → Prop}
    (h : exec x s = exec x' s) (hx : Refines s ν x' y R) : Refines s ν x y R := by
  unfold Refines at hx ⊢
  rwa [h]

lemma Refines.pure {R : Store → Reading → α → β → Prop} {a : α} {b : β} (hs : s.Fits ν)
    (h : R s ν a b) : Refines s ν (pure a) (.ok b) R :=
  .of_exec (exec_pure a s) (.refl s ν) hs (.ok h)

lemma Refines.throw {R : Store → Reading → α → β → Prop} (hs : s.Fits ν) (e : Fault) :
    Refines s ν (throw e : StoreM α) (.error e) R :=
  .of_exec (exec_throw e s) (.refl s ν) hs (.error e)

/-- Sequences refine sequences. -/
lemma Refines.bind {x : StoreM α} {y : Except Fault β} {f : α → StoreM γ} {g : β → Except Fault δ}
    {R : Store → Reading → α → β → Prop} {Q : Store → Reading → γ → δ → Prop}
    (hx : Refines s ν x y R)
    (hf : ∀ s' ν' a b, s.Extends ν s' ν' → s'.Fits ν' → R s' ν' a b →
      Refines s' ν' (f a) (g b) Q) :
    Refines s ν (x >>= f) (y >>= g) Q := by
  obtain ⟨ν', hlater, hs', hR⟩ := hx
  rcases hrun : exec x s with ⟨outcome, s'⟩
  rw [hrun] at hlater hs' hR
  cases hR with
  | error e =>
      exact .of_exec (exec_bind_error hrun) hlater hs' (.error e)
  | ok h =>
      obtain ⟨ν'', hlater', hs'', hQ⟩ := hf s' ν' _ _ hlater hs' h
      refine .of_exec (exec_bind_ok hrun) (hlater.trans hlater') hs'' hQ

/-- An effect whose plain counterpart only names a value goes on with that value. -/
lemma Refines.bind_ok {x : StoreM α} {b : β} {f : α → StoreM γ} {z : Except Fault δ}
    {R : Store → Reading → α → β → Prop} {Q : Store → Reading → γ → δ → Prop}
    (hx : Refines s ν x (.ok b) R)
    (hf : ∀ s' ν' a, s.Extends ν s' ν' → s'.Fits ν' → R s' ν' a b → Refines s' ν' (f a) z Q) :
    Refines s ν (x >>= f) z Q := by
  obtain ⟨ν', hlater, hs', hR⟩ := hx
  rcases hrun : exec x s with ⟨outcome, s'⟩
  rw [hrun] at hlater hs' hR
  cases hR with
  | ok h =>
      obtain ⟨ν'', hlater', hs'', hQ⟩ := hf s' ν' _ hlater hs' h
      exact .of_exec (exec_bind_ok hrun) (hlater.trans hlater') hs'' hQ

/-- The noun that an effect answers: what its datum denotes in the store that is left. -/
def StoreM.answer (x : StoreM Datum) (s : Store) : Except Fault (Option Noun) :=
  (exec x s).1.map (exec x s).2.noun?

/-- An effect that refines a plain computation answers its result. -/
lemma Refines.answer_eq {x : StoreM Datum} {y : Except Fault Noun} (h : Refines s ν x y Denotes) :
    answer x s = y.map some := by
  obtain ⟨ν', _, hs', hmatch⟩ := h
  unfold answer
  rcases hrun : exec x s with ⟨outcome, s'⟩
  rw [hrun] at hs' hmatch
  cases hmatch with
  | error e => rfl
  | ok hd => exact congrArg Except.ok (hs'.noun?_eq hd)

/-! ## Without readings -/

/-- The datum denotes the noun. -/
def Store.Has (s : Store) (d : Datum) (n : Noun) : Prop :=
  s.noun? d = some n

/-- The second store holds what the first one holds. -/
def Store.KeptIn (s s' : Store) : Prop :=
  ∀ d n, s.Has d n → s'.Has d n

/-- In the given store the effect does what `y` does on plain values, and it leaves a sound store
without cycles that holds what was held before.  The relation `R` says, for the store that is left,
which values stand for which. -/
structure Realizes (s : Store) (x : StoreM α) (y : Except Fault β) (R : Store → α → β → Prop) :
    Prop where
  sound : (exec x s).2.Sound
  acyclic : (exec x s).2.Acyclic
  kept : s.KeptIn (exec x s).2
  outcome : Matches (R (exec x s).2) (exec x s).1 y

lemma Matches.imp {R Q : α → β → Prop} {x : Except Fault α} {y : Except Fault β}
    (h : Matches R x y) (himp : ∀ a b, R a b → Q a b) : Matches Q x y := by
  cases h with
  | error e => exact .error e
  | ok h => exact .ok (himp _ _ h)

/-- What refines a plain computation realizes it. -/
lemma Refines.realizes {x : StoreM α} {y : Except Fault β} {R : Store → Reading → α → β → Prop}
    {Q : Store → α → β → Prop} (hs : s.Fits ν) (h : Refines s ν x y R)
    (himp : ∀ s' ν' a b, s'.Fits ν' → R s' ν' a b → Q s' a b) : Realizes s x y Q := by
  obtain ⟨ν', hlater, hs', hmatches⟩ := h
  refine ⟨hs'.sound, hs'.acyclic, fun d n hd => ?_, hmatches.imp fun a b => himp _ _ a b hs'⟩
  exact hs'.noun?_eq ((hs.noun?_iff.mp hd).later hlater)

lemma Refines.realizes_has {x : StoreM Datum} {y : Except Fault Noun} (hs : s.Fits ν)
    (h : Refines s ν x y Denotes) : Realizes s x y Has :=
  h.realizes hs fun _ _ _ _ hs' hd => hs'.noun?_eq hd

/-! ## The memory -/

/-- The values are equal. -/
def Store.Equal (_ : Store) (_ : Reading) (a b : α) : Prop :=
  a = b

/-- Two data denote two nouns. -/
def Store.DenotesBoth (s : Store) (ν : Reading) (d : Datum × Datum) (n : Noun × Noun) : Prop :=
  s.Denotes ν d.1 n.1 ∧ s.Denotes ν d.2 n.2

/-- What a datum looks like stands for what a noun looks like. -/
inductive Store.Shows (s : Store) (ν : Reading) : Shape Datum → Shape Noun → Prop
  | atom (k : Int) : Shows s ν (.atom k) (.atom k)
  | cell {head tail : Datum} {h t : Noun} (hh : s.Denotes ν head h) (ht : s.Denotes ν tail t) :
      Shows s ν (.cell head tail) (.cell h t)

variable {d e : Datum} {m n : Noun}

lemma atom_denotes (s : Store) (ν : Reading) (k : Int) :
    s.Denotes ν (atom StoreM k) (.atom k) := rfl

lemma settle_refines (hs : s.Fits ν) (hd : s.Denotes ν d n) :
    Refines s ν (settle d) (settle n) Denotes := by
  cases d with
  | atom k => exact .pure hs hd
  | flag b => exact .pure hs hd
  | cell c => exact .pure hs hd
  | _ => exact hd.elim

lemma look_refines (hs : s.Fits ν) (hd : s.Denotes ν d n) :
    Refines s ν (look d) (look n) Shows := by
  cases d with
  | atom k => subst hd; exact .pure hs (.atom k)
  | flag b => subst hd; exact .pure hs (.atom (flagNumber b))
  | cell c =>
      obtain ⟨hc, rfl⟩ := hd
      obtain ⟨cell, h, t, hget, hν, hcell⟩ := hs.get hc
      have hexec : exec (look (.cell c) : StoreM (Shape Datum)) s
          = (.ok (.cell cell.head cell.tail), s) := by
        show exec (StoreM.look (.cell c)) s = _
        rw [StoreM.look, exec_bind_ok (exec_cell? c s)]
        simp only [hget, exec_pure]
      rw [hν]
      exact .of_exec hexec (.refl s ν) hs (.ok (.cell hcell.head hcell.tail))
  | _ => exact hd.elim

lemma cell_refines (hs : s.Fits ν) (hd : s.Denotes ν d m) (he : s.Denotes ν e n) :
    Refines s ν (cell d e) (cell m n) Denotes :=
  .of_exec (exec_newCell d e 0 s) (.push s ν d e 0 (.cell m n)) (hs.push hd he (Or.inl rfl))
    (.ok (denotes_push s ν d e 0 (.cell m n)))

/-- A comparison answers as the plain one does. -/
lemma same_refines (hs : s.Fits ν) (hd : s.Denotes ν d m) (he : s.Denotes ν e n) :
    Refines s ν (same d e) (same m n) Equal := by
  have h := unify_answers hs hd he
  refine .of_exec (exec_modifyGet _ s) (.of_size h.size) h.fits (.ok ?_)
  show (unify d e s).1 = (m == n)
  rw [Bool.eq_iff_iff, h.iff, beq_iff_eq]

/-- A cell is copied by copying its parts. -/
lemma exec_copyWithin_cell {c : CellId} {cell : Cell} (hget : s.cells[c]? = some cell) (fuel : Nat) :
    exec (copyWithin (fuel + 1) (.cell c)) s
      = exec (do
          let head ← copyWithin fuel cell.head
          let tail ← copyWithin fuel cell.tail
          newCell head tail 0) s := by
  rw [copyWithin, exec_bind_ok (exec_cell? c s)]
  simp only [hget]

lemma copyWithin_refines : ∀ (fuel : Nat) {s : Store} {ν : Reading} {d : Datum} {n : Noun},
    s.Fits ν → s.Denotes ν d n → n.height ≤ fuel →
      Refines s ν (copyWithin fuel d) (.ok n) Denotes
  | fuel, s, ν, .atom k, n, hs, hd, _ => by
      rw [copyWithin]
      · exact .pure hs hd
      · simp
  | fuel, s, ν, .flag b, n, hs, hd, _ => by
      rw [copyWithin]
      · exact .pure hs hd
      · simp
  | 0, s, ν, .cell c, n, hs, hd, hn => by
      obtain ⟨hc, rfl⟩ := hd
      obtain ⟨cell, h, t, _, hν, _⟩ := hs.get hc
      simp [hν, Noun.height] at hn
  | fuel + 1, s, ν, .cell c, n, hs, hd, hn => by
      obtain ⟨hc, rfl⟩ := hd
      obtain ⟨cell, h, t, hget, hν, hcell⟩ := hs.get hc
      rw [hν, Noun.height] at hn
      rw [hν]
      refine .congr (exec_copyWithin_cell hget fuel) ?_
      refine (copyWithin_refines fuel hs hcell.head (by omega)).bind_ok fun s₁ ν₁ _ h₁ hs₁ hhead => ?_
      refine (copyWithin_refines fuel hs₁ (hcell.tail.later h₁) (by omega)).bind_ok
        fun s₂ ν₂ _ h₂ hs₂ htail => ?_
      exact cell_refines hs₂ (hhead.later h₂) htail

lemma copy_refines (hs : s.Fits ν) (hd : s.Denotes ν d n) :
    Refines s ν (copy d) (copy n) Denotes :=
  .congr (exec_bind_ok (exec_get s))
    (copyWithin_refines _ hs hd (le_of_eq (hs.heightOf_eq hd).symm))

/-! ## What is built on the memory -/

lemma split_refines (hs : s.Fits ν) (hd : s.Denotes ν d n) :
    Refines s ν (split d) (split n) DenotesBoth := by
  unfold split
  refine (settle_refines hs hd).bind fun s₁ ν₁ _ _ _ hs₁ hd₁ => ?_
  refine (look_refines hs₁ hd₁).bind fun s₂ ν₂ _ _ _ hs₂ hshape => ?_
  cases hshape with
  | atom k => exact .throw hs₂ _
  | cell hh ht => exact .pure hs₂ ⟨hh, ht⟩

lemma head_refines (hs : s.Fits ν) (hd : s.Denotes ν d n) :
    Refines s ν (head d) (head n) Denotes := by
  unfold head
  exact (split_refines hs hd).bind fun _ _ _ _ _ hs₁ hboth => .pure hs₁ hboth.1

lemma tail_refines (hs : s.Fits ν) (hd : s.Denotes ν d n) :
    Refines s ν (tail d) (tail n) Denotes := by
  unfold tail
  exact (split_refines hs hd).bind fun _ _ _ _ _ hs₁ hboth => .pure hs₁ hboth.2

lemma isCell_refines (hs : s.Fits ν) (hd : s.Denotes ν d n) :
    Refines s ν (isCell d) (isCell n) Equal := by
  unfold isCell
  refine (settle_refines hs hd).bind fun s₁ ν₁ _ _ _ hs₁ hd₁ => ?_
  refine (look_refines hs₁ hd₁).bind fun s₂ ν₂ _ _ _ hs₂ hshape => ?_
  cases hshape with
  | atom k => exact .pure hs₂ rfl
  | cell hh ht => exact .pure hs₂ rfl

lemma bump_refines (hs : s.Fits ν) (hd : s.Denotes ν d n) :
    Refines s ν (bump d) (bump n) Denotes := by
  unfold bump
  refine (settle_refines hs hd).bind fun s₁ ν₁ _ _ _ hs₁ hd₁ => ?_
  refine (look_refines hs₁ hd₁).bind fun s₂ ν₂ _ _ _ hs₂ hshape => ?_
  cases hshape with
  | atom k => exact .pure hs₂ (atom_denotes s₂ ν₂ (k + 1))
  | cell hh ht => exact .throw hs₂ _

lemma equal_refines (hs : s.Fits ν) (hd : s.Denotes ν d m) (he : s.Denotes ν e n) :
    Refines s ν (equal d e) (equal m n) Equal := by
  unfold equal
  refine (settle_refines hs hd).bind fun s₁ ν₁ _ _ h₁ hs₁ hd₁ => ?_
  refine (settle_refines hs₁ (he.later h₁)).bind fun s₂ ν₂ _ _ h₂ hs₂ he₂ => ?_
  exact same_refines hs₂ (hd₁.later h₂) he₂

lemma truth_refines {b c : Bool} (hs : s.Fits ν) (h : b = c) :
    Refines s ν (pure (truth StoreM b)) (.ok (truth (Except Fault) c)) Denotes := by
  subst h
  exact .pure hs (atom_denotes s ν _)

/-! ## Axes -/

/-- Looking up a part of a held noun finds what it finds in the plain noun. -/
lemma slot_refines : ∀ (bound : Nat) (axis : Int) {s : Store} {ν : Reading} {d : Datum} {n : Noun},
    s.Fits ν → s.Denotes ν d n → Refines s ν (slot bound axis d) (slot bound axis n) Denotes
  | 0, _, _, _, _, _, hs, _ => .throw hs _
  | bound + 1, axis, s, ν, d, n, hs, hd => by
      unfold slot
      split_ifs with h0 h1
      · exact .throw hs _
      · exact .pure hs hd
      · refine (slot_refines bound (axis / 2) hs hd).bind fun s₁ ν₁ _ _ _ hs₁ hpart => ?_
        exact head_refines hs₁ hpart
      · refine (slot_refines bound (axis / 2) hs hd).bind fun s₁ ν₁ _ _ _ hs₁ hpart => ?_
        exact tail_refines hs₁ hpart

lemma edit_refines : ∀ (bound : Nat) (axis : Int) {s : Store} {ν : Reading} {p d : Datum}
    {m n : Noun}, s.Fits ν → s.Denotes ν p m → s.Denotes ν d n →
      Refines s ν (edit bound axis p d) (edit bound axis m n) Denotes
  | 0, _, _, _, _, _, _, _, hs, _, _ => .throw hs _
  | bound + 1, axis, s, ν, p, d, m, n, hs, hp, hd => by
      unfold edit
      split_ifs with h1 h2
      · exact .pure hs hp
      · refine (slot_refines bound (axis + 1) hs hd).bind fun s₁ ν₁ _ _ h₁ hs₁ hsibling => ?_
        refine (cell_refines hs₁ (hp.later h₁) hsibling).bind fun s₂ ν₂ _ _ h₂ hs₂ hcell => ?_
        exact edit_refines bound (axis / 2) hs₂ hcell (hd.later (h₁.trans h₂))
      · refine (slot_refines bound (axis - 1) hs hd).bind fun s₁ ν₁ _ _ h₁ hs₁ hsibling => ?_
        refine (cell_refines hs₁ hsibling (hp.later h₁)).bind fun s₂ ν₂ _ _ h₂ hs₂ hcell => ?_
        exact edit_refines bound (axis / 2) hs₂ hcell (hd.later (h₁.trans h₂))

lemma slotAt_refines (bound : Nat) (hs : s.Fits ν) (hd : s.Denotes ν d m) (he : s.Denotes ν e n) :
    Refines s ν (slotAt bound d e) (slotAt bound m n) Denotes := by
  unfold slotAt
  refine (settle_refines hs hd).bind fun s₁ ν₁ _ _ h₁ hs₁ hd₁ => ?_
  refine (settle_refines hs₁ (he.later h₁)).bind fun s₂ ν₂ _ _ h₂ hs₂ he₂ => ?_
  refine (look_refines hs₂ (hd₁.later h₂)).bind fun s₃ ν₃ _ _ h₃ hs₃ hshape => ?_
  cases hshape with
  | atom x => exact slot_refines bound x hs₃ (he₂.later h₃)
  | cell _ _ => exact .throw hs₃ _

lemma editAt_refines (bound : Nat) {p : Datum} {k : Noun} (hs : s.Fits ν) (hd : s.Denotes ν d m)
    (hp : s.Denotes ν p k) (he : s.Denotes ν e n) :
    Refines s ν (editAt bound d p e) (editAt bound m k n) Denotes := by
  unfold editAt
  refine (settle_refines hs hd).bind fun s₁ ν₁ _ _ h₁ hs₁ hd₁ => ?_
  refine (settle_refines hs₁ (hp.later h₁)).bind fun s₂ ν₂ _ _ h₂ hs₂ hp₂ => ?_
  refine (settle_refines hs₂ (he.later (h₁.trans h₂))).bind fun s₃ ν₃ _ _ h₃ hs₃ he₃ => ?_
  refine (look_refines hs₃ (hd₁.later (h₂.trans h₃))).bind fun s₄ ν₄ _ _ h₄ hs₄ hshape => ?_
  cases hshape with
  | atom x => exact edit_refines bound x hs₄ (hp₂.later (h₃.trans h₄)) (he₃.later h₄)
  | cell _ _ => exact .throw hs₄ _

/-! ## The machine -/

/-- The rule of an opcode refines the plain rule, if evaluations inside it do. -/
lemma applyRule_refines (bound : Nat) {run : Datum → Datum → StoreM Datum}
    {run' : Noun → Noun → Except Fault Noun}
    (hrun : ∀ {s ν d e m n}, s.Fits ν → s.Denotes ν d m → s.Denotes ν e n →
      Refines s ν (run d e) (run' m n) Denotes)
    (opcode : Int) (hs : s.Fits ν) (hd : s.Denotes ν d m) (he : s.Denotes ν e n) :
    Refines s ν (applyRule bound run d opcode e) (applyRule bound run' m opcode n) Denotes := by
  unfold applyRule
  split
  · exact slotAt_refines bound hs he hd
  · exact .pure hs he
  · refine (split_refines hs he).bind fun s₁ ν₁ _ _ h₁ hs₁ ⟨hb, hc⟩ => ?_
    refine (hrun hs₁ (hd.later h₁) hb).bind fun s₂ ν₂ _ _ h₂ hs₂ hsubject => ?_
    refine (hrun hs₂ (hd.later (h₁.trans h₂)) (hc.later h₂)).bind
      fun s₃ ν₃ _ _ h₃ hs₃ hformula => ?_
    exact hrun hs₃ (hsubject.later h₃) hformula
  · refine (hrun hs hd he).bind fun s₁ ν₁ _ _ _ hs₁ hresult => ?_
    exact (isCell_refines hs₁ hresult).bind fun s₂ ν₂ _ _ _ hs₂ heq => truth_refines hs₂ heq
  · refine (hrun hs hd he).bind fun s₁ ν₁ _ _ _ hs₁ hresult => ?_
    exact bump_refines hs₁ hresult
  · refine (split_refines hs he).bind fun s₁ ν₁ _ _ h₁ hs₁ ⟨hb, hc⟩ => ?_
    refine (hrun hs₁ (hd.later h₁) hb).bind fun s₂ ν₂ _ _ h₂ hs₂ hleft => ?_
    refine (hrun hs₂ (hd.later (h₁.trans h₂)) (hc.later h₂)).bind
      fun s₃ ν₃ _ _ h₃ hs₃ hright => ?_
    exact (equal_refines hs₃ (hleft.later h₃) hright).bind
      fun s₄ ν₄ _ _ _ hs₄ heq => truth_refines hs₄ heq
  · refine (split_refines hs he).bind fun s₁ ν₁ _ _ h₁ hs₁ ⟨htest, hbranches⟩ => ?_
    refine (split_refines hs₁ hbranches).bind fun s₂ ν₂ _ _ h₂ hs₂ ⟨hyes, hno⟩ => ?_
    refine (cell_refines hs₂ (atom_denotes s₂ ν₂ 4) (htest.later h₂)).bind
      fun s₃ ν₃ _ _ h₃ hs₃ honce => ?_
    refine (cell_refines hs₃ (atom_denotes s₃ ν₃ 4) honce).bind fun s₄ ν₄ _ _ h₄ hs₄ htwice => ?_
    have h14 := (h₁.trans h₂).trans (h₃.trans h₄)
    refine (hrun hs₄ (hd.later h14) htwice).bind fun s₅ ν₅ _ _ h₅ hs₅ hresult => ?_
    refine (cell_refines hs₅ (atom_denotes s₅ ν₅ 2) (atom_denotes s₅ ν₅ 3)).bind
      fun s₆ ν₆ _ _ h₆ hs₆ hpair => ?_
    refine (cell_refines hs₆ (atom_denotes s₆ ν₆ 0) (hresult.later h₆)).bind
      fun s₇ ν₇ _ _ h₇ hs₇ hlookup => ?_
    refine (hrun hs₇ (hpair.later h₇) hlookup).bind fun s₈ ν₈ _ _ h₈ hs₈ hchoice => ?_
    have h38 := ((h₃.trans h₄).trans (h₅.trans h₆)).trans (h₇.trans h₈)
    refine (cell_refines hs₈ (hyes.later h38) (hno.later h38)).bind
      fun s₉ ν₉ _ _ h₉ hs₉ hboth => ?_
    refine (cell_refines hs₉ (atom_denotes s₉ ν₉ 0) (hchoice.later h₉)).bind
      fun s' ν' _ _ h' hs' hpick => ?_
    refine (hrun hs' (hboth.later h') hpick).bind fun s'' ν'' _ _ h'' hs'' hbranch => ?_
    exact hrun hs'' (hd.later (((h₁.trans h₂).trans h38).trans ((h₉.trans h').trans h''))) hbranch
  · refine (split_refines hs he).bind fun s₁ ν₁ _ _ h₁ hs₁ ⟨hb, hc⟩ => ?_
    refine (hrun hs₁ (hd.later h₁) hb).bind fun s₂ ν₂ _ _ h₂ hs₂ hsubject => ?_
    exact hrun hs₂ hsubject (hc.later h₂)
  · refine (split_refines hs he).bind fun s₁ ν₁ _ _ h₁ hs₁ ⟨hb, hc⟩ => ?_
    refine (hrun hs₁ (hd.later h₁) hb).bind fun s₂ ν₂ _ _ h₂ hs₂ hpinned => ?_
    refine (cell_refines hs₂ hpinned (hd.later (h₁.trans h₂))).bind
      fun s₃ ν₃ _ _ h₃ hs₃ hsubject => ?_
    exact hrun hs₃ hsubject (hc.later (h₂.trans h₃))
  · refine (split_refines hs he).bind fun s₁ ν₁ _ _ h₁ hs₁ ⟨hb, hc⟩ => ?_
    refine (hrun hs₁ (hd.later h₁) hc).bind fun s₂ ν₂ _ _ h₂ hs₂ hcore => ?_
    refine (copy_refines hs₂ (hb.later h₂)).bind fun s₃ ν₃ _ _ h₃ hs₃ haxis => ?_
    refine (cell_refines hs₃ (atom_denotes s₃ ν₃ 0) haxis).bind fun s₄ ν₄ _ _ h₄ hs₄ harm => ?_
    refine (cell_refines hs₄ (atom_denotes s₄ ν₄ 0) (atom_denotes s₄ ν₄ 1)).bind
      fun s₅ ν₅ _ _ h₅ hs₅ hself => ?_
    refine (cell_refines hs₅ hself (harm.later h₅)).bind fun s₆ ν₆ _ _ h₆ hs₆ hargs => ?_
    refine (cell_refines hs₆ (atom_denotes s₆ ν₆ 2) hargs).bind
      fun s₇ ν₇ _ _ h₇ hs₇ hformula => ?_
    exact hrun hs₇ (hcore.later (((h₃.trans h₄).trans (h₅.trans h₆)).trans h₇)) hformula
  · refine (split_refines hs he).bind fun s₁ ν₁ _ _ h₁ hs₁ ⟨htarget, hd'⟩ => ?_
    refine (look_refines hs₁ htarget).bind fun s₂ ν₂ _ _ h₂ hs₂ hshape => ?_
    cases hshape with
    | atom _ => exact .throw hs₂ _
    | cell haxis hc =>
        refine (hrun hs₂ (hd.later (h₁.trans h₂)) hc).bind fun s₃ ν₃ _ _ h₃ hs₃ hpart => ?_
        refine (hrun hs₃ (hd.later ((h₁.trans h₂).trans h₃)) (hd'.later (h₂.trans h₃))).bind
          fun s₄ ν₄ _ _ h₄ hs₄ hwhole => ?_
        exact editAt_refines bound hs₄ (haxis.later (h₃.trans h₄)) (hpart.later h₄) hwhole
  · refine (split_refines hs he).bind fun s₁ ν₁ _ _ h₁ hs₁ ⟨hhint, hd'⟩ => ?_
    refine (look_refines hs₁ hhint).bind fun s₂ ν₂ _ _ h₂ hs₂ hshape => ?_
    cases hshape with
    | atom _ => exact hrun hs₂ (hd.later (h₁.trans h₂)) (hd'.later h₂)
    | cell _ hc =>
        refine (hrun hs₂ (hd.later (h₁.trans h₂)) hc).bind fun s₃ ν₃ _ _ h₃ hs₃ hclue => ?_
        refine (hrun hs₃ (hd.later ((h₁.trans h₂).trans h₃)) (hd'.later (h₂.trans h₃))).bind
          fun s₄ ν₄ _ _ h₄ hs₄ hresult => ?_
        refine (cell_refines hs₄ (hclue.later h₄) hresult).bind
          fun s₅ ν₅ _ _ h₅ hs₅ hsubject => ?_
        refine (cell_refines hs₅ (atom_denotes s₅ ν₅ 0) (atom_denotes s₅ ν₅ 3)).bind
          fun s₆ ν₆ _ _ h₆ hs₆ hformula => ?_
        exact hrun hs₆ (hsubject.later h₆) hformula
  · exact .throw hs _

/-- Evaluating held nouns gives what evaluating the plain nouns gives. -/
lemma nock_refines : ∀ (bound : Nat) {s : Store} {ν : Reading} {d e : Datum} {m n : Noun},
    s.Fits ν → s.Denotes ν d m → s.Denotes ν e n →
      Refines s ν (nock bound d e) (nock bound m n) Denotes
  | 0, _, _, _, _, _, _, hs, _, _ => .throw hs _
  | bound + 1, s, ν, d, e, m, n, hs, hd, he => by
      unfold nock
      refine (settle_refines hs hd).bind fun s₁ ν₁ _ _ h₁ hs₁ hd₁ => ?_
      refine (settle_refines hs₁ (he.later h₁)).bind fun s₂ ν₂ _ _ h₂ hs₂ he₂ => ?_
      refine (look_refines hs₂ he₂).bind fun s₃ ν₃ _ _ h₃ hs₃ hshape => ?_
      have hd₃ := hd₁.later (h₂.trans h₃)
      cases hshape with
      | atom _ => exact .throw hs₃ _
      | cell hop harg =>
          refine (look_refines hs₃ hop).bind fun s₄ ν₄ _ _ h₄ hs₄ hshape => ?_
          cases hshape with
          | atom opcode =>
              exact applyRule_refines bound (nock_refines bound) opcode hs₄ (hd₃.later h₄)
                (harg.later h₄)
          | cell _ _ =>
              refine (nock_refines bound hs₄ (hd₃.later h₄) (hop.later h₄)).bind
                fun s₅ ν₅ _ _ h₅ hs₅ hleft => ?_
              refine (nock_refines bound hs₅ (hd₃.later (h₄.trans h₅))
                (harg.later (h₄.trans h₅))).bind fun s₆ ν₆ _ _ h₆ hs₆ hright => ?_
              exact cell_refines hs₆ (hleft.later h₆) hright

/-! ## Reading serialised nouns -/

/-- Two tables of complete parts have the same positions, with data that denote the nouns. -/
def Store.Knows (s : Store) (ν : Reading) (known : Cue.Known Datum) (known' : Cue.Known Noun) :
    Prop :=
  List.Forall₂ (fun a b => a.1 = b.1 ∧ s.Denotes ν a.2 b.2) known known'

/-- What is left after a part: the part, where reading goes on, and the table. -/
def Store.PartRead (s : Store) (ν : Reading) (x : Datum × Bits.Tape × Cue.Known Datum)
    (y : Noun × Bits.Tape × Cue.Known Noun) : Prop :=
  s.Denotes ν x.1 y.1 ∧ x.2.1 = y.2.1 ∧ s.Knows ν x.2.2 y.2.2

section

variable {known : Cue.Known Datum} {known' : Cue.Known Noun}

lemma Store.Knows.later {s' : Store} {ν' : Reading} (h : s.Knows ν known known')
    (hs : s.Extends ν s' ν') : s'.Knows ν' known known' :=
  List.Forall₂.imp (fun _ _ hab => ⟨hab.1, hab.2.later hs⟩) h

/-- Both tables know a position, or neither does. -/
lemma Store.Knows.lookup (h : s.Knows ν known known') (p : Nat) :
    (known.lookup p = none ∧ known'.lookup p = none) ∨
      ∃ d n, known.lookup p = some d ∧ known'.lookup p = some n ∧ s.Denotes ν d n := by
  induction h with
  | nil => exact Or.inl ⟨rfl, rfl⟩
  | @cons a b _ _ hab _ ih =>
      obtain ⟨hposition, hd⟩ := hab
      rw [List.lookup_cons, List.lookup_cons, ← hposition]
      cases p == a.1 with
      | true => exact Or.inr ⟨a.2, b.2, rfl, rfl, hd⟩
      | false => exact ih

lemma ofExcept_refines (hs : s.Fits ν) (x : Except Fault α) :
    Refines s ν (MonadExcept.ofExcept x : StoreM α) (MonadExcept.ofExcept x) Equal := by
  cases x with
  | error e => exact .throw hs e
  | ok a => exact .pure hs rfl

end

/-- Reading a part into a store reads what reading a plain noun reads. -/
lemma part_refines : ∀ (fuel : Nat) (tape : Bits.Tape) {s : Store} {ν : Reading}
    {known : Cue.Known Datum} {known' : Cue.Known Noun}, s.Fits ν → s.Knows ν known known' →
      Refines s ν (Cue.part fuel tape known) (Cue.part fuel tape known') PartRead
  | 0, _, _, _, _, _, hs, _ => .throw hs _
  | fuel + 1, tape, s, ν, known, known', hs, hknown => by
      unfold Cue.part
      refine (ofExcept_refines hs tape.next).bind fun s₁ ν₁ ⟨structured, tape₁⟩ _ h₁ hs₁ heq => ?_
      cases heq
      cases structured with
      | false =>
          refine (ofExcept_refines hs₁ tape₁.rub).bind fun s₂ ν₂ ⟨k, tape₂⟩ _ h₂ hs₂ heq => ?_
          cases heq
          exact .pure hs₂ ⟨rfl, rfl, .cons ⟨rfl, rfl⟩ (hknown.later (h₁.trans h₂))⟩
      | true =>
          refine (ofExcept_refines hs₁ tape₁.next).bind fun s₂ ν₂ ⟨again, tape₂⟩ _ h₂ hs₂ heq => ?_
          cases heq
          have hknown₂ := hknown.later (h₁.trans h₂)
          cases again with
          | true =>
              refine (ofExcept_refines hs₂ tape₂.rub).bind fun s₃ ν₃ ⟨p, tape₃⟩ _ h₃ hs₃ heq => ?_
              cases heq
              have hknown₃ := hknown₂.later h₃
              rcases hknown₃.lookup p with ⟨hnone, hnone'⟩ | ⟨d, n, hsome, hsome', hd⟩
              · simp only [hnone, hnone']
                exact .throw hs₃ _
              · simp only [hsome, hsome']
                exact .pure hs₃ ⟨hd, rfl, .cons ⟨rfl, hd⟩ hknown₃⟩
          | false =>
              refine (part_refines fuel tape₂ hs₂ hknown₂).bind
                fun s₃ ν₃ ⟨d, tape₃, known₃⟩ ⟨m, _, known₃'⟩ h₃ hs₃ ⟨hd, htape, hknown₃⟩ => ?_
              cases htape
              refine (part_refines fuel tape₃ hs₃ hknown₃).bind
                fun s₄ ν₄ ⟨e, tape₄, known₄⟩ ⟨n, _, known₄'⟩ h₄ hs₄ ⟨he, htape, hknown₄⟩ => ?_
              cases htape
              refine (cell_refines hs₄ (hd.later h₄) he).bind fun s₅ ν₅ _ _ h₅ hs₅ hcell => ?_
              exact .pure hs₅ ⟨hcell, rfl, .cons ⟨rfl, hcell⟩ (hknown₄.later h₅)⟩

/-- Reading bits into a store reads the noun that they stand for, or fails as it does. -/
lemma cueBits_refines (hs : s.Fits ν) (bits : List Bool) :
    Refines s ν (cueBits bits) (Noun.cueBits bits) Denotes := by
  unfold Noun.cueBits cueBits
  exact (part_refines _ _ hs .nil).bind fun _ _ _ _ _ hs₁ hread => .pure hs₁ hread.1

/-- The noun `[[1 2] 1 2]`.  A store can hold its two parts as one cell or as two. -/
def evenPair : Noun :=
  .cell (.cell (.atom 1) (.atom 2)) (.cell (.atom 1) (.atom 2))

end Nock
