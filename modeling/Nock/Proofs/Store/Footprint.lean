import Nock.Proofs.Store.CommonParts
import Nock.Proofs.Store.Growth
import Nock.Proofs.Store.Streams
import Nock.Store.Memory

/-!
# How far comparing, hashing and serialising reach

Comparing, hashing and serialising change cells, but they come by cells in one way only: from the data
that they are given, going down.  So take any set of cells that is **closed**, which means that its
cells name only cells of the set.  An effect on data within the set changes no cell outside, and since
all that it writes into a cell it has read from one, the set is closed afterwards (`Confined`).

The set is the same all the time, although the parts of its cells are moved about.  That is why what
holds of one step holds of a sequence: `ActsWithin` says it of an effect together with what is known
of its result, and sequences inherit it (`ActsWithin.bind`).  Nothing here asks what the cells denote
or which mugs they remember.
-/

namespace Nock

open StoreM Store

variable {α β : Type} {R : CellId → Prop}

namespace Store

variable {s s' s'' : Store} {c left right : CellId} {cell : Cell}

/-! ## Changes within a set of cells -/

/-- From the one store to the other nothing but the given cells changed, and these still name only
each other. -/
structure Confined (R : CellId → Prop) (s s' : Store) : Prop where
  closed : s'.Closed R
  kept : ∀ c, ¬R c → s'.cells[c]? = s.cells[c]?

lemma Confined.refl (hs : s.Closed R) : Confined R s s :=
  ⟨hs, fun _ _ => rfl⟩

lemma Confined.trans (h : Confined R s s') (h' : Confined R s' s'') : Confined R s s'' :=
  ⟨h'.closed, fun c hc => (h'.kept c hc).trans (h.kept c hc)⟩

/-- A change to one of the cells, if it brings in no other cell. -/
lemma Closed.update (hs : s.Closed R) (hc : R c) {f : Cell → Cell}
    (hf : ∀ cell, s.cells[c]? = some cell → (f cell).head.Within R ∧ (f cell).tail.Within R) :
    Confined R s (s.update c f) := by
  refine ⟨fun d cell hd hget => ?_, fun d hd => update_get_of_ne ?_ f⟩
  · by_cases hcd : c = d
    · subst hcd
      simp only [Store.update, Array.getElem?_modify, if_true] at hget
      obtain ⟨old, hold, rfl⟩ := Option.map_eq_some_iff.mp hget
      exact hf old hold
    · rw [update_get_of_ne hcd] at hget
      exact hs d cell hd hget
  · rintro rfl
    exact hd hc

lemma Closed.shareHead (hs : s.Closed R) (hl : R left) (hr : R right) :
    Confined R s (s.shareHead left right) := by
  unfold Store.shareHead
  split
  · rename_i l hget
    exact hs.update hr fun cell hcell => ⟨(hs left l hl hget).1, (hs right cell hr hcell).2⟩
  · exact .refl hs

lemma Closed.shareTail (hs : s.Closed R) (hl : R left) (hr : R right) :
    Confined R s (s.shareTail left right) := by
  unfold Store.shareTail
  split
  · rename_i l hget
    exact hs.update hr fun cell hcell => ⟨(hs right cell hr hcell).1, (hs left l hl hget).2⟩
  · exact .refl hs

lemma Closed.shareMug (hs : s.Closed R) (hl : R left) (hr : R right) :
    Confined R s (s.shareMug left right) := by
  unfold Store.shareMug
  split
  · split_ifs
    · exact hs.update hr fun cell hcell => hs right cell hr hcell
    · exact hs.update hl fun cell hcell => hs left cell hl hcell
    · exact .refl hs
  · exact .refl hs

lemma within_nothing : Datum.nothing.Within R := by
  simp [Datum.Within, Datum.named]

/-- The parts of a cell that are compared. -/
lemma Closed.getD_part (hs : s.Closed R) (hc : R c) (turn : Bool) :
    ((s.cells[c]?.map (Cell.part · turn)).getD .nothing).Within R := by
  cases hget : s.cells[c]? with
  | none => exact within_nothing
  | some cell => exact hs.part hc hget turn

lemma Closed.heads (hs : s.Closed R) (hl : R left) (hr : R right) :
    (s.heads left right).1.Within R ∧ (s.heads left right).2.Within R :=
  ⟨hs.getD_part hl false, hs.getD_part hr false⟩

lemma Closed.tails (hs : s.Closed R) (hl : R left) (hr : R right) :
    (s.tails left right).1.Within R ∧ (s.tails left right).2.Within R :=
  ⟨hs.getD_part hl true, hs.getD_part hr true⟩

/-! ## Comparing -/

/-- Comparing data stays within the set if comparing cells does. -/
lemma compare_confined {cells : CellId → CellId → Store → Bool × Store}
    (hcells : ∀ c d s, R c → R d → s.Closed R → Confined R s (cells c d s).2)
    (left right : Datum) (s : Store) :
    left.Within R → right.Within R → s.Closed R → Confined R s (compare cells left right s).2 := by
  induction left, right, s using compare.induct_unfolding cells
    (fun xs ys s outcome => (∀ x ∈ xs, x.Within R) → (∀ y ∈ ys, y.Within R) → s.Closed R →
      Confined R s outcome.2) with
  | case1 left right s =>
      intro hl hr hs
      exact hcells left right s (Datum.within_cell.mp hl) (Datum.within_cell.mp hr) hs
  | case2 xs ys s _ ih =>
      intro hl hr hs
      exact ih (Datum.within_list.mp hl) (Datum.within_list.mp hr) hs
  | case3 xs ys s _ =>
      intro _ _ hs
      exact .refl hs
  | case4 xs ys s ih =>
      intro hl hr hs
      exact ih (Datum.within_tuple.mp hl) (Datum.within_tuple.mp hr) hs
  | case5 left right s _ _ _ =>
      intro _ _ hs
      exact .refl hs
  | case6 s _ _ hs => exact .refl hs
  | case7 x xs y ys s _ ih hxs hys hs =>
      exact ih (List.forall_mem_cons.mp hxs).2 (List.forall_mem_cons.mp hys).2 hs
  | case8 x xs y ys s _ s₁ hcompare hfirst hrest hxs hys hs =>
      obtain ⟨hx, hxs⟩ := List.forall_mem_cons.mp hxs
      obtain ⟨hy, hys⟩ := List.forall_mem_cons.mp hys
      have hstep := hfirst hx hy hs
      rw [hcompare] at hstep
      exact hstep.trans (hrest hxs hys hstep.closed)
  | case9 x xs y ys s _ s₁ hcompare hfirst hxs hys hs =>
      have hstep := hfirst (hxs x List.mem_cons_self) (hys y List.mem_cons_self) hs
      rw [hcompare] at hstep
      exact hstep
  | case10 xs ys s _ _ _ _ hs => exact .refl hs

/-- Comparing two cells stays within the set if comparing their parts does. -/
lemma unifyCells_confined {parts : Datum → Datum → Store → Bool × Store}
    (hparts : ∀ left right s, left.Within R → right.Within R → s.Closed R →
      Confined R s (parts left right s).2)
    (left right : CellId) (s : Store) (hl : R left) (hr : R right) (hs : s.Closed R) :
    Confined R s (unifyCells parts left right s).2 := by
  obtain ⟨hhl, hhr⟩ := hs.heads hl hr
  have hheads := hparts _ _ s hhl hhr hs
  obtain hmugs | ⟨s₁, hrun, hends⟩ | ⟨s₁, answer, s₂, hrun, hrun', hends⟩ :=
    unifyCells_cases parts left right s
  · rw [hmugs]
    exact .refl hs
  · rw [hrun] at hheads
    rwa [hends]
  · rw [hrun] at hheads
    have hshared := hheads.closed.shareHead hl hr
    obtain ⟨htl, htr⟩ := hshared.closed.tails hl hr
    have htails := hparts _ _ _ htl htr hshared.closed
    rw [hrun'] at htails
    have hbefore := (hheads.trans hshared).trans htails
    rw [hends]
    cases answer with
    | false => exact hbefore
    | true =>
        have htail := htails.closed.shareTail hl hr
        exact (hbefore.trans htail).trans (htail.closed.shareMug hl hr)

lemma unifyWithin_confined : ∀ (fuel : Nat) (left right : Datum) (s : Store), left.Within R →
    right.Within R → s.Closed R → Confined R s (unifyWithin fuel left right s).2
  | 0 => compare_confined fun _ _ _ _ _ hs => .refl hs
  | fuel + 1 => compare_confined (unifyCells_confined (unifyWithin_confined fuel))

/-- A comparison changes no cell that its operands do not lead to. -/
lemma unify_confined {left right : Datum} (hl : left.Within R) (hr : right.Within R)
    (hs : s.Closed R) : Confined R s (s.unify left right).2 :=
  unifyWithin_confined _ left right s hl hr hs

end Store

/-! ## Effects within a set of cells -/

/-- Run on a store in which the given cells name only each other, the effect changes nothing else, and
`Q` holds of what it gives. -/
def RunsWithin (R : CellId → Prop) (x : StateM Store α) (Q : α → Prop) : Prop :=
  ∀ s, s.Closed R → Confined R s (x.run s).2 ∧ Q (x.run s).1

/-- The same of an effect that may fail: `Q` holds of its value, if it gives one. -/
def ActsWithin (R : CellId → Prop) (x : StoreM α) (Q : α → Prop) : Prop :=
  RunsWithin R x.run fun outcome => ∀ a, outcome = .ok a → Q a

section

variable {P : α → Prop} {Q : β → Prop}

namespace RunsWithin

lemma pure {a : α} (h : P a) : RunsWithin R (pure a) P :=
  fun _ hs => ⟨.refl hs, h⟩

lemma get : RunsWithin R (get : StateM Store Store) fun _ => True :=
  fun _ hs => ⟨.refl hs, trivial⟩

lemma bind {x : StateM Store α} {f : α → StateM Store β} (hx : RunsWithin R x P)
    (hf : ∀ a, P a → RunsWithin R (f a) Q) : RunsWithin R (x >>= f) Q := by
  intro s hs
  obtain ⟨hstep, hP⟩ := hx s hs
  obtain ⟨hstep', hQ⟩ := hf _ hP _ hstep.closed
  rw [StateT.run_bind]
  exact ⟨hstep.trans hstep', hQ⟩

end RunsWithin

namespace ActsWithin

lemma pure {a : α} (h : P a) : ActsWithin R (pure a) P := by
  rintro s hs
  exact ⟨.refl hs, by rintro b ⟨⟩; exact h⟩

lemma throw (e : Fault) : ActsWithin R (throw e : StoreM α) P := by
  rintro s hs
  exact ⟨.refl hs, by rintro b ⟨⟩⟩

lemma ofExcept {x : Except Fault α} : ActsWithin R (MonadExcept.ofExcept x) fun _ => True := by
  cases x with
  | error e => exact .throw e
  | ok a => exact .pure trivial

lemma get : ActsWithin R (get : StoreM Store) fun _ => True :=
  fun _ hs => ⟨.refl hs, fun _ _ => trivial⟩

lemma modifyGet {f : Store → α × Store} (h : ∀ s, s.Closed R → Confined R s (f s).2) :
    ActsWithin R (modifyGet f : StoreM α) fun _ => True :=
  fun s hs => ⟨h s hs, fun _ _ => trivial⟩

lemma modify {f : Store → Store} (h : ∀ s, s.Closed R → Confined R s (f s)) :
    ActsWithin R (modify f : StoreM PUnit) fun _ => True :=
  fun s hs => ⟨h s hs, fun _ _ => trivial⟩

lemma lift {x : StateM Store α} (h : RunsWithin R x P) : ActsWithin R (x : StoreM α) P := by
  rintro s hs
  obtain ⟨hstep, hP⟩ := h s hs
  exact ⟨hstep, by rintro a ⟨⟩; exact hP⟩

/-- A cell of the set has its parts in the set. -/
lemma cell? {c : CellId} (hc : R c) : ActsWithin R (StoreM.cell? c)
    fun found => ∀ cell, found = some cell → cell.head.Within R ∧ cell.tail.Within R := by
  rintro s hs
  exact ⟨.refl hs, by rintro found ⟨⟩ cell hget; exact hs c cell hc hget⟩

lemma bind {x : StoreM α} {f : α → StoreM β} (hx : ActsWithin R x P)
    (hf : ∀ a, P a → ActsWithin R (f a) Q) : ActsWithin R (x >>= f) Q := by
  unfold ActsWithin
  rw [ExceptT.run_bind]
  refine RunsWithin.bind hx fun outcome houtcome => ?_
  cases outcome with
  | error e => exact ActsWithin.throw e
  | ok a => exact hf a (houtcome a rfl)

end ActsWithin

end

/-! ## Hashing -/

lemma mugWithin_acts (fuel : Nat) :
    ∀ d : Datum, d.Within R → ActsWithin R (mugWithin fuel d) fun _ => True := by
  induction fuel with
  | zero =>
      intro d _
      cases d with
      | atom k => exact .ofExcept
      | flag b => exact .ofExcept
      | _ => exact .throw _
  | succ fuel ih =>
      intro d hd
      cases d with
      | atom k => exact .ofExcept
      | flag b => exact .ofExcept
      | cell c =>
          have hc : R c := Datum.within_cell.mp hd
          rw [mugWithin]
          refine (ActsWithin.cell? hc).bind fun found hparts => ?_
          cases found with
          | none => exact .throw _
          | some cell =>
              obtain ⟨hhead, htail⟩ := hparts cell rfl
              dsimp only
              split_ifs
              · exact .pure trivial
              refine (ih cell.head hhead).bind fun head _ => (ih cell.tail htail).bind fun tail _ =>
                ActsWithin.ofExcept.bind fun mug _ => (ActsWithin.modify fun s hs => ?_).bind
                  fun _ _ => .pure trivial
              exact hs.update hc fun old hget => hs c old hc hget
      | _ => exact .throw _

/-- Hashing changes no cell that its operand does not lead to. -/
lemma mug_acts {d : Datum} (hd : d.Within R) : ActsWithin R (StoreM.mug d) fun _ => True :=
  ActsWithin.get.bind fun _ _ => mugWithin_acts _ d hd

lemma hash_acts {d : Datum} (hd : d.Within R) : ActsWithin R (StoreM.hash d) fun _ => True := by
  unfold StoreM.hash
  split
  · exact .pure trivial
  · exact mug_acts hd

lemma same_acts {left right : Datum} (hl : left.Within R) (hr : right.Within R) :
    ActsWithin R (StoreM.same left right) fun _ => True :=
  .modifyGet fun _ hs => unify_confined hl hr hs

/-! ## Serialising -/

/-- The cells of the table are among the given ones. -/
def StoreM.Table.Within (R : CellId → Prop) (table : Table) : Prop :=
  ∀ w ∈ table.cells, R w.cell

lemma firstEqual_confined {c : CellId} (hc : R c) : ∀ {candidates : List WrittenCell} {s : Store},
    (∀ w ∈ candidates, R w.cell) → s.Closed R → Confined R s (firstEqual c candidates s).2
  | [], s, _, hs => .refl hs
  | w :: rest, s, hw, hs => by
      obtain ⟨hfirst, hrest⟩ := List.forall_mem_cons.mp hw
      rw [firstEqual]
      split_ifs
      · exact .refl hs
      have hunify := unify_confined (Datum.within_cell.mpr hfirst) (Datum.within_cell.mpr hc) hs
      rcases hrun : s.unify (.cell w.cell) (.cell c) with ⟨answer, s₁⟩
      rw [hrun] at hunify
      cases answer with
      | true => exact hunify
      | false => exact hunify.trans (firstEqual_confined hc hrest hunify.closed)

lemma visit_acts {table : Table} (htable : table.Within R) (start : Nat) {c : CellId} (hc : R c) :
    ActsWithin R (visit table start c)
      fun standing => ∀ table', standing = .entered table' → table'.Within R := by
  have hlook : ∀ mug, ActsWithin R (modifyGet (firstEqual c (table.candidates mug)) : StoreM _)
      fun _ => True := by
    refine fun mug => .modifyGet fun s hs => firstEqual_confined hc (fun w hw => ?_) hs
    rw [Table.candidates, List.mem_reverse, List.mem_filter] at hw
    exact htable w hw.1
  refine (mug_acts (Datum.within_cell.mpr hc)).bind fun mug _ => (hlook mug).bind fun found _ => ?_
  cases found.filter (· ≠ 0) with
  | some position => exact .pure (by rintro table' ⟨⟩)
  | none =>
      refine (hlook mug).bind fun _ _ => .pure ?_
      rintro table' ⟨⟩
      exact List.forall_mem_cons.mpr ⟨hc, htable⟩

lemma encodeNumber_within {table : Table} (htable : table.Within R) (start : Nat) (n : Int) :
    (encodeNumber start table n).2.Within R := by
  unfold encodeNumber
  split <;> exact htable

lemma currentParts_runs {c : CellId} (hc : R c) :
    RunsWithin R (currentParts c) fun parts => parts.1.Within R ∧ parts.2.Within R := by
  intro s hs
  cases hcell : s.cells[c]? with
  | none =>
      have hget : (get : StateM Store Store).run s = (s, s) := rfl
      rw [currentParts, run_bind_eq hget, hcell]
      exact ⟨.refl hs, within_nothing, within_nothing⟩
  | some cell =>
      rw [run_currentParts hcell]
      exact ⟨.refl hs, hs c cell hc hcell⟩

lemma encode_runs (fuel : Nat) : ∀ (start : Nat) {table : Table} {d : Datum}, table.Within R →
    d.Within R → RunsWithin R (StoreM.encode fuel start table d)
      fun encoded => ∀ table', encoded.2 = .ok table' → table'.Within R := by
  induction fuel with
  | zero =>
      intro start table d htable hd
      cases d with
      | atom n => exact .pure (by rintro table' ⟨⟩; exact encodeNumber_within htable start n)
      | flag b => exact .pure (by rintro table' ⟨⟩; exact encodeNumber_within htable start _)
      | _ => exact .pure (by rintro table' ⟨⟩)
  | succ fuel ih =>
      intro start table d htable hd
      cases d with
      | atom n => exact .pure (by rintro table' ⟨⟩; exact encodeNumber_within htable start n)
      | flag b => exact .pure (by rintro table' ⟨⟩; exact encodeNumber_within htable start _)
      | cell c =>
          have hc : R c := Datum.within_cell.mp hd
          rw [StoreM.encode]
          refine RunsWithin.bind (visit_acts htable start hc) fun standing hstanding => ?_
          rcases standing with fault | position | entered
          · exact .pure (by rintro table' ⟨⟩)
          · exact .pure (by rintro table' ⟨⟩; exact htable)
          have hentered : entered.Within R := hstanding _ rfl entered rfl
          refine (currentParts_runs hc).bind fun parts hparts => ?_
          refine (ih (start + 2) hentered hparts.1).bind fun encoded hencoded => ?_
          rcases encoded with ⟨first, fault | middle⟩
          · exact .pure (by rintro table' ⟨⟩)
          refine (currentParts_runs hc).bind fun parts hparts => ?_
          refine (ih _ (hencoded middle rfl) hparts.2).bind fun rest hrest => .pure hrest
      | _ => exact .pure (by rintro table' ⟨⟩)

lemma jamTokens_runs {d : Datum} (hd : d.Within R) :
    RunsWithin R (StoreM.jamTokens d) fun _ => True := by
  have hempty : Table.Within R {} := fun w hw => absurd hw List.not_mem_nil
  refine RunsWithin.get.bind fun s _ => (encode_runs _ 0 hempty hd).bind ?_
  rintro ⟨tokens, outcome⟩ _
  exact .pure trivial

/-- Serialising changes no cell that its operand does not lead to. -/
lemma jam_acts {d : Datum} (hd : d.Within R) : ActsWithin R (StoreM.jam d) fun _ => True := by
  have hbits : ActsWithin R (StoreM.jamBits d) fun _ => True := by
    refine (ActsWithin.lift (jamTokens_runs hd)).bind fun tokens _ => ?_
    rcases tokens with ⟨tokens, _ | fault⟩
    · exact .pure trivial
    · exact .throw fault
  exact hbits.bind fun _ _ => .pure trivial

end Nock
