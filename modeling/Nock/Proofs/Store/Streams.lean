import Nock.Proofs.Store.Jam

/-!
# Serialising onto a bit string

Hashing, comparing and serialising change cells all the time, but none of them touches a bit string
(`mug_keeps_streams`, `unify_streams`, `jamTokens_streams`).  So the bits of a held noun come after
what was there before serialising began, and all other bit strings stay as they are
(`jamOnto_exec`).
-/

namespace Nock

open StoreM Store

namespace Store

/-! ## Comparing -/

@[simp] lemma update_streams (s : Store) (c : CellId) (f : Cell → Cell) :
    (s.update c f).streams = s.streams := rfl

@[simp] lemma shareHead_streams (s : Store) (left right : CellId) :
    (s.shareHead left right).streams = s.streams := by
  unfold shareHead
  split <;> rfl

@[simp] lemma shareTail_streams (s : Store) (left right : CellId) :
    (s.shareTail left right).streams = s.streams := by
  unfold shareTail
  split <;> rfl

@[simp] lemma shareMug_streams (s : Store) (left right : CellId) :
    (s.shareMug left right).streams = s.streams := by
  unfold shareMug
  split
  · split_ifs <;> rfl
  · rfl

/-- Comparing data leaves the bit strings alone if comparing cells does. -/
lemma compare_streams {cells : CellId → CellId → Store → Bool × Store}
    (hcells : ∀ c d s, (cells c d s).2.streams = s.streams) (left right : Datum) (s : Store) :
    (compare cells left right s).2.streams = s.streams := by
  induction left, right, s using compare.induct_unfolding cells
    (fun _ _ s outcome => outcome.2.streams = s.streams) with
  | case1 left right s => exact hcells left right s
  | case2 xs ys s _ ih => exact ih
  | case3 xs ys s _ => rfl
  | case4 xs ys s ih => exact ih
  | case5 left right s _ _ _ => rfl
  | case6 s => rfl
  | case7 x xs y ys s _ ih => exact ih
  | case8 x xs y ys s _ s₁ hcompare hfirst hrest =>
      rw [hcompare] at hfirst
      exact hrest.trans hfirst
  | case9 x xs y ys s _ s₁ hcompare hfirst =>
      rw [hcompare] at hfirst
      exact hfirst
  | case10 xs ys s _ _ => rfl

lemma unifyCells_streams {parts : Datum → Datum → Store → Bool × Store}
    (hparts : ∀ left right s, (parts left right s).2.streams = s.streams) (left right : CellId)
    (s : Store) : (unifyCells parts left right s).2.streams = s.streams := by
  rw [unifyCells]
  split_ifs
  · rfl
  have hheads := hparts (s.heads left right).1 (s.heads left right).2 s
  dsimp only
  rcases hrun : parts (s.heads left right).1 (s.heads left right).2 s with ⟨answer, s₁⟩
  rw [hrun] at hheads
  cases answer with
  | false => exact hheads
  | true =>
      have htails := hparts ((s₁.shareHead left right).tails left right).1
        ((s₁.shareHead left right).tails left right).2 (s₁.shareHead left right)
      dsimp only
      rcases hrun' : parts ((s₁.shareHead left right).tails left right).1
        ((s₁.shareHead left right).tails left right).2 (s₁.shareHead left right) with ⟨answer, s₂⟩
      rw [hrun', shareHead_streams] at htails
      cases answer with
      | false => exact htails.trans hheads
      | true => simpa using htails.trans hheads

lemma unifyWithin_streams : ∀ (fuel : Nat) (left right : Datum) (s : Store),
    (unifyWithin fuel left right s).2.streams = s.streams
  | 0 => compare_streams fun _ _ _ => rfl
  | fuel + 1 => compare_streams (unifyCells_streams (unifyWithin_streams fuel))

/-- Comparing leaves the bit strings alone. -/
lemma unify_streams (left right : Datum) (s : Store) :
    (s.unify left right).2.streams = s.streams :=
  unifyWithin_streams _ left right s

end Store

/-! ## Hashing and looking up -/

lemma mugWithin_keeps_streams (fuel : Nat) :
    ∀ d : Datum, Keeps Store.streams (mugWithin fuel d) := by
  induction fuel with
  | zero =>
      intro d
      cases d with
      | atom k => exact .ofExcept _
      | flag b => exact .ofExcept _
      | _ => exact .throw _
  | succ fuel ih =>
      intro d
      cases d with
      | atom k => exact .ofExcept _
      | flag b => exact .ofExcept _
      | cell c =>
          rw [mugWithin]
          refine (Keeps.get.bind fun s => .pure _).bind fun cell => ?_
          cases cell with
          | none => exact .throw _
          | some cell =>
              dsimp only
              split_ifs
              · exact .pure _
              · refine (ih cell.head).bind fun head => (ih cell.tail).bind fun tail =>
                  (Keeps.ofExcept _).bind fun mug => Keeps.bind ?_ fun _ => .pure _
                exact .modify fun s => update_streams s c _
      | _ => exact .throw _

/-- Hashing leaves the bit strings alone. -/
lemma mug_keeps_streams (d : Datum) : Keeps Store.streams (StoreM.mug d) :=
  Keeps.get.bind fun _ => mugWithin_keeps_streams _ d

lemma firstEqual_streams (c : CellId) : ∀ (candidates : List WrittenCell) (s : Store),
    (firstEqual c candidates s).2.streams = s.streams
  | [], s => rfl
  | w :: rest, s => by
      rw [firstEqual]
      split_ifs
      · rfl
      have hunify := unify_streams (.cell w.cell) (.cell c) s
      rcases hrun : s.unify (.cell w.cell) (.cell c) with ⟨answer, s₁⟩
      rw [hrun] at hunify
      cases answer with
      | true => exact hunify
      | false => exact (firstEqual_streams c rest s₁).trans hunify

lemma visit_keeps_streams (table : Table) (start : Nat) (c : CellId) :
    Keeps Store.streams (visit table start c) := by
  refine (mug_keeps_streams _).bind fun mug =>
    (Keeps.modifyGet fun s => firstEqual_streams c _ s).bind fun found => ?_
  cases found.filter (· ≠ 0) with
  | some position => exact .pure _
  | none => exact (Keeps.modifyGet fun s => firstEqual_streams c _ s).bind fun _ => .pure _

/-! ## Serialising -/

lemma run_bind_streams {α β : Type} {x : StateM Store α} {f : α → StateM Store β}
    (hx : ∀ s, (x.run s).2.streams = s.streams)
    (hf : ∀ a s, ((f a).run s).2.streams = s.streams) (s : Store) :
    ((x >>= f).run s).2.streams = s.streams := by
  rw [StateT.run_bind]
  exact (hf _ _).trans (hx s)

lemma encode_streams (fuel : Nat) : ∀ (start : Nat) (table : Table) (d : Datum) (s : Store),
    ((StoreM.encode fuel start table d).run s).2.streams = s.streams := by
  induction fuel with
  | zero =>
      intro start table d s
      cases d <;> rfl
  | succ fuel ih =>
      intro start table d s
      cases d with
      | cell c =>
          rw [StoreM.encode]
          refine run_bind_streams (visit_keeps_streams table start c) (fun standing s => ?_) s
          rcases standing with fault | position | table
          · rfl
          · rfl
          refine run_bind_streams (fun _ => rfl) (fun parts => ?_) s
          refine run_bind_streams (ih _ table parts.1) fun encoded s => ?_
          rcases encoded with ⟨first, fault | table⟩
          · rfl
          refine run_bind_streams (fun _ => rfl) (fun parts => ?_) s
          exact run_bind_streams (ih _ table parts.2) fun _ _ => rfl
      | _ => rfl

/-- Serialising leaves the bit strings alone. -/
lemma jamTokens_streams (d : Datum) (s : Store) :
    ((StoreM.jamTokens d).run s).2.streams = s.streams :=
  run_bind_streams (fun _ => rfl)
    (fun _ => run_bind_streams (encode_streams _ 0 {} d) fun _ _ => rfl) s

variable {s : Store} {i : StreamId} {bits : List Bool}

lemma Store.bitsOf_appendTo (h : i < s.streams.size) :
    (s.appendTo i bits).bitsOf i = s.bitsOf i ++ bits := by
  rw [bitsOf, bitsOf, appendTo, Array.getElem?_modify, if_pos rfl]
  simp [h]

lemma Store.bitsOf_appendTo_of_ne {j : StreamId} (h : j ≠ i) :
    (s.appendTo i bits).bitsOf j = s.bitsOf j := by
  simp [appendTo, bitsOf, Array.getElem?_modify, h.symm]

/-- What the cells denote does not depend on the bit strings. -/
lemma Store.Fits.appendTo {ν : Reading} (hs : s.Fits ν) : (s.appendTo i bits).Fits ν := by
  intro c cell hget
  obtain ⟨h, t, hread, hholds⟩ := hs c cell hget
  exact ⟨h, t, hread, hholds.later (Extends.of_size rfl)⟩

/-- Serialising a held noun onto a bit string appends the bits of the noun, and changes no noun. -/
lemma jamOnto_exec_fits {ν : Reading} (hs : s.Fits ν) {d : Datum} {n : Noun}
    (hd : s.Denotes ν d n) (hn : n.Natural) (hi : i < s.streams.size) :
    ∃ s', exec (jamOnto d i) s = (.ok (), s') ∧ s'.bitsOf i = s.bitsOf i ++ n.jamBits ∧
      (∀ j ≠ i, s'.bitsOf j = s.bitsOf j) ∧ s'.Fits ν ∧ s'.cells.size = s.cells.size ∧
      s'.streams.size = s.streams.size := by
  obtain ⟨s₁, hrun, hs₁, hsize⟩ := jamTokens_run hs hd hn
  have hstreams := jamTokens_streams d s
  rw [hrun] at hstreams
  have hlift : exec (liftM (StoreM.jamTokens d) : StoreM _) s = (.ok (n.jamTokens, none), s₁) := by
    rw [exec_lift, hrun]
  have hbits : ∀ j, s₁.bitsOf j = s.bitsOf j := by
    intro j
    rw [bitsOf, bitsOf, hstreams]
  refine ⟨s₁.appendTo i n.jamBits, ?_, ?_, fun j hj => ?_, hs₁.appendTo, hsize, ?_⟩
  · rw [jamOnto, exec_bind_ok hlift]
    rfl
  · rw [bitsOf_appendTo (by rw [hstreams]; exact hi), hbits]
  · rw [bitsOf_appendTo_of_ne hj, hbits]
  · rw [appendTo, Array.size_modify, hstreams]

/-- Serialising a held noun onto a bit string appends the bits of the noun. -/
lemma jamOnto_exec {ν : Reading} (hs : s.Fits ν) {d : Datum} {n : Noun} (hd : s.Denotes ν d n)
    (hn : n.Natural) (hi : i < s.streams.size) :
    ∃ s', exec (jamOnto d i) s = (.ok (), s') ∧ s'.bitsOf i = s.bitsOf i ++ n.jamBits ∧
      ∀ j ≠ i, s'.bitsOf j = s.bitsOf j := by
  obtain ⟨s', hexec, hbits, hothers, -⟩ := jamOnto_exec_fits hs hd hn hi
  exact ⟨s', hexec, hbits, hothers⟩

end Nock
