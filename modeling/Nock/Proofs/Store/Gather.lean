import Nock.Proofs.Store.Convert

/-!
# Where the two ways to a noun part

`toNoun` converts every item of a tuple, and `gather` every item **but the last**, which it leaves as
it is.  So on tuples of numbers, nested in any way, they make the same cells as long as no tuple
stands last in another one or in the whole (`Datum.LastPlain`).  As soon as one does, it is found
unchanged somewhere in what `gather` gives, which then denotes no noun at all.
-/

namespace Nock

namespace Datum

/-- The datum and all that is in its tuples, each tuple before its items and these from the left. -/
def subvalues : Datum → List Datum
  | .tuple items => .tuple items :: subvaluesAll items
  | d => [d]
where
  /-- The subvalues of several data. -/
  subvaluesAll : List Datum → List Datum
    | [] => []
    | d :: rest => subvalues d ++ subvaluesAll rest

lemma mem_subvaluesAll {x : Datum} {items : List Datum} :
    x ∈ subvalues.subvaluesAll items ↔ ∃ d ∈ items, x ∈ d.subvalues := by
  induction items with
  | nil => simp [subvalues.subvaluesAll]
  | cons d rest ih => simp [subvalues.subvaluesAll, ih]

lemma self_mem_subvalues (d : Datum) : d ∈ d.subvalues := by
  cases d <;> simp [subvalues]

/-- Numbers, and tuples of such data that are not empty. -/
inductive Nesting : Datum → Prop
  | number {d : Datum} {k : Int} (h : d.number? = some k) : Nesting d
  | tuple {items : List Datum} (hne : items ≠ []) (h : ∀ x ∈ items, Nesting x) :
      Nesting (.tuple items)

/-- A number, or a tuple whose last item is no tuple and whose other items are such data. -/
inductive LastPlain : Datum → Prop
  | number {d : Datum} {k : Int} (h : d.number? = some k) : LastPlain d
  | tuple {front : List Datum} {last : Datum} (hfront : ∀ x ∈ front, LastPlain x)
      (hlast : ∀ items, last ≠ .tuple items) : LastPlain (.tuple (front ++ [last]))

variable {d x : Datum} {items rest : List Datum}

lemma valueAll_eq_map (items : List Datum) : value.valueAll items = items.map value := by
  induction items with
  | nil => rfl
  | cons d rest ih => rw [value.valueAll, ih, List.map_cons]

/-- A nesting names no cell, and nothing in it offends. -/
lemma Nesting.value (h : d.Nesting) :
    d.value.named = [] ∧ ∀ x ∈ d.value.subvalues, x.offends = false := by
  induction h with
  | @number d k hk =>
      cases d with
      | atom _ | flag _ => simp [Datum.value, Value.named, Value.subvalues, Value.offends]
      | _ => cases hk
  | @tuple items hne _ ih =>
      have hall : Value.named.namedAll (value.valueAll items) = [] ∧
          ∀ x ∈ Value.subvalues.subvaluesAll (value.valueAll items), x.offends = false := by
        clear hne
        induction items with
        | nil => simp [value.valueAll, Value.named.namedAll, Value.subvalues.subvaluesAll]
        | cons d rest ihrest =>
            obtain ⟨hnamed, hoffends⟩ := ih d List.mem_cons_self
            obtain ⟨hnamed', hoffends'⟩ := ihrest (by grind) (by grind)
            simp only [value.valueAll, Value.named.namedAll, Value.subvalues.subvaluesAll]
            grind
      refine ⟨hall.1, fun x hx => ?_⟩
      rcases List.mem_cons.mp hx with rfl | hx
      · rw [Value.offends, valueAll_eq_map]
        simpa using hne
      · exact hall.2 x hx

lemma Nesting.of_mem (h : (Datum.tuple items).Nesting) (hx : x ∈ items) : x.Nesting := by
  cases h with
  | number hk => cases hk
  | tuple _ h => exact h x hx

lemma Nesting.pair {y : Datum} (hx : x.Nesting) (hy : y.Nesting) :
    (Datum.tuple [x, y]).Nesting := by
  refine .tuple (List.cons_ne_nil x [y]) ?_
  simp [hx, hy]

/-- A nesting that is no tuple is a number. -/
lemma Nesting.number_of_ne (h : d.Nesting) (hd : ∀ items, d ≠ .tuple items) :
    ∃ k, d.number? = some k := by
  cases h with
  | number hk => exact ⟨_, hk⟩
  | tuple _ _ => exact absurd rfl (hd _)

lemma LastPlain.exists_front (h : (Datum.tuple items).LastPlain) :
    ∃ front last, items = front ++ [last] ∧ (∀ x ∈ front, x.LastPlain) ∧
      ∀ items, last ≠ .tuple items := by
  generalize hd : Datum.tuple items = d at h
  cases h with
  | number hk =>
      rw [← hd] at hk
      cases hk
  | @tuple front last hfront hlast => exact ⟨front, last, Datum.tuple.inj hd, hfront, hlast⟩

lemma LastPlain.of_tuple (front : List Datum) (last : Datum)
    (h : (Datum.tuple (front ++ [last])).LastPlain) :
    (∀ x ∈ front, x.LastPlain) ∧ ∀ items, last ≠ .tuple items := by
  obtain ⟨front', last', heq, hfront, hlast⟩ := h.exists_front
  obtain ⟨rfl, ⟨⟩⟩ := List.append_inj' heq rfl
  exact ⟨hfront, hlast⟩

lemma LastPlain.cons (hx : x.LastPlain) (hrest : (Datum.tuple rest).LastPlain) :
    (Datum.tuple (x :: rest)).LastPlain := by
  obtain ⟨front, last, rfl, hfront, hlast⟩ := hrest.exists_front
  have hfront' : ∀ y ∈ x :: front, y.LastPlain := List.forall_mem_cons.mpr ⟨hx, hfront⟩
  exact .tuple hfront' hlast

end Datum

namespace Store

open StoreM

variable {s s' : Store} {t d : Datum} {items : List Datum}

/-! ## The noun of a nesting -/

lemma ofItems_noun? (hne : items ≠ [])
    (h : ∀ x ∈ items, ∃ n, ∀ ofCell, (x.value.nested ofCell).noun? = some n) :
    ∃ n, ∀ ofCell, (View.ofItems (items.map fun x => x.value.nested ofCell)).noun? = some n := by
  induction items with
  | nil => exact absurd rfl hne
  | cons x rest ih =>
      obtain ⟨n, hn⟩ := h x List.mem_cons_self
      by_cases hrest : rest = []
      · subst hrest
        exact ⟨n, hn⟩
      · obtain ⟨m, hm⟩ := ih hrest fun y hy => h y (List.mem_cons_of_mem x hy)
        refine ⟨.cell n m, fun ofCell => ?_⟩
        rw [List.map_cons, View.ofItems_cons _ (by simpa using hrest), View.noun?, hn, hm]
        rfl

/-- A nesting, nested to the right, is one noun, however cells look. -/
lemma nested_noun? (h : t.Nesting) : ∃ n, ∀ ofCell, (t.value.nested ofCell).noun? = some n := by
  induction h with
  | @number d k hk =>
      refine ⟨.atom k, fun _ => ?_⟩
      cases d with
      | atom _ | flag _ =>
          cases hk
          rfl
      | _ => cases hk
  | tuple hne _ ih =>
      obtain ⟨n, hn⟩ := ofItems_noun? hne ih
      refine ⟨n, fun ofCell => ?_⟩
      rw [Datum.value, Value.nested, Value.nestedAll_eq_map, Datum.valueAll_eq_map, List.map_map]
      exact hn ofCell

lemma toNoun_nesting (h : t.Nesting) : ∃ n, ∀ s, ∃ d s', exec (toNoun t) s = (.ok d, s') ∧
    s'.noun? d = some n := by
  obtain ⟨n, hn⟩ := nested_noun? h
  obtain ⟨hnamed, hoffends⟩ := h.value
  refine ⟨n, fun s => ?_⟩
  have hconverts := convert_converts s.describe t.value (s := s) (by simp [hnamed])
  have hnone : t.value.subvalues.find? Value.offends = none :=
    List.find?_eq_none.mpr fun x hx => Bool.eq_false_iff.mp (hoffends x hx)
  rw [Value.firstOffence, hnone] at hconverts
  obtain ⟨d, s', hexec, -, hview⟩ := hconverts.of_none
  refine ⟨d, s', (exec_toNoun t s).trans hexec, ?_⟩
  rw [noun?, hview, hn]

/-! ## Where both agree -/

lemma gather_nest_cons (d : Datum) {rest : List Datum} (h : rest ≠ []) :
    gather.nest (d :: rest) =
      (do let head ← gather d; let tail ← gather.nest rest; newCell head tail 0) := by
  rw [gather.nest]
  exact h

lemma nest_eq_of_lastPlain {text : Datum → Except Fault String} {front : List Datum} {last : Datum}
    {k : Int} (hlast : last.number? = some k)
    (hfront : ∀ x ∈ front, gather x = convert text x.value) :
    gather.nest (front ++ [last]) = convert.nest text (Datum.value.valueAll (front ++ [last])) := by
  induction front with
  | nil =>
      cases last with
      | atom _ | flag _ => rfl
      | _ => cases hlast
  | cons x front ih =>
      have hne : Datum.value.valueAll (front ++ [last]) ≠ [] := by simp [Datum.valueAll_eq_map]
      rw [List.cons_append, gather_nest_cons x (by simp), Datum.value.valueAll, nest_cons text _ hne,
        hfront x List.mem_cons_self, ih fun y hy => hfront y (List.mem_cons_of_mem x hy)]

/-- Where no tuple stands last both make the same cells. -/
lemma gather_eq_convert (text : Datum → Except Fault String) (hplain : t.LastPlain) :
    t.Nesting → gather t = convert text t.value := by
  induction hplain with
  | @number d k hk =>
      intro _
      cases d with
      | atom _ | flag _ => rfl
      | _ => cases hk
  | tuple _ hlast ih =>
      intro ht
      obtain ⟨k, hk⟩ := (ht.of_mem (by simp)).number_of_ne hlast
      exact nest_eq_of_lastPlain hk fun x hx => ih x hx (ht.of_mem (by simp [hx]))

lemma gather_eq_toNoun (hplain : t.LastPlain) (ht : t.Nesting) (s : Store) :
    exec (gather t) s = exec (toNoun t) s := by
  rw [gather_eq_convert s.describe hplain ht, exec_toNoun]

/-! ## Where a tuple is left -/

/-- One of the given tuples is a part of the datum. -/
def HoldsTuple (s : Store) (tuples : List Datum) (d : Datum) : Prop :=
  ∃ path items, s.follow d path = some (.tuple items) ∧ .tuple items ∈ tuples

/-- What holds a tuple denotes no noun. -/
lemma HoldsTuple.noun?_ne {tuples : List Datum} {n : Noun} (h : s.HoldsTuple tuples d) :
    s.noun? d ≠ some n := by
  obtain ⟨path, items, hfollow, -⟩ := h
  intro hn
  obtain ⟨fuel, m, hm⟩ := noun?_of_follow hfollow hn
  rw [viewWithin_tuple] at hm
  cases hm

/-- A cell holds the tuples that a part of it holds. -/
lemma HoldsTuple.of_part {tuples tuples' : List Datum} {c : CellId} {cell : Cell}
    (hget : s.cells[c]? = some cell) (turn : Bool) (h : s.HoldsTuple tuples (cell.part turn))
    (hsub : tuples ⊆ tuples') : s.HoldsTuple tuples' (.cell c) := by
  obtain ⟨path, items, hfollow, hmem⟩ := h
  exact ⟨turn :: path, items, (follow_cell hget turn path).trans hfollow, hsub hmem⟩

lemma HoldsTuple.later {tuples : List Datum} (h : s.HoldsTuple tuples d) (hs : s.Grows s') :
    s'.HoldsTuple tuples d := by
  obtain ⟨path, items, hfollow, hmem⟩ := h
  exact ⟨path, items, hs.follow hfollow, hmem⟩

/-- The effect succeeds, and one of the given tuples is left in what it gives, unless no tuple stands
last in the datum. -/
def Leaves (t : Datum) (tuples : List Datum) (x : StoreM Datum) : Prop :=
  ∀ s, ∃ e s', exec x s = (.ok e, s') ∧ s.Grows s' ∧ (t.LastPlain ∨ s'.HoldsTuple tuples e)

/-- The last item is left as it is. -/
lemma nest_leaves_last (x : Datum) :
    Leaves (.tuple [x]) (Datum.subvalues.subvaluesAll [x]) (gather.nest [x]) := by
  intro s
  refine ⟨x, s, rfl, .refl s, ?_⟩
  by_cases hx : ∃ items, x = .tuple items
  · obtain ⟨items, rfl⟩ := hx
    refine Or.inr ⟨[], items, follow_nil s _, ?_⟩
    exact Datum.mem_subvaluesAll.mpr ⟨_, List.mem_cons_self, Datum.self_mem_subvalues _⟩
  · have hfront : ∀ y ∈ ([] : List Datum), y.LastPlain := by simp
    exact Or.inl (.tuple hfront fun items h => hx ⟨items, h⟩)

/-- What is left in an item is left in the cell that is made of it and the rest. -/
lemma nest_leaves_cons {x : Datum} {rest : List Datum} (hne : rest ≠ [])
    (hx : Leaves x x.subvalues (gather x))
    (hrest : Leaves (.tuple rest) (Datum.subvalues.subvaluesAll rest) (gather.nest rest)) :
    Leaves (.tuple (x :: rest)) (Datum.subvalues.subvaluesAll (x :: rest))
      (gather.nest (x :: rest)) := by
  intro s
  obtain ⟨head, s₁, hexec₁, hgrows₁, hhead⟩ := hx s
  obtain ⟨tail, s₂, hexec₂, hgrows₂, htail⟩ := hrest s₁
  have hgrows₃ := Grows.push s₂ head tail 0
  have hget := push_get s₂ head tail 0
  refine ⟨.cell s₂.cells.size, (s₂.push head tail 0).1, ?_,
    (hgrows₁.trans hgrows₂).trans hgrows₃, ?_⟩
  · rw [gather_nest_cons x hne, exec_bind_ok hexec₁, exec_bind_ok hexec₂]
    rfl
  · rcases hhead with hx | hholds
    · rcases htail with hrest | hholds
      · exact Or.inl (hx.cons hrest)
      · exact Or.inr (.of_part hget true (hholds.later hgrows₃) (List.subset_append_right _ _))
    · exact Or.inr (.of_part hget false (hholds.later (hgrows₂.trans hgrows₃))
        (List.subset_append_left _ _))

lemma nest_leaves (hne : items ≠ []) (h : ∀ x ∈ items, Leaves x x.subvalues (gather x)) :
    Leaves (.tuple items) (Datum.subvalues.subvaluesAll items) (gather.nest items) := by
  induction items with
  | nil => exact absurd rfl hne
  | cons x rest ih =>
      by_cases hrest : rest = []
      · subst hrest
        exact nest_leaves_last x
      · exact nest_leaves_cons hrest (h x List.mem_cons_self)
          (ih hrest fun y hy => h y (List.mem_cons_of_mem x hy))

/-- On a nesting `gather` succeeds, and leaves one of its tuples if one stands last. -/
lemma gather_leaves (h : t.Nesting) : Leaves t t.subvalues (gather t) := by
  induction h with
  | @number d k hk =>
      intro s
      refine ⟨d, s, ?_, .refl s, Or.inl (.number hk)⟩
      cases d with
      | atom _ | flag _ => rfl
      | _ => cases hk
  | @tuple items hne _ ih =>
      intro s
      obtain ⟨e, s', hexec, hgrows, hleft⟩ := nest_leaves hne ih s
      refine ⟨e, s', hexec, hgrows, hleft.imp_right ?_⟩
      rintro ⟨path, left, hfollow, hmem⟩
      exact ⟨path, left, hfollow, List.mem_cons_of_mem _ hmem⟩

/-- **Where the two ways part.**  On numbers and tuples of them, nested in any way but not empty, both
succeed in every store.  They give the same noun exactly if the datum is a number, or a tuple whose last
item is no tuple and whose other items are again such data.  Otherwise `gather` leaves one of the
tuples as it was, as the whole result or as a head or a tail in it. -/
theorem gather_agrees_iff_lastPlain (ht : t.Nesting) :
    ∃ n, ∀ s s', ∃ d s₁ e s₂, exec (toNoun t) s = (.ok d, s₁) ∧ s₁.noun? d = some n ∧
      exec (gather t) s' = (.ok e, s₂) ∧ (s₂.noun? e = some n ↔ t.LastPlain) ∧
      (¬t.LastPlain → ∃ path items, s₂.follow e path = some (.tuple items) ∧
        .tuple items ∈ t.subvalues) := by
  obtain ⟨n, hn⟩ := toNoun_nesting ht
  refine ⟨n, fun s s' => ?_⟩
  obtain ⟨d, s₁, hexec, hd⟩ := hn s
  obtain ⟨e, s₂, hexec', -, hleft⟩ := gather_leaves ht s'
  refine ⟨d, s₁, e, s₂, hexec, hd, hexec', ⟨fun he => ?_, fun hplain => ?_⟩, fun hplain => ?_⟩
  · exact hleft.resolve_right fun hholds => hholds.noun?_ne he
  · obtain ⟨d', s₃, hexec₃, hd'⟩ := hn s'
    rw [gather_eq_toNoun hplain ht, hexec₃] at hexec'
    cases hexec'
    exact hd'
  · exact hleft.resolve_left hplain

/-- No tuple stands last in the whole, but one does in the first item. -/
theorem gather_agrees_iff_lastPlain_inner :
    let t := Datum.tuple [.tuple [.atom 1, .tuple [.atom 2, .flag true]], .atom 4]
    t.Nesting ∧ ¬t.LastPlain ∧
      ∃ n, ∀ s s', ∃ d s₁ e s₂, exec (toNoun t) s = (.ok d, s₁) ∧ s₁.noun? d = some n ∧
        exec (gather t) s' = (.ok e, s₂) ∧ s₂.noun? e ≠ some n ∧
        ∃ path items, s₂.follow e path = some (.tuple items) ∧ .tuple items ∈ t.subvalues := by
  intro t
  have hnesting : t.Nesting :=
    .pair (.pair (.number rfl) (.pair (.number rfl) (.number rfl))) (.number rfl)
  have hplain : ¬t.LastPlain := by
    intro h
    obtain ⟨hfront, -⟩ := Datum.LastPlain.of_tuple [_] _ h
    obtain ⟨-, hlast⟩ := Datum.LastPlain.of_tuple [_] _ (hfront _ List.mem_cons_self)
    exact hlast _ rfl
  obtain ⟨n, hn⟩ := gather_agrees_iff_lastPlain hnesting
  refine ⟨hnesting, hplain, n, fun s s' => ?_⟩
  obtain ⟨d, s₁, e, s₂, htoNoun, hd, hgather, hiff, hleft⟩ := hn s s'
  exact ⟨d, s₁, e, s₂, htoNoun, hd, hgather, mt hiff.mp hplain, hleft hplain⟩

end Store

end Nock
