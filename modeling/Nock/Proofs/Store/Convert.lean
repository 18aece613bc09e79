import Nock.Proofs.Store.Growth
import Nock.Store.Convert

/-!
# From tuples to nouns

`convert` goes through a value from left to right and makes cells on its way, so one conversion changes
the store many times before it succeeds or fails.  What comes out is told by the value alone.  Its
**subvalues** are listed in the order in which they are met, each of them either offends or does not,
and

* if none of them offends, the result looks like the value with every tuple nested to the right
  (`Value.nested`),
* otherwise the fault is that of the first one that does (`Value.offence`), whatever was made before.

Both are one induction (`convert_converts`): what the conversion of the items before has made is a grown
store, and in it the cells of the items that follow look as they did.  Of values that are of another kind
nothing is used but that they have a text, so they may be anything.
-/

namespace Nock

namespace View

/-- The right-nested cell of several views, with no mug. -/
def ofItems : List View → View
  | [] => .tuple []
  | [v] => v
  | v :: rest => .cell 0 v (ofItems rest)

/-- The right-nested cell of a view and of others after it. -/
lemma ofItems_cons (v : View) {rest : List View} (h : rest ≠ []) :
    ofItems (v :: rest) = .cell 0 v (ofItems rest) := by
  rw [ofItems]
  exact h

end View

namespace Value

variable {ω : Type} {v x : Value ω} {items rest : List (Value ω)}

/-! ## What is in a value -/

/-- The value and all that is in its tuples, each tuple before its items and these from the left. -/
def subvalues : Value ω → List (Value ω)
  | .tuple items => .tuple items :: subvaluesAll items
  | v => [v]
where
  /-- The subvalues of several values. -/
  subvaluesAll : List (Value ω) → List (Value ω)
    | [] => []
    | v :: rest => subvalues v ++ subvaluesAll rest

/-- Empty tuples stand for no noun, and neither does what is of another kind. -/
def offends : Value ω → Bool
  | .atom _ | .flag _ | .cell _ => false
  | .tuple items => items.isEmpty
  | .other _ => true

/-- The fault of what offends: the empty tuple has its own, and anything else is named by its text,
unless that cannot be had. -/
def offence (text : ω → Except Fault String) : Value ω → Fault
  | .other what =>
      match text what with
      | .ok shown => .notNoun shown
      | .error fault => fault
  | _ => .emptyTuple

/-- The fault of the first of the values that offends. -/
def firstOffence (text : ω → Except Fault String) (items : List (Value ω)) : Option Fault :=
  (items.find? offends).map (offence text)

lemma firstOffence_append (text : ω → Except Fault String) (items rest : List (Value ω)) :
    firstOffence text (items ++ rest) = (firstOffence text items).or (firstOffence text rest) := by
  rw [firstOffence, List.find?_append, Option.map_or]
  rfl

/-- The cells that a value names. -/
def named : Value ω → List CellId
  | .cell c => [c]
  | .tuple items => namedAll items
  | .atom _ | .flag _ | .other _ => []
where
  /-- The cells that several values name. -/
  namedAll : List (Value ω) → List CellId
    | [] => []
    | v :: rest => named v ++ namedAll rest

/-- A value with each tuple nested to the right, given how its cells look. -/
def nested (ofCell : CellId → View) : Value ω → View
  | .atom n => .atom n
  | .flag b => .flag b
  | .cell c => ofCell c
  | .tuple items => View.ofItems (nestedAll items)
  | .other _ => .nothing
where
  /-- Several values, each with its tuples nested to the right. -/
  nestedAll : List (Value ω) → List View
    | [] => []
    | v :: rest => nested ofCell v :: nestedAll rest

lemma nestedAll_eq_map (ofCell : CellId → View) (items : List (Value ω)) :
    nested.nestedAll ofCell items = items.map (nested ofCell) := by
  induction items with
  | nil => rfl
  | cons v rest ih => rw [nested.nestedAll, ih, List.map_cons]

lemma mem_namedAll {c : CellId} : c ∈ named.namedAll items ↔ ∃ v ∈ items, c ∈ v.named := by
  induction items with
  | nil => simp [named.namedAll]
  | cons v rest ih => simp [named.namedAll, ih]

/-- How a value looks when nested depends on the cells that it names. -/
lemma nested_congr {f g : CellId → View} : (∀ c ∈ v.named, f c = g c) → v.nested f = v.nested g := by
  induction v using nested.induct
    (fun items => ∀ v ∈ items, (∀ c ∈ v.named, f c = g c) → v.nested f = v.nested g) with
  | case1 | case2 | case5 => exact fun _ => rfl
  | case3 c => exact fun h => h c List.mem_cons_self
  | case4 items ih =>
      intro h
      rw [nested, nested, nestedAll_eq_map, nestedAll_eq_map]
      refine congrArg _ (List.map_congr_left fun v hv => ih v hv fun c hc => ?_)
      exact h c (mem_namedAll.mpr ⟨v, hv, hc⟩)
  | case6 v hv => cases hv
  | case7 v rest ihv ihrest w hw hnamed =>
      rcases List.mem_cons.mp hw with rfl | hw
      · exact ihv hnamed
      · exact ihrest w hw hnamed

lemma nestedAll_congr {f g : CellId → View} (h : ∀ c ∈ named.namedAll items, f c = g c) :
    nested.nestedAll f items = nested.nestedAll g items := by
  rw [nestedAll_eq_map, nestedAll_eq_map]
  refine List.map_congr_left fun v hv => nested_congr fun c hc => ?_
  exact h c (mem_namedAll.mpr ⟨v, hv, hc⟩)

/-- One value comes from another by putting the items of a tuple that stands last in a tuple, at any
depth, in its place. -/
inductive Splice : Value ω → Value ω → Prop
  | last (front : List (Value ω)) {items : List (Value ω)} (h : items ≠ []) :
      Splice (.tuple (front ++ [.tuple items])) (.tuple (front ++ items))
  | item (front rest : List (Value ω)) {v w : Value ω} (h : Splice v w) :
      Splice (.tuple (front ++ v :: rest)) (.tuple (front ++ w :: rest))

end Value

namespace Store

open StoreM

variable {s s' : Store}

/-! ## Conversions -/

section

variable {v w : View}

/-- How a conversion ends: with the fault, if there is one, or with a datum that shows the view from
now on.  In between the store has only grown. -/
inductive Converts (s : Store) : Option Fault → View → Except Fault Datum × Store → Prop
  | ok {d : Datum} {s' : Store} (hgrows : s.Grows s') (hsteady : s'.Steady d) :
      Converts s none (s'.view d) (.ok d, s')
  | error {fault : Fault} {v : View} {s' : Store} (hgrows : s.Grows s') :
      Converts s (some fault) v (.error fault, s')

lemma Converts.of_none {out : Except Fault Datum × Store} (h : Converts s none v out) :
    ∃ e s', out = (.ok e, s') ∧ s.Grows s' ∧ s'.view e = v := by
  cases h with
  | ok hgrows _ => exact ⟨_, _, rfl, hgrows, rfl⟩

lemma Converts.of_some {out : Except Fault Datum × Store} {fault : Fault}
    (h : Converts s (some fault) v out) : ∃ s', out = (.error fault, s') ∧ s.Grows s' := by
  cases h with
  | error hgrows => exact ⟨_, rfl, hgrows⟩

/-- Two conversions make a cell, and the first fault counts. -/
lemma Converts.cell {first second : Option Fault} {x y : StoreM Datum}
    (hx : Converts s first v (exec x s))
    (hy : ∀ {s'}, s.Grows s' → Converts s' second w (exec y s')) :
    Converts s (first.or second) (.cell 0 v w)
      (exec (do let head ← x; let tail ← y; newCell head tail 0) s) := by
  rcases hexec : exec x s with ⟨outcome, s₁⟩
  rw [hexec] at hx
  cases hx with
  | error hgrows =>
      rw [exec_bind_error hexec]
      exact .error hgrows
  | @ok head _ hgrows₁ hhead =>
      rw [exec_bind_ok hexec]
      have hy := hy hgrows₁
      rcases hexec : exec y s₁ with ⟨outcome, s₂⟩
      rw [hexec] at hy
      cases hy with
      | error hgrows₂ =>
          rw [exec_bind_error hexec]
          exact .error (hgrows₁.trans hgrows₂)
      | @ok tail _ hgrows₂ htail =>
          rw [exec_bind_ok hexec]
          have hhead₂ := hhead.later hgrows₂
          rw [← hhead.view_eq hgrows₂, ← hhead₂.view_push htail]
          exact .ok ((hgrows₁.trans hgrows₂).trans (.push s₂ head tail 0)) (hhead₂.push htail)

end

/-- A datum is converted as the value that it is. -/
lemma exec_toNoun (d : Datum) (s : Store) :
    exec (toNoun d) s = exec (convert s.describe d.value) s := by
  rw [toNoun, exec_bind_ok (exec_get s)]

section

variable {ω : Type} (text : ω → Except Fault String)

lemma nest_cons (v : Value ω) {rest : List (Value ω)} (h : rest ≠ []) :
    convert.nest text (v :: rest) =
      (do let head ← convert text v; let tail ← convert.nest text rest; newCell head tail 0) := by
  rw [convert.nest]
  exact h

/-- What is of another kind is refused for itself. -/
lemma exec_convert_other (what : ω) (s : Store) :
    exec (convert text (.other what)) s = (.error (Value.offence text (.other what)), s) := by
  rw [convert, Value.offence]
  cases htext : text what with
  | ok shown => rfl
  | error fault => rfl

/-- A conversion ends with the fault of the first subvalue that offends, or else with the value nested
to the right. -/
lemma convert_converts (v : Value ω) : ∀ {s : Store}, (∀ c ∈ v.named, s.Steady (.cell c)) →
    Converts s (Value.firstOffence text v.subvalues) (v.nested fun c => s.view (.cell c))
      (exec (convert text v) s) := by
  induction v using convert.induct
    (fun items => items ≠ [] → ∀ {s : Store},
      (∀ c ∈ Value.named.namedAll items, s.Steady (.cell c)) →
        Converts s (Value.firstOffence text (Value.subvalues.subvaluesAll items))
          (View.ofItems (Value.nested.nestedAll (fun c => s.view (.cell c)) items))
          (exec (convert.nest text items) s)) with
  | case1 n =>
      intro s _
      have hsteady : s.Steady (.atom n) := .of_nameless (Datum.within_of_number rfl)
      exact .ok (.refl s) hsteady
  | case2 b =>
      intro s _
      have hsteady : s.Steady (.flag b) := .of_nameless (Datum.within_of_number rfl)
      exact .ok (.refl s) hsteady
  | case3 c =>
      intro s hs
      exact .ok (.refl s) (hs c List.mem_cons_self)
  | case4 items ih =>
      intro s hs
      cases items with
      -- only here does a tuple offend, and no recursive call is on an empty list
      | nil => exact .error (.refl s)
      | cons v rest => exact ih (List.cons_ne_nil v rest) hs
  | case5 what =>
      intro s _
      rw [exec_convert_other]
      exact .error (.refl s)
  | case6 h => exact absurd rfl h
  | case7 v ih =>
      rename_i s hs
      rw [Value.named.namedAll, Value.named.namedAll, List.append_nil] at hs
      rw [Value.subvalues.subvaluesAll, Value.subvalues.subvaluesAll, List.append_nil]
      exact ih hs
  | case8 v rest hrest ih ihrest =>
      rename_i s hs
      have hv : ∀ c ∈ v.named, s.Steady (.cell c) := fun c hc => hs c (List.mem_append_left _ hc)
      have hrests : ∀ c ∈ Value.named.namedAll rest, s.Steady (.cell c) :=
        fun c hc => hs c (List.mem_append_right _ hc)
      have hne : Value.nested.nestedAll (fun c => s.view (.cell c)) rest ≠ [] := by
        rw [Value.nestedAll_eq_map]
        simpa using hrest
      rw [nest_cons text v hrest, Value.subvalues.subvaluesAll, Value.firstOffence_append,
        Value.nested.nestedAll, View.ofItems_cons _ hne]
      refine (ih hv).cell fun {s'} hgrows => ?_
      -- the cells of the rest look to the grown store as they did
      rw [← Value.nestedAll_congr fun c hc => (hrests c hc).view_eq hgrows]
      exact ihrest hrest fun c hc => (hrests c hc).later hgrows

/-! ## Splicing -/

variable {v w : Value ω} {items : List (Value ω)}

lemma nest_splice (front : List (Value ω)) (h : items ≠ []) :
    convert.nest text (front ++ [.tuple items]) = convert.nest text (front ++ items) := by
  induction front with
  | nil => rfl
  | cons v front ih =>
      rw [List.cons_append, List.cons_append, nest_cons text v (by simp),
        nest_cons text v (by simp [h]), ih]

lemma nest_item (front rest : List (Value ω)) (h : convert text v = convert text w) :
    convert.nest text (front ++ v :: rest) = convert.nest text (front ++ w :: rest) := by
  induction front with
  | nil =>
      cases rest with
      | nil => exact h
      | cons x rest =>
          rw [List.nil_append, List.nil_append, nest_cons text v (by simp),
            nest_cons text w (by simp), h]
  | cons x front ih =>
      rw [List.cons_append, List.cons_append, nest_cons text x (by simp),
        nest_cons text x (by simp), ih]

/-- Splicing changes nothing about the conversion, neither what it gives nor what it does. -/
lemma convert_splice (h : v.Splice w) : convert text v = convert text w := by
  induction h with
  | last front h => exact nest_splice text front h
  | item front rest _ ih => exact nest_item text front rest ih

/-! ## What is converted, and into what -/

/-- **Tuples become nouns.**  A value is converted exactly if nothing in it offends.  The result then
looks like the value with every tuple nested to the right, so a tuple that stands last may as well be
spliced into the one around it.  Otherwise the fault is that of the first subvalue that offends.  What
is neither a noun nor a tuple may be anything with a text.  A datum is converted as the value that it
is, with the texts that the store gives. -/
theorem toNoun_nests_tuples (hs : s.Regular) (hv : ∀ c ∈ v.named, c < s.cells.size) :
    ((∃ e s', exec (convert text v) s = (.ok e, s')) ↔ ∀ x ∈ v.subvalues, x.offends = false) ∧
    (∀ e s', exec (convert text v) s = (.ok e, s') →
      s'.view e = v.nested fun c => s.view (.cell c)) ∧
    (∀ x, v.subvalues.find? Value.offends = some x →
      ∃ s', exec (convert text v) s = (.error (x.offence text), s')) ∧
    s.Grows (exec (convert text v) s).2 ∧
    (∀ w, v.Splice w → convert text w = convert text v) ∧
    ∀ d : Datum, exec (toNoun d) s = exec (convert s.describe d.value) s := by
  have hconverts := convert_converts text v fun c hc => hs.steady (Datum.within_cell.mpr (hv c hc))
  have hsplice : ∀ w, v.Splice w → convert text w = convert text v :=
    fun w hw => (convert_splice text hw).symm
  have hdatum : ∀ d : Datum, exec (toNoun d) s = exec (convert s.describe d.value) s :=
    fun d => exec_toNoun d s
  rw [Value.firstOffence] at hconverts
  cases hfind : v.subvalues.find? Value.offends with
  | none =>
      rw [hfind, Option.map_none] at hconverts
      obtain ⟨e, s', hexec, hgrows, hview⟩ := hconverts.of_none
      rw [hexec]
      refine ⟨iff_of_true ⟨e, s', rfl⟩ fun x hx => ?_, ?_, ?_, hgrows, hsplice, hdatum⟩
      · exact Bool.eq_false_iff.mpr (List.find?_eq_none.mp hfind x hx)
      · rintro _ _ ⟨⟩
        exact hview
      · rintro x ⟨⟩
  | some x =>
      rw [hfind, Option.map_some] at hconverts
      obtain ⟨s', hexec, hgrows⟩ := hconverts.of_some
      rw [hexec]
      refine ⟨iff_of_false ?_ ?_, ?_, ?_, hgrows, hsplice, hdatum⟩
      · rintro ⟨e, s', ⟨⟩⟩
      · intro hnone
        have hx := List.find?_some hfind
        rw [hnone x (List.mem_of_find?_eq_some hfind)] at hx
        cases hx
      · rintro e s' ⟨⟩
      · rintro x ⟨⟩
        exact ⟨s', rfl⟩

end

/-- A store with one cell, whose tail is no noun. -/
def oddCell : Store :=
  (Store.push {} (.atom 1) (.text "x") 7).1

lemma oddCell_regular : oddCell.Regular :=
  Regular.empty.push 7 (by simp [Datum.Within, Datum.named]) (by simp [Datum.Within, Datum.named])

/-- The cell is taken as it is, though its tail is no noun.  Of a list and an empty tuple the list is
named, which comes first, and the cell in it is not taken apart. -/
theorem toNoun_nests_tuples_odd :
    let good := Datum.tuple [.atom 5, .tuple [.cell 0, .tuple [.atom 3]]]
    let bad := Datum.tuple [.atom 5, .tuple [.cell 0, .list [.flag true, .cell 0]], .tuple []]
    (oddCell.Regular ∧ (∀ c ∈ good.value.named, c < oddCell.cells.size) ∧
      ∀ c ∈ bad.value.named, c < oddCell.cells.size) ∧
    (∃ e s', exec (toNoun good) oddCell = (.ok e, s') ∧
      s'.view e = .cell 0 (.atom 5) (.cell 0 (.cell 7 (.atom 1) (.text "x")) (.atom 3))) ∧
    ∃ s', exec (toNoun bad) oddCell =
      (.error (.notNoun "[True, <pinochle.noun.Cell object at 0x0>]"), s') := by
  intro good bad
  have hgood : ∀ c ∈ good.value.named, c < oddCell.cells.size := by decide
  have hbad : ∀ c ∈ bad.value.named, c < oddCell.cells.size := by decide
  obtain ⟨hok, hview, -, -, -, hdatum⟩ :=
    toNoun_nests_tuples oddCell.describe oddCell_regular hgood
  obtain ⟨-, -, hfault, -⟩ := toNoun_nests_tuples oddCell.describe oddCell_regular hbad
  refine ⟨⟨oddCell_regular, hgood, hbad⟩, ?_, ?_⟩
  · obtain ⟨e, s', hexec⟩ := hok.mpr (by decide)
    exact ⟨e, s', (hdatum good).trans hexec, hview e s' hexec⟩
  · have htext : oddCell.describe (.list [.flag true, .cell 0]) =
        .ok "[True, <pinochle.noun.Cell object at 0x0>]" := by decide +kernel
    obtain ⟨s', hexec⟩ := hfault (.other (.list [.flag true, .cell 0])) rfl
    rw [Value.offence, htext] at hexec
    exact ⟨s', (hdatum bad).trans hexec⟩

end Store

end Nock
