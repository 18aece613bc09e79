import Mathlib.Data.List.Permutation
import Nock.Proofs.Notebook.Independence

/-!
# The order of definitions

Independent variables can be defined in any order.  For two names that are not independent, there are
values and a text for which the two orders give different results (`spares_of_not_clash`): brackets,
which no name has, show at the front of the result which variable was replaced first there.
-/

namespace Nock.Notebook

/-! ## Passes that clash -/

/-- There are values for the names, and a text, for which the order of the passes matters. -/
def Clash (x y : String) : Prop :=
  ∃ n m : Noun, n.Legible ∧ m.Legible ∧
    ∃ text, pass (y, m) (pass (x, n) text) ≠ pass (x, n) (pass (y, m) text)

lemma Clash.symm {x y : String} (h : Clash x y) : Clash y x := by
  obtain ⟨n, m, hn, hm, text, hne⟩ := h
  exact ⟨m, n, hm, hn, text, hne.symm⟩

/-- A value with brackets, which no name has. -/
def ones : Noun := .cell (.atom 1) (.atom 1)

/-- Another value with brackets. -/
def twos : Noun := .cell (.atom 2) (.atom 2)

lemma legible_ones : ones.Legible := ⟨by decide, by decide +kernel⟩

lemma legible_twos : twos.Legible := ⟨by decide, by decide +kernel⟩

lemma valueText_ones : valueText ones = "[1 1]".toList := by decide +kernel

lemma valueText_twos : valueText twos = "[2 2]".toList := by decide +kernel

section

variable {text rest : List Char}

section

variable {x y : String} (hx : isName x = true) (hy : isName y = true)

include hx hy

/-- If the order does not matter for a text that begins with an occurrence of the first name, the
second name begins nowhere in the occurrence, and what the pass of the second variable puts behind it
keeps its boundary. -/
lemma kept_of_pass_comm (hoccurs : occursHere x.toList none (x.toList ++ rest) = true)
    (h : pass (y, twos) (pass (x, ones) (x.toList ++ rest))
      = pass (x, ones) (pass (y, twos) (x.toList ++ rest))) :
    (∀ passed left, x.toList = passed ++ left → left ≠ [] →
      occursHere y.toList passed.getLast? (left ++ rest) = false) ∧
    Text.isBoundary x.toList.getLast?
      (replaceFrom y.toList (valueText twos) 0 x.toList.getLast? rest).head? = true := by
  have hleft : (pass (y, twos) (pass (x, ones) (x.toList ++ rest))).take 2 = ['[', '1'] := by
    rw [pass, pass, replaceWord, replaceWord, replaceFrom_of_occurs (ne_nil_of_isName hx) hoccurs,
      replaceFrom_noun hy (nounText_valueText legible_ones), valueText_ones]
    rfl
  rw [h] at hleft
  by_cases hboth : occursHere y.toList none (x.toList ++ rest) = true
  · -- both names occur at the front, and the values differ
    obtain ⟨after, heq, -⟩ := occursHere_iff.mp hboth
    rw [heq] at hleft hboth
    rw [pass, pass, replaceWord, replaceWord, replaceFrom_of_occurs (ne_nil_of_isName hy) hboth,
      replaceFrom_noun hx (nounText_valueText legible_twos), valueText_twos] at hleft
    cases hleft
  obtain ⟨c, cs, hcons, hstart, -⟩ := exists_cons_of_isName hx
  by_cases hstill : occursHere x.toList none (pass (y, twos) (x.toList ++ rest)) = true
  · obtain ⟨after, heq, -, hboundary⟩ := occursHere_iff.mp hstill
    obtain ⟨rest', hrest, rfl, hinside⟩ := replaceFrom_eq_append
      (by rw [valueText_twos]; rfl) (bracket_not_mem hx) heq
    cases List.append_cancel_left hrest
    simp only [Option.or_none] at hinside hboundary
    exact ⟨hinside, hboundary⟩
  · -- the first character of the name is still there, and is no bracket
    rw [Bool.not_eq_true] at hboth hstill
    have hkept : pass (y, twos) (x.toList ++ rest)
        = c :: replaceFrom y.toList (valueText twos) 0 (some c) (cs ++ rest) := by
      rw [hcons, List.cons_append] at hboth ⊢
      exact replaceFrom_of_not_occurs hboth
    rw [hkept] at hleft hstill
    rw [pass, replaceWord, replaceFrom_of_not_occurs hstill, List.take_succ_cons,
      List.cons.injEq] at hleft
    rw [hleft.1] at hstart
    cases hstart

/-- A name that ends with a hyphen occurs in front of words only, and so every other name clashes with
it. -/
lemma endsWord_of_not_clash (h : ¬Clash x y) : endsWord x.toList = true := by
  rw [← Bool.not_eq_false]
  intro hends
  obtain ⟨tail, htail⟩ : ∃ tail : List Char,
      Text.isBoundary y.toList.getLast? tail.head? = true := by
    cases hlast : endsWord y.toList with
    | true => exact ⟨[], by simp [Text.isBoundary, hlast]⟩
    | false => exact ⟨['a'], by simp [Text.isBoundary, hlast]; decide⟩
  have hstart : (y.toList ++ tail).head?.any Text.isWord = true := by
    obtain ⟨c, cs, hcons, hstart, -⟩ := exists_cons_of_isName hy
    simp [hcons, isWord_of_isNameStart hstart]
  have hbetween : Text.isBoundary x.toList.getLast? (y.toList ++ tail).head? = true := by
    rw [Text.isBoundary, hstart, show x.toList.getLast?.any Text.isWord = false from hends]
    rfl
  have hfront : occursHere x.toList none (x.toList ++ (y.toList ++ tail)) = true := by
    refine occursHere_iff.mpr ⟨y.toList ++ tail, rfl, ?_, hbetween⟩
    obtain ⟨c, cs, hcons, hfirst, -⟩ := exists_cons_of_isName hx
    simp [Text.isBoundary, hcons, isWord_of_isNameStart hfirst]
  have hback : occursHere y.toList x.toList.getLast? (y.toList ++ tail) = true :=
    occursHere_iff.mpr ⟨tail, rfl, hbetween, htail⟩
  refine h ⟨ones, twos, legible_ones, legible_twos, x.toList ++ (y.toList ++ tail), fun hcomm => ?_⟩
  obtain ⟨-, hboundary⟩ := kept_of_pass_comm hx hy hfront hcomm
  rw [replaceFrom_of_occurs (ne_nil_of_isName hy) hback, valueText_twos] at hboundary
  have hbracket : Text.isWord '[' = false := by decide
  simp [Text.isBoundary, hends, hbracket] at hboundary

lemma not_beginsInside_of_not_clash (h : ¬Clash x y) : ¬BeginsInside y.toList x.toList := by
  rintro ⟨passed, left, rest, hsplit, hne, hoccurs, hinside⟩
  refine h ⟨ones, twos, legible_ones, legible_twos, x.toList ++ rest, fun hcomm => ?_⟩
  obtain ⟨hnone, -⟩ := kept_of_pass_comm hx hy hoccurs hcomm
  rw [hnone passed left hsplit hne] at hinside
  cases hinside

end

/-- A number in the place of a name begins with a word again. -/
lemma Whole.startsWord_pass_of_word {a : String × Noun} (ha : Whole a)
    (hvalue : IsWordText (valueText a.2)) (h : startsWord text = true) :
    startsWord (pass a text) = true := by
  obtain ⟨word, rest, hword, hrest, rfl⟩ := exists_word h
  by_cases hat : At a.1.toList (word ++ rest)
  · obtain ⟨after, heq, hafter⟩ := hat
    rw [heq, ha.pass_name hafter]
    exact startsWord_append_of_word hvalue
  · rw [ha.pass_word hword hrest hat]
    exact startsWord_append_of_word hword

/-- If the order does not matter for a text, a pass completes no name in it. -/
lemma eq_of_pass_eq {a : String × Noun} {y : String} (ha : Whole a) (hb : Whole (y, twos))
    (h : pass a text = y.toList)
    (hcomm : pass (y, twos) (pass a text) = pass a (pass (y, twos) text)) : text = y.toList := by
  rcases valueText_cases ha.legible with hvalue | hbracket
  · have hwhole : pass (y, twos) y.toList = valueText twos := hb.pass_self
    rw [h, hwhole] at hcomm
    by_cases hat : At y.toList text
    · -- nothing is left behind the name
      obtain ⟨rest, rfl, hrest⟩ := hat
      have hpass : pass (y, twos) (y.toList ++ rest) = valueText twos ++ pass (y, twos) rest :=
        hb.pass_name hrest
      rw [hpass, ha.pass_noun (nounText_valueText legible_twos) (hb.startsWord_pass hrest)] at hcomm
      have hnil : pass a (pass (y, twos) rest) = [] := by simpa using hcomm.symm
      have hnil' := replaceFrom_eq_nil (nounText_valueText ha.legible).nonempty hnil
      rw [replaceFrom_eq_nil (nounText_valueText legible_twos).nonempty hnil', List.append_nil]
    · -- the first word stays or becomes a number, and the value begins with a bracket
      have hstart : startsWord text = true := by
        rw [← Bool.not_eq_false]
        intro hstart
        have hname := ha.startsWord_pass hstart
        rw [h, startsWord_of_isName hb.isName] at hname
        cases hname
      obtain ⟨word, rest, hword, hrest, rfl⟩ := exists_word hstart
      have hkept : startsWord (pass (y, twos) (word ++ rest)) = true := by
        rw [hb.pass_word hword hrest hat]
        exact startsWord_append_of_word hword
      have hresult := ha.startsWord_pass_of_word hvalue hkept
      rw [← hcomm, valueText_twos] at hresult
      exact absurd hresult (by decide)
  · exact eq_of_pass_eq_of_bracket ha.legible hbracket (bracket_not_mem hb.isName) h

/-- **Variables whose order never matters spare each other.** -/
lemma spares_of_not_clash {x y : String} (hx : isName x = true) (hy : isName y = true)
    (h : ¬Clash x y) {n : Noun} (hn : n.Legible) (m : Noun) : Spares (x, n) (y, m) where
  ends := endsWord_of_not_clash hx hy h
  apart := not_beginsInside_of_not_clash hy hx fun hclash => h hclash.symm
  completes := by
    intro text htext
    have hxends := endsWord_of_not_clash hx hy h
    have hyends := endsWord_of_not_clash hy hx fun hclash => h hclash.symm
    have hwhole : Whole (x, n) := ⟨hx, hxends, hn⟩
    have hwhole' : Whole (y, twos) := ⟨hy, hyends, legible_twos⟩
    refine eq_of_pass_eq hwhole hwhole' htext ?_
    by_contra hne
    exact h ⟨n, twos, hn, legible_twos, text, hne⟩

end

/-! ## Notebooks -/

section

variable {x y : String}

/-- Names that clash can be defined in both orders. -/
lemma Clash.exists_reachable (hx : isName x = true) (hy : isName y = true) (hxy : x ≠ y)
    (h : Clash x y) : ∃ nb nb' : Notebook, Reachable nb ∧ Reachable nb' ∧ nb'.vars.Perm nb.vars ∧
      (nb.vars.map Prod.fst).Perm [x, y] ∧
      ∃ text, nb'.vars.substitute text ≠ nb.vars.substitute text := by
  obtain ⟨n, m, hn, hm, text, hne⟩ := h
  have hproper : Variables.Proper [(x, n), (y, m)] :=
    List.forall_mem_cons.mpr ⟨⟨hx, hn⟩, List.forall_mem_singleton.mpr ⟨hy, hm⟩⟩
  have hproper' : Variables.Proper [(y, m), (x, n)] :=
    List.forall_mem_cons.mpr ⟨⟨hy, hm⟩, List.forall_mem_singleton.mpr ⟨hx, hn⟩⟩
  obtain ⟨nb, hnb, hvars⟩ := Notebook.exists_reachable hproper (by simpa [Variables.Distinct])
  obtain ⟨nb', hnb', hvars'⟩ :=
    Notebook.exists_reachable hproper' (by simpa [Variables.Distinct] using hxy.symm)
  refine ⟨nb, nb', hnb, hnb', ?_, ?_, text, ?_⟩
  · rw [hvars, hvars']
    exact .swap _ _ _
  · rw [hvars]
    exact .refl _
  · rw [hvars, hvars', Variables.substitute_eq_foldl hproper,
      Variables.substitute_eq_foldl hproper']
    exact fun heq => hne (Except.ok.inj heq).symm

lemma Independent.pairwise {vars : Variables} (hvars : vars.Proper)
    (hnames : (vars.map Prod.fst).Perm [x, y])
    (h : ∀ n m : Noun, n.Legible → m.Legible → Independent (x, n) (y, m)) :
    vars.Pairwise Independent := by
  obtain ⟨a, b, rfl⟩ := List.length_eq_two.mp (by simpa using hnames.length_eq)
  obtain ⟨ha, hb⟩ := List.forall_mem_cons.mp hvars
  rw [List.forall_mem_singleton] at hb
  rw [List.pairwise_pair]
  rcases List.perm_pair.mp hnames with hsame | hswapped
  · cases hsame
    exact h a.2 b.2 ha.2 hb.2
  · cases hswapped
    exact (h b.2 a.2 hb.2 ha.2).symm

end

/-- **The order of definitions.**  Two names are independent, whatever their values, exactly if the order
in which they were defined never matters, whatever the text.  For any number of variables, it is enough
that they are independent in pairs. -/
theorem substitution_order {x y : String} (hx : isName x = true) (hy : isName y = true)
    (hxy : x ≠ y) :
    ((∀ n m : Noun, n.Legible → m.Legible → Independent (x, n) (y, m)) ↔
      ∀ nb nb' : Notebook, Reachable nb → Reachable nb' → nb'.vars.Perm nb.vars →
        (nb.vars.map Prod.fst).Perm [x, y] →
        ∀ text, nb'.vars.substitute text = nb.vars.substitute text) ∧
    ∀ nb nb' : Notebook, Reachable nb → Reachable nb' → nb'.vars.Perm nb.vars →
      nb.vars.Pairwise Independent →
      ∀ text, nb'.vars.substitute text = nb.vars.substitute text := by
  refine ⟨⟨fun hind nb nb' hnb _ hperm hnames => ?_, fun hsame => ?_⟩,
    fun nb nb' hnb _ hperm hind => Variables.substitute_eq_of_perm hnb.proper hind hperm⟩
  · have hpairwise := Independent.pairwise hnb.proper hnames hind
    exact Variables.substitute_eq_of_perm hnb.proper hpairwise hperm
  · have hclash : ¬Clash x y := by
      intro hclash
      obtain ⟨nb, nb', hnb, hnb', hperm, hnames, text, hne⟩ := hclash.exists_reachable hx hy hxy
      exact hne (hsame nb nb' hnb hnb' hperm hnames text)
    intro n m hn hm
    exact ⟨spares_of_not_clash hx hy hclash hn m,
      spares_of_not_clash hy hx (fun h => hclash h.symm) hm n⟩

/-- The notebook after one kernel has answered the texts. -/
def afterTexts (codes : List String) : Notebook :=
  codes.foldl (fun nb code => (nb.execute 9 0 false code).2) {}

lemma reachable_afterTexts (codes : List String) : Reachable (afterTexts codes) := by
  induction codes using List.reverseRecOn with
  | nil => exact .fresh
  | append_singleton codes code ih =>
      rw [afterTexts, List.foldl_concat]
      exact ih.execute 9 0 false code

/-- The order of `a` and `a-b` matters, and so they are not independent for all values; that of `a-b` and
`c-d` does not, because they have no word in common. -/
theorem substitution_order_hyphens :
    let nb := afterTexts [":a-b 1", ":c-d [2 3]"]
    let nb' := afterTexts [":c-d [2 3]", ":a-b 1"]
    (isName "a" = true ∧ isName "a-b" = true ∧ "a" ≠ "a-b") ∧
    ¬(∀ n m : Noun, n.Legible → m.Legible → Independent ("a", n) ("a-b", m)) ∧
    (Reachable nb ∧ Reachable nb' ∧ nb'.vars.Perm nb.vars ∧ nb.vars.Pairwise Independent) ∧
    nb.vars.substitute "a-b-c-d a".toList = .ok "1-[2 3] a".toList ∧
    nb'.vars.substitute "a-b-c-d a".toList = .ok "1-[2 3] a".toList := by
  intro nb nb'
  have hnb : Reachable nb := reachable_afterTexts _
  have hnb' : Reachable nb' := reachable_afterTexts _
  have hvars : nb.vars = [("a-b", .atom 1), ("c-d", .cell (.atom 2) (.atom 3))] := by
    decide +kernel
  have hvars' : nb'.vars = [("c-d", .cell (.atom 2) (.atom 3)), ("a-b", .atom 1)] := by
    decide +kernel
  have hperm : nb'.vars.Perm nb.vars := by
    rw [hvars, hvars']
    exact .swap _ _ _
  have hind : nb.vars.Pairwise Independent := by
    rw [hvars, List.pairwise_pair]
    exact .of_runs ⟨by decide, by decide, by decide, by decide +kernel⟩
      ⟨by decide, by decide, by decide, by decide +kernel⟩ (by decide +kernel) (by decide +kernel)
      (by decide +kernel)
  obtain ⟨hexact, horder⟩ :=
    substitution_order (show isName "a" = true by decide) (show isName "a-b" = true by decide)
      (by decide)
  have hresult : nb.vars.substitute "a-b-c-d a".toList = .ok "1-[2 3] a".toList := by
    decide +kernel
  have hsame := horder nb nb' hnb hnb' hperm hind "a-b-c-d a".toList
  refine ⟨⟨by decide, by decide, by decide⟩, fun hall => ?_, ⟨hnb, hnb', hperm, hind⟩, hresult,
    hsame.trans hresult⟩
  have hclash := hexact.mp hall
    (afterTexts [":a 1", ":a-b 2"]) (afterTexts [":a-b 2", ":a 1"]) (reachable_afterTexts _)
    (reachable_afterTexts _) (by decide +kernel) (by decide +kernel) "a-b".toList
  exact absurd hclash (by decide +kernel)

/-- Hyphens make the order matter: the pass of `a` changes `a-b`. -/
theorem hyphen_makes_order_matter :
    let nb := afterTexts [":a 1", ":a-b 2"]
    let nb' := afterTexts [":a-b 2", ":a 1"]
    Reachable nb ∧ Reachable nb' ∧ nb'.vars.Perm nb.vars ∧
    nb.vars.substitute "a-b".toList = .ok "1-b".toList ∧
    nb'.vars.substitute "a-b".toList = .ok "2".toList :=
  ⟨reachable_afterTexts _, reachable_afterTexts _, by decide +kernel, by decide +kernel,
    by decide +kernel⟩

end Nock.Notebook
