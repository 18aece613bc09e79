import Nock.Proofs.Grammar
import Nock.Store.Basic

/-!
# What is written is read back

The text of a noun leaves out the brackets of every tail, and the reader puts the tails back from
the places of the items.  The two meet in the grammar: the text of a natural noun has a derivation
that follows the noun (`Noun.derivation`).  In the place of a head it has the noun as its only item,
and in the place of a tail it has items that form the noun (`Noun.items_derivation`).  Numbers are
written without dots, within the limit of digits, so the reader accepts the text.
-/

namespace Nock

/-! ## Numbers -/

section

variable {c : Char} {k : Nat}

lemma Text.decimalValue?_of_isDigit (h : c.isDigit = true) :
    decimalValue? c = some (c.toNat - '0'.toNat) := by
  have hzeros : zeros = '0'.toNat :: zeros.tail := rfl
  have hrange := Char.isDigit_iff_toNat.mp h
  rw [decimalValue?, hzeros, List.find?_cons_of_pos]
  · rfl
  · simp only [Char.reduceToNat, Bool.and_eq_true, decide_eq_true_eq] at hrange ⊢
    omega

lemma Text.filterMap_decimalValue? {cs : List Char} (h : ∀ c ∈ cs, c.isDigit = true) :
    cs.filterMap decimalValue? = cs.map fun c => c.toNat - '0'.toNat := by
  induction cs with
  | nil => rfl
  | cons c cs ih =>
      rw [List.forall_mem_cons] at h
      rw [List.filterMap_cons_some (decimalValue?_of_isDigit h.1), ih h.2, List.map_cons]

lemma Text.isDigit_of_isDigit (h : c.isDigit = true) : isDigit c = true := by
  simp [isDigit, isDecimal, decimalValue?_of_isDigit h]

lemma isDigit_of_mem_toDigits (h : c ∈ Nat.toDigits 10 k) : c.isDigit = true :=
  Nat.isDigit_of_mem_toDigits (by decide) (by decide) h

namespace Noun

lemma digitsOf_toDigits (k : Nat) : digitsOf (Nat.toDigits 10 k) = Nat.toDigits 10 k :=
  List.filter_eq_self.mpr fun _ hc => Text.isDigit_of_isDigit (isDigit_of_mem_toDigits hc)

lemma numeralValue_toDigits (k : Nat) : numeralValue (Nat.toDigits 10 k) = k := by
  rw [numeralValue, digitsOf_toDigits,
    Text.filterMap_decimalValue? fun c hc => isDigit_of_mem_toDigits hc, Decimal.ofDigits,
    List.foldl_map, ← Nat.ofDigitChars_eq_foldl, Nat.ofDigitChars_ten_toDigits]

lemma isNumeral_toDigits (k : Nat) : isNumeral (Nat.toDigits 10 k) = true := by
  cases hdigits : Nat.toDigits 10 k with
  | nil => exact absurd hdigits Nat.toDigits_ne_nil
  | cons d rest =>
      have hall : ∀ c ∈ d :: rest, Text.isDigit c = true := by
        intro c hc
        rw [← hdigits] at hc
        exact Text.isDigit_of_isDigit (isDigit_of_mem_toDigits hc)
      refine isNumeral_cons (hall d List.mem_cons_self) (List.all_eq_true.mpr fun c hc => ?_)
      simp [isNumeralChar, hall c (List.mem_cons_of_mem d hc)]

lemma readable_toDigits (h : Decimal.fits k = true) : Readable (Nat.toDigits 10 k) := by
  refine ⟨fun c hc => ?_, ?_⟩
  · rw [digitsOf_toDigits] at hc
    simp [Text.isDecimal, Text.decimalValue?_of_isDigit (isDigit_of_mem_toDigits hc)]
  · rw [digitsOf_toDigits, Nat.length_toDigits_le_iff (by decide) (by decide)]
    exact Decimal.fits_natCast.mp h

end Noun

end

/-! ## Nouns -/

namespace Noun

/-- The derivation that follows a noun, in tail position or not. -/
def derivation : Noun → (tail : Bool) → Derivation
  | .atom k, _ => .number (Nat.toDigits 10 k.natAbs) .done
  | .cell h t, tail =>
      let content := (h.derivation false).append (.space (t.derivation true))
      if tail then content else .bracket content .done

variable {n : Noun}

lemma valid_derivation (n : Noun) (tail : Bool) : (n.derivation tail).Valid := by
  induction n generalizing tail with
  | atom k => exact ⟨isNumeral_toDigits _, rfl, trivial⟩
  | cell h t ihh iht =>
      have hcontent := (ihh false).append (e := .space _) (iht true) (fun _ => rfl)
      cases tail with
      | true => exact hcontent
      | false => exact ⟨hcontent, trivial⟩

lemma readable_derivation (hn : n.Legible) (tail : Bool) : (n.derivation tail).Readable := by
  induction n generalizing tail with
  | atom k =>
      obtain ⟨k, rfl⟩ := Int.eq_ofNat_of_zero_le hn.1
      intro numeral hnumeral
      rw [derivation, Derivation.numerals, Derivation.numerals, List.mem_singleton] at hnumeral
      subst hnumeral
      exact readable_toDigits hn.2
  | cell h t ihh iht =>
      have hcontent := (ihh ⟨hn.1.1, hn.2.1⟩ false).append (e := .space _)
        (iht ⟨hn.1.2, hn.2.2⟩ true)
      cases tail with
      | true => exact hcontent
      | false => simpa [derivation, Derivation.Readable, Derivation.numerals] using hcontent

/-- A noun is the only item of its text, unless it is a tail: then the items form it. -/
lemma items_derivation (hn : n.Natural) : (n.derivation false).items = [n] ∧
    (n.derivation true).items ≠ [] ∧ (n.derivation true).value = n := by
  induction n with
  | atom k =>
      obtain ⟨k, rfl⟩ := Int.eq_ofNat_of_zero_le hn
      simp [derivation, Derivation.value, Derivation.items, numeralValue_toDigits, ofList]
  | cell h t ihh iht =>
      obtain ⟨hhead, -, -⟩ := ihh hn.1
      obtain ⟨-, htail, hvalue⟩ := iht hn.2
      have hcell : ofList (h :: (t.derivation true).items) = .cell h t := by
        cases hitems : (t.derivation true).items with
        | nil => exact absurd hitems htail
        | cons m rest => rw [ofList, ← hitems, ← Derivation.value, hvalue]; simp
      simp [derivation, Derivation.value, Derivation.items, hhead, hcell]

lemma value_derivation (hn : n.Natural) (tail : Bool) : (n.derivation tail).value = n := by
  cases tail with
  | true => exact (items_derivation hn).2.2
  | false => rw [Derivation.value, (items_derivation hn).1, ofList]

/-- The text of a noun is the text of its derivation. -/
lemma text_derivation (hn : n.Natural) {tail : Bool} {text : String}
    (h : n.pretty tail = .ok text) : (n.derivation tail).text = text.toList := by
  induction n generalizing tail text with
  | atom k =>
      obtain ⟨k, rfl⟩ := Int.eq_ofNat_of_zero_le hn
      rw [pretty, numberText] at h
      split_ifs at h
      cases h
      have hsign : ¬ (k : Int) < 0 := by omega
      simp [derivation, Derivation.text, Decimal.text, hsign, Nat.repr_eq_ofList_toDigits]
  | cell hd tl ihh iht =>
      rw [pretty] at h
      obtain ⟨headText, hhead, h⟩ := bind_eq_ok.mp h
      obtain ⟨tailText, htail, h⟩ := bind_eq_ok.mp h
      cases h
      cases tail <;>
        simp [derivation, Derivation.text, cellText, ihh hn.1 hhead, iht hn.2 htail]

lemma parse_of_derivation {d : Derivation} (hd : d.Valid) (hread : d.Readable) {text : String}
    (htext : d.text = text.toList) : parse text = .ok d.value := by
  rw [parse, ← htext, Derivation.parseChars_text hd hread]

lemma parse_of_pretty (hn : n.Legible) {tail : Bool} {text : String}
    (h : n.pretty tail = .ok text) : parse text = .ok n := by
  rw [parse_of_derivation (valid_derivation n tail) (readable_derivation hn tail)
    (text_derivation hn.1 h), value_derivation hn.1]

/-- A noun, a space and a noun are the cell of the two, with brackets around them or without. -/
lemma parse_pair {m : Noun} (hm : m.Legible) (hn : n.Legible) {first second : String}
    (hfirst : m.pretty false = .ok first) (hsecond : n.pretty false = .ok second) :
    parse (first ++ " " ++ second) = .ok (.cell m n) ∧
      parse ("[" ++ first ++ " " ++ second ++ "]") = .ok (.cell m n) := by
  let pair := (m.derivation false).append (.space (n.derivation false))
  have hvalid : pair.Valid := (valid_derivation m false).append (e := .space _)
    (valid_derivation n false) (fun _ => rfl)
  have hread : pair.Readable := (readable_derivation hm false).append (e := .space _)
    (readable_derivation hn false)
  have htext : pair.text = (first ++ " " ++ second).toList := by
    simp [pair, Derivation.text, text_derivation hm.1 hfirst, text_derivation hn.1 hsecond]
  have hvalue : pair.value = .cell m n := by
    simp [pair, Derivation.value, Derivation.items, (items_derivation hm.1).1,
      (items_derivation hn.1).1, ofList]
  have hbracket : (Derivation.bracket pair .done).Valid ∧
      (Derivation.bracket pair .done).Readable :=
    ⟨⟨hvalid, trivial⟩, by simpa [Derivation.Readable, Derivation.numerals] using hread⟩
  constructor
  · rw [parse_of_derivation hvalid hread htext, hvalue]
  · rw [parse_of_derivation hbracket.1 hbracket.2 (by simp [Derivation.text, htext]), ← hvalue]
    rfl

/-! ## Characters of a text -/

/-- Digits, spaces and brackets. -/
def isPlain (c : Char) : Bool :=
  c.isDigit || c == ' ' || c == '[' || c == ']'

lemma plain_derivation (n : Noun) (tail : Bool) :
    ∀ c ∈ (n.derivation tail).text, isPlain c = true := by
  induction n generalizing tail with
  | atom k =>
      intro c hc
      rw [derivation, Derivation.text, Derivation.text, List.append_nil] at hc
      simp [isPlain, isDigit_of_mem_toDigits hc]
  | cell h t ihh iht =>
      cases tail <;>
        simp only [derivation, Derivation.text, Derivation.text_append, if_true, List.mem_cons,
          List.mem_append, List.cons_append, Bool.false_eq_true, if_false, List.not_mem_nil] <;>
        grind [isPlain]

/-- Out of tail position a text neither begins nor ends with a space. -/
lemma ends_derivation (n : Noun) :
    (n.derivation false).text.head? ≠ some ' ' ∧ (n.derivation false).text.getLast? ≠ some ' ' := by
  cases n with
  | atom k =>
      have hspace : ' ' ∉ Nat.toDigits 10 k.natAbs := fun h =>
        absurd (isDigit_of_mem_toDigits h) (by decide)
      rw [derivation, Derivation.text, Derivation.text, List.append_nil]
      exact ⟨fun h => hspace (List.mem_of_head? h), fun h => hspace (List.mem_of_getLast? h)⟩
  | cell h t =>
      simp only [derivation, Derivation.text, Bool.false_eq_true, if_false, List.getLast?_concat]
      simp

end Noun

/-! ## Held nouns -/

/-- The view shows the noun, whatever mugs its cells remember. -/
inductive View.Shows : View → Noun → Prop
  | atom (k : Int) : View.Shows (.atom k) (.atom k)
  | cell {v w : View} {h t : Noun} (mug : Int) (hv : v.Shows h) (hw : w.Shows t) :
      View.Shows (.cell mug v w) (.cell h t)

/-- What shows a noun is printed like the noun. -/
lemma Store.prettyWithin_of_shows (s : Store) : ∀ {fuel : Nat} {d : Datum} {n : Noun},
    (s.viewWithin fuel d).Shows n → ∀ tail, s.prettyWithin fuel d tail = n.pretty tail := by
  intro fuel
  induction fuel with
  | zero =>
      intro d n h tail
      cases d with
      | atom k =>
          cases h
          rfl
      | _ => cases h
  | succ fuel ih =>
      intro d n h tail
      cases d with
      | atom k =>
          cases h
          rfl
      | cell c =>
          cases hget : s.cells[c]? with
          | none =>
              simp only [viewWithin, Datum.spell, hget] at h
              cases h
          | some cell =>
              simp only [viewWithin, Datum.spell, hget] at h
              cases h with
              | cell mug hhead htail =>
                  simp only [prettyWithin, hget, ih hhead, ih htail, Noun.pretty]
      | _ => cases h

/-- **What is written is read back.**  A noun of natural atoms with not too many digits has a text,
in tail position or not and however it is held, and the text is read as the noun.  The text of a
cell out of tail position is its text in tail position between brackets. -/
theorem parse_pretty {n : Noun} (hn : n.Legible) :
    (∀ tail, ∃ text, n.pretty tail = .ok text ∧
      (∀ (s : Store) (d : Datum), (s.view d).Shows n → s.pretty d tail = .ok text) ∧
      Noun.parse text = .ok n) ∧
    (n.isCell = true → ∃ content, n.pretty true = .ok content ∧
      n.pretty false = .ok ("[" ++ content ++ "]") ∧
      Noun.parse content = .ok n ∧ Noun.parse ("[" ++ content ++ "]") = .ok n) := by
  constructor
  · intro tail
    obtain ⟨text, htext⟩ := hn.2.pretty tail
    refine ⟨text, htext, fun s d hd => ?_, Noun.parse_of_pretty hn htext⟩
    exact (s.prettyWithin_of_shows hd tail).trans htext
  · intro hcell
    cases n with
    | atom k => cases hcell
    | cell h t =>
        obtain ⟨headText, hhead⟩ := hn.2.1.pretty false
        obtain ⟨tailText, htail⟩ := hn.2.2.pretty true
        have hpretty : ∀ tail,
            (Noun.cell h t).pretty tail = .ok (cellText tail headText tailText) := by
          intro tail
          rw [Noun.pretty, hhead, htail]
          rfl
        exact ⟨_, hpretty true, hpretty false, Noun.parse_of_pretty hn (hpretty true),
          Noun.parse_of_pretty hn (hpretty false)⟩

instance Noun.decidablePrintable : (n : Noun) → Decidable n.Printable
  | .atom k => inferInstanceAs (Decidable (Decimal.fits k = true))
  | .cell h t => @instDecidableAnd _ _ (decidablePrintable h) (decidablePrintable t)

/-- The noun `[[1 2] 0 [30 4] 5]`. -/
def nested : Noun :=
  Noun.ofList [.ofList [.atom 1, .atom 2], .atom 0, .ofList [.atom 30, .atom 4], .atom 5]

theorem parse_pretty_nested :
    (nested.Legible ∧ nested.isCell = true) ∧
    nested.pretty true = .ok "[1 2] 0 [30 4] 5" ∧ nested.pretty false = .ok "[[1 2] 0 [30 4] 5]" ∧
    Noun.parse "[1 2] 0 [30 4] 5" = .ok nested ∧
    Noun.parse "[[1 2] 0 [30 4] 5]" = .ok nested := by
  have hlegible : nested.Legible := ⟨by decide, by decide +kernel⟩
  have htext : nested.pretty true = .ok "[1 2] 0 [30 4] 5" := by decide +kernel
  obtain ⟨content, htrue, hfalse, hparse, hparse'⟩ := (parse_pretty hlegible).2 rfl
  cases htext.symm.trans htrue
  exact ⟨⟨hlegible, rfl⟩, htrue, hfalse, hparse, hparse'⟩

end Nock
