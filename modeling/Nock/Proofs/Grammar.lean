import Nock.Proofs.Parser

/-!
# The grammar of nouns

The text of a noun is a sequence of spaces, numerals and bracketed sequences.  A **numeral** is a
run of digits and dots that begins with a digit and cannot be made longer on either side.  A
`Derivation` takes a text apart in this way.  It has a `text` and items, and the noun of the items
is its `value`.

**From derivations to the reader.**  The reader runs along the text of a derivation and, once the
last numeral has ended, holds exactly the items of the derivation in addition to those it held
before (`Derivation.run`).  This goes by the derivation, from any state between two numerals.

**From the reader to derivations.**  The reader sees a text from the left to the right and knows
nothing of what follows, so the invariant speaks of the text read so far (`Scan.HasRead`).  That
text consists of the texts of the open sequences, from the outside in, each with a derivation of its
items, and of the digits and dots of a numeral that has not ended yet.  A character keeps this
(`HasRead.step`), hence a text does (`HasRead.run`).

Together, a text is read exactly if it is derived, provided that its numerals have decimal digits
only and not too many of them.
-/

namespace Nock

/-- Is it a fault of a text that is no noun, or of one with a number that cannot be read? -/
def Fault.ofText : Fault → Bool
  | .unmatched _ | .unclosed _ | .strayDot _ | .strayChar _ _ | .notDecimal _ | .longText _ => true
  | _ => false

namespace Noun

/-! ## Numerals -/

/-- May the character stand in a numeral? -/
def isNumeralChar (c : Char) : Bool :=
  Text.isDigit c || c == '.'

/-- A digit, followed by digits and dots. -/
def isNumeral (numeral : List Char) : Bool :=
  numeral.head?.any Text.isDigit && numeral.all isNumeralChar

/-- Does the text begin with a character of a numeral? -/
def startsNumeral (cs : List Char) : Bool :=
  cs.head?.any isNumeralChar

/-- Does the text end with a character of a numeral? -/
def endsNumeral (cs : List Char) : Bool :=
  cs.getLast?.any isNumeralChar

/-- It is a numeral of the text, and can be made longer on neither side. -/
def NumeralIn (numeral text : List Char) : Prop :=
  isNumeral numeral = true ∧ ∃ before after, text = before ++ numeral ++ after ∧
    endsNumeral before = false ∧ startsNumeral after = false

/-- The digits of a numeral, without the dots. -/
def digitsOf (numeral : List Char) : List Char :=
  numeral.filter Text.isDigit

/-- The number that the digits of a numeral spell in decimal. -/
def numeralValue (numeral : List Char) : Nat :=
  Decimal.ofDigits ((digitsOf numeral).filterMap Text.decimalValue?)

/-- The digits of the numeral are decimal and not too many. -/
structure Readable (numeral : List Char) : Prop where
  decimal : ∀ c ∈ digitsOf numeral, Text.isDecimal c = true
  short : (digitsOf numeral).length ≤ Decimal.maxDigits

variable {numeral cs before after : List Char} {c : Char}

lemma isDigit_dot : Text.isDigit '.' = false := by decide

lemma exists_cons_of_isNumeral (h : isNumeral numeral = true) : ∃ d rest, numeral = d :: rest ∧
    Text.isDigit d = true ∧ rest.all isNumeralChar = true := by
  cases numeral with
  | nil => cases h
  | cons d rest =>
      simp only [isNumeral, List.head?_cons, Option.any_some, List.all_cons, Bool.and_eq_true] at h
      exact ⟨d, rest, rfl, h.1, h.2.2⟩

lemma isNumeral_cons {d : Char} {rest : List Char} (hd : Text.isDigit d = true)
    (hrest : rest.all isNumeralChar = true) : isNumeral (d :: rest) = true := by
  simp [isNumeral, isNumeralChar, hd, hrest]

lemma isNumeral_append (h : isNumeral numeral = true) (hc : isNumeralChar c = true) :
    isNumeral (numeral ++ [c]) = true := by
  obtain ⟨d, rest, rfl, hd, hrest⟩ := exists_cons_of_isNumeral h
  exact isNumeral_cons hd (by simp [hrest, hc])

lemma isNumeral_ne_nil (h : isNumeral numeral = true) : numeral ≠ [] := by
  rintro rfl
  cases h

lemma digitsOf_ne_nil (h : isNumeral numeral = true) : digitsOf numeral ≠ [] := by
  obtain ⟨d, rest, rfl, hd, -⟩ := exists_cons_of_isNumeral h
  simp [digitsOf, hd]

lemma startsNumeral_of_isNumeral (h : isNumeral numeral = true) : startsNumeral numeral = true := by
  obtain ⟨d, rest, rfl, hd, -⟩ := exists_cons_of_isNumeral h
  simp [startsNumeral, isNumeralChar, hd]

lemma endsNumeral_of_isNumeral (h : isNumeral numeral = true) : endsNumeral numeral = true := by
  have hlast := List.getLast_mem (isNumeral_ne_nil h)
  rw [isNumeral, Bool.and_eq_true, List.all_eq_true] at h
  rw [endsNumeral, List.getLast?_eq_some_getLast (List.ne_nil_of_mem hlast), Option.any_some]
  exact h.2 _ hlast

lemma startsNumeral_append (before cs : List Char) : startsNumeral (before ++ cs) =
    if before = [] then startsNumeral cs else startsNumeral before := by
  cases before <;> rfl

lemma endsNumeral_append (before cs : List Char) : endsNumeral (before ++ cs) =
    if cs = [] then endsNumeral before else endsNumeral cs := by
  split_ifs with hcs
  · simp [hcs]
  · simp [endsNumeral, List.getLast?_append, List.getLast?_eq_some_getLast hcs]

lemma endsNumeral_of_append (before : List Char) (h : endsNumeral cs = true) :
    endsNumeral (before ++ cs) = true := by
  rw [endsNumeral_append]
  split_ifs with hcs
  · subst hcs
    cases h
  · exact h

/-- A numeral of a text is a numeral of every longer text that does not run on into it. -/
lemma NumeralIn.within (h : NumeralIn numeral cs) (before after : List Char)
    (hbefore : endsNumeral before = true → startsNumeral cs = false)
    (hafter : endsNumeral cs = true → startsNumeral after = false) :
    NumeralIn numeral (before ++ cs ++ after) := by
  obtain ⟨hnumeral, left, right, rfl, hleft, hright⟩ := h
  have hne := isNumeral_ne_nil hnumeral
  have hstarts := startsNumeral_of_isNumeral hnumeral
  have hends := endsNumeral_of_isNumeral hnumeral
  refine ⟨hnumeral, before ++ left, right ++ after, by simp, ?_, ?_⟩
  · rw [endsNumeral_append]
    split_ifs with hnil
    · by_contra hb
      have := hbefore (by simpa using hb)
      simp [hnil, startsNumeral_append, hne, hstarts] at this
    · exact hleft
  · rw [startsNumeral_append]
    split_ifs with hnil
    · exact hafter (by simp [hnil, endsNumeral_append, hne, hends])
    · exact hright

/-- A number is read exactly from the digits of a readable numeral, and it is what they spell. -/
lemma readNumber_digitsOf {k : Nat} :
    readNumber (digitsOf numeral) = .ok k ↔ Readable numeral ∧ numeralValue numeral = k := by
  rw [readNumber_eq_ok]
  constructor
  · rintro ⟨ds, hlength, hds, rfl⟩
    obtain ⟨hdecimal, rfl⟩ := mapM_decimalValue?_eq_some.mp hds
    exact ⟨⟨hdecimal, hlength⟩, rfl⟩
  · rintro ⟨⟨hdecimal, hshort⟩, rfl⟩
    exact ⟨_, hshort, mapM_decimalValue?_eq_some.mpr ⟨hdecimal, rfl⟩, rfl⟩

/-! ## Derivations -/

/-- A text taken apart into spaces, numerals and bracketed sequences. -/
inductive Derivation where
  | done
  | space (rest : Derivation)
  | number (numeral : List Char) (rest : Derivation)
  | bracket (inner rest : Derivation)
  deriving DecidableEq, Repr

namespace Derivation

/-- The text that is taken apart. -/
def text : Derivation → List Char
  | done => []
  | space rest => ' ' :: rest.text
  | number numeral rest => numeral ++ rest.text
  | bracket inner rest => '[' :: inner.text ++ ']' :: rest.text

/-- The nouns of the sequence: a numeral is its number, and a bracketed sequence is the noun of its
items. -/
def items : Derivation → List Noun
  | done => []
  | space rest => rest.items
  | number numeral rest => .atom (numeralValue numeral) :: rest.items
  | bracket inner rest => ofList inner.items :: rest.items

/-- The noun of the items: 0 if there are none, a single one itself, and more of them hanging to the
right. -/
def value (d : Derivation) : Noun :=
  ofList d.items

/-- The numerals are numerals and as long as can be. -/
def Valid : Derivation → Prop
  | done => True
  | space rest => rest.Valid
  | number numeral rest => isNumeral numeral = true ∧ startsNumeral rest.text = false ∧ rest.Valid
  | bracket inner rest => inner.Valid ∧ rest.Valid

/-- The numerals of the derivation, those inside brackets included. -/
def numerals : Derivation → List (List Char)
  | done => []
  | space rest => rest.numerals
  | number numeral rest => numeral :: rest.numerals
  | bracket inner rest => inner.numerals ++ rest.numerals

/-- All numerals can be read. -/
def Readable (d : Derivation) : Prop :=
  ∀ numeral ∈ d.numerals, Noun.Readable numeral

/-- One derivation after the other. -/
def append : Derivation → Derivation → Derivation
  | done, e => e
  | space rest, e => space (rest.append e)
  | number numeral rest, e => number numeral (rest.append e)
  | bracket inner rest, e => bracket inner (rest.append e)

@[simp] lemma text_append (d e : Derivation) : (d.append e).text = d.text ++ e.text := by
  induction d with
  | done => rfl
  | space rest ih => simp [append, text, ih]
  | number numeral rest ih => simp [append, text, ih]
  | bracket inner rest _ ih => simp [append, text, ih]

@[simp] lemma items_append (d e : Derivation) : (d.append e).items = d.items ++ e.items := by
  induction d with
  | done => rfl
  | space rest ih => simp [append, items, ih]
  | number numeral rest ih => simp [append, items, ih]
  | bracket inner rest _ ih => simp [append, items, ih]

@[simp] lemma numerals_append (d e : Derivation) :
    (d.append e).numerals = d.numerals ++ e.numerals := by
  induction d with
  | done => rfl
  | space rest ih => simp [append, numerals, ih]
  | number numeral rest ih => simp [append, numerals, ih]
  | bracket inner rest _ ih => simp [append, numerals, ih]

lemma Readable.append {d e : Derivation} (hd : d.Readable) (he : e.Readable) :
    (d.append e).Readable := by
  intro numeral hrun
  rw [numerals_append, List.mem_append] at hrun
  exact hrun.elim (hd numeral) (he numeral)

/-- Two derivations can be joined unless a numeral on the left runs on into one on the right. -/
lemma Valid.append {d e : Derivation} (hd : d.Valid) (he : e.Valid)
    (hjoin : endsNumeral d.text = true → startsNumeral e.text = false) : (d.append e).Valid := by
  induction d with
  | done => exact he
  | space rest ih => exact ih hd fun hends => hjoin (endsNumeral_of_append [' '] hends)
  | number numeral rest ih =>
      obtain ⟨hrun, hstart, hrest⟩ := hd
      refine ⟨hrun, ?_, ih hrest fun hends => hjoin (endsNumeral_of_append numeral hends)⟩
      rw [text_append, startsNumeral_append]
      split_ifs with hnil
      · exact hjoin (by simpa [text, hnil] using endsNumeral_of_isNumeral hrun)
      · exact hstart
  | bracket inner rest _ ih =>
      refine ⟨hd.1, ih hd.2 fun hends => hjoin ?_⟩
      simpa [text] using endsNumeral_of_append ('[' :: inner.text ++ [']']) hends

lemma endsNumeral_space (d : Derivation) : endsNumeral (d.append (.space .done)).text = false := by
  rw [text_append, endsNumeral_append]
  rfl

lemma endsNumeral_bracket (d e : Derivation) :
    endsNumeral (d.append (.bracket e .done)).text = false := by
  rw [text_append, endsNumeral_append, if_neg (by simp [text]), text, endsNumeral_append]
  rfl

/-- The numerals of a derivation are numerals of its text. -/
lemma Valid.numeralIn {d : Derivation} (hd : d.Valid) :
    ∀ numeral ∈ d.numerals, NumeralIn numeral d.text := by
  induction d with
  | done => simp [numerals]
  | space rest ih =>
      intro numeral hnumeral
      have h := (ih hd numeral hnumeral).within [' '] [] (fun h => absurd h (by decide))
        (fun _ => rfl)
      simpa [text] using h
  | number numeral rest ih =>
      obtain ⟨hnumeral, hstart, hrest⟩ := hd
      intro other hother
      rcases List.mem_cons.mp hother with rfl | hother
      · exact ⟨hnumeral, [], rest.text, rfl, rfl, hstart⟩
      · have h := (ih hrest other hother).within numeral [] (fun _ => hstart) (fun _ => rfl)
        simpa [text] using h
  | bracket inner rest ihinner ihrest =>
      intro numeral hnumeral
      rcases List.mem_append.mp hnumeral with hnumeral | hnumeral
      · exact (ihinner hd.1 numeral hnumeral).within ['['] _ (fun h => absurd h (by decide))
          (fun _ => rfl)
      · have hends : endsNumeral ('[' :: inner.text ++ [']']) = false := by
          rw [endsNumeral_append]
          rfl
        have h := (ihrest hd.2 numeral hnumeral).within ('[' :: inner.text ++ [']']) []
          (fun h => absurd h (by rw [hends]; decide)) (fun _ => rfl)
        simpa [text] using h

end Derivation

/-- The text has a derivation, and the noun is its value. -/
def Derives (cs : List Char) (n : Noun) : Prop :=
  ∃ d : Derivation, d.Valid ∧ d.text = cs ∧ d.value = n

/-! ## From derivations to the reader -/

namespace Scan

variable {s s' : Scan}

/-- Add items to the innermost open sequence. -/
def pushAll (s : Scan) (items : List Noun) : Scan :=
  { s with inner := { s.inner with items := items.reverse ++ s.inner.items } }

lemma endNumber_of_nil (h : s.digits = []) : s.endNumber = .ok s := by
  simp [endNumber, h]

lemma endNumber_inv (h : s.endNumber = .ok s') : s'.digits = [] ∧ s'.outer = s.outer := by
  rw [endNumber] at h
  split_ifs at h with hnil
  · cases h
    exact ⟨by simpa using hnil, rfl⟩
  · obtain ⟨k, -, heq⟩ := bind_eq_ok.mp h
    cases heq
    exact ⟨rfl, rfl⟩

lemma endNumber_numeral (hs : s.digits = (digitsOf numeral).reverse)
    (hnumeral : isNumeral numeral = true) :
    s.endNumber = readNumber (digitsOf numeral) >>= fun k =>
      .ok { s with digits := [], inner := s.inner.push (.atom k) } := by
  have hne : ¬ s.digits.isEmpty = true := by
    simpa [hs] using digitsOf_ne_nil hnumeral
  rw [endNumber, if_neg hne, hs, List.reverse_reverse]
  rfl

/-- A character that stands in no numeral ends the numeral before it. -/
lemma step_endNumber (hend : s.endNumber = .ok s') (hc : isNumeralChar c = false) (position : Nat) :
    s.step position c = s'.step position c := by
  obtain ⟨hdigits, houter⟩ := endNumber_inv hend
  have hend' := endNumber_of_nil hdigits
  simp only [isNumeralChar, Bool.or_eq_false_iff, beq_eq_false_iff_ne] at hc
  simp only [step, hend, hend', houter, hc.1, if_neg hc.2, Bool.false_eq_true, if_false]

/-- Once the last numeral has ended, it does not matter when the one before the text did. -/
lemma run_endNumber (hend : s.endNumber = .ok s') (hcs : startsNumeral cs = false)
    (position : Nat) :
    s.run position cs >>= endNumber = s'.run position cs >>= endNumber := by
  cases cs with
  | nil => exact hend.trans (endNumber_of_nil (endNumber_inv hend).1).symm
  | cons c cs => rw [run, run, step_endNumber hend hcs]

lemma run_append (s : Scan) (position : Nat) (cs rest : List Char) :
    s.run position (cs ++ rest) = s.run position cs >>= fun s' =>
      s'.run (position + cs.length) rest := by
  induction cs generalizing s position with
  | nil => rfl
  | cons c cs ih =>
      rw [List.cons_append, run, run]
      cases s.step position c with
      | error e => rfl
      | ok s' =>
          rw [ok_bind, ok_bind, ih, List.length_cons, Nat.add_assoc, Nat.add_comm 1]

lemma step_digit (hc : Text.isDigit c = true) (position : Nat) :
    s.step position c = .ok { s with digits := c :: s.digits } := by
  have hne : ∀ e, Text.isDigit e = false → c ≠ e := by
    rintro e he rfl
    rw [hc] at he
    cases he
  rw [step, if_neg (hne '[' (by decide)), if_neg (hne ']' (by decide)),
    if_neg (hne ' ' (by decide)), if_neg (hne '.' isDigit_dot), if_pos hc]

/-- Digits are kept and dots are skipped. -/
lemma run_numeralChars (hs : s.digits ≠ []) (hrun : numeral.all isNumeralChar = true)
    (position : Nat) :
    s.run position numeral = .ok { s with digits := (digitsOf numeral).reverse ++ s.digits } := by
  induction numeral generalizing s position with
  | nil => rfl
  | cons c numeral ih =>
      simp only [List.all_cons, Bool.and_eq_true] at hrun
      obtain ⟨hc, hrest⟩ := hrun
      cases hdigit : Text.isDigit c with
      | true =>
          rw [run, step_digit hdigit]
          simp [ih (s := { s with digits := c :: s.digits }) (by simp) hrest, digitsOf, hdigit]
      | false =>
          have hdot : c = '.' := by simpa [isNumeralChar, hdigit] using hc
          have hstep : s.step position '.' = .ok s := by simp [step, hs]
          rw [run, hdot, hstep]
          simp [ih hs hrest, digitsOf, isDigit_dot]

lemma run_numeral (hs : s.digits = []) (hnumeral : isNumeral numeral = true) (position : Nat) :
    s.run position numeral = .ok { s with digits := (digitsOf numeral).reverse } := by
  obtain ⟨c, rest, rfl, hc, hrest⟩ := exists_cons_of_isNumeral hnumeral
  rw [run, step_digit hc, ok_bind,
    run_numeralChars (s := { s with digits := c :: s.digits }) (by simp) hrest]
  simp [hs, digitsOf, hc]

end Scan

/-- **The reader finds the items of a derivation.**  From a state between two numerals it runs along
the text, and once the last numeral has ended, the items are there. -/
lemma Derivation.run {d : Derivation} (hd : d.Valid) (hread : d.Readable) {s : Scan}
    (hs : s.digits = []) (position : Nat) :
    s.run position d.text >>= Scan.endNumber = .ok (s.pushAll d.items) := by
  induction d generalizing s position with
  | done => exact Scan.endNumber_of_nil hs
  | space rest ih =>
      have hstep : s.step position ' ' = .ok s := Scan.endNumber_of_nil hs
      rw [text, Scan.run, hstep, ok_bind, ih hd hread hs, items]
  | number numeral rest ih =>
      obtain ⟨hnumeral, hstart, hrest⟩ := hd
      have hnumber := (readNumber_digitsOf (k := numeralValue numeral)).mpr
        ⟨hread numeral List.mem_cons_self, rfl⟩
      have hend := Scan.endNumber_numeral (s := { s with digits := (digitsOf numeral).reverse }) rfl
        hnumeral
      rw [hnumber, ok_bind] at hend
      rw [text, Scan.run_append, Scan.run_numeral hs hnumeral, ok_bind,
        Scan.run_endNumber hend hstart,
        ih hrest (fun other hother => hread other (List.mem_cons_of_mem _ hother)) rfl]
      simp [Scan.pushAll, Frame.push, items, hs]
  | bracket inner rest ihinner ihrest =>
      have hinner : inner.Readable := fun other h => hread other (List.mem_append_left _ h)
      have hrest : rest.Readable := fun other h => hread other (List.mem_append_right _ h)
      let opened : Scan := { s with inner := ⟨position, []⟩, outer := s.inner :: s.outer }
      have hopen : s.step position '[' = .ok opened := by
        simp [opened, Scan.step, Scan.endNumber_of_nil hs]
      -- a numeral at the end of the inner text has not ended yet: the closing bracket ends it
      obtain ⟨s₁, hrun, hend⟩ := bind_eq_ok.mp (ihinner hd.1 hinner (s := opened) hs (position + 1))
      have hclose : ∀ p, s₁.step p ']' = .ok (s.pushAll [ofList inner.items]) := by
        intro p
        rw [Scan.step_endNumber hend (by decide)]
        simp [opened, Scan.step, Scan.pushAll, Scan.endNumber, hs, Frame.push, Frame.close]
      rw [text, List.cons_append, Scan.run, hopen, ok_bind, Scan.run_append, hrun, ok_bind,
        Scan.run, hclose, ok_bind, ihrest (s := s.pushAll _) hd.2 hrest hs]
      simp [Scan.pushAll, items]

/-- The text of a derivation is read as its value. -/
lemma Derivation.parseChars_text {d : Derivation} (hd : d.Valid) (hread : d.Readable) :
    parseChars d.text = .ok d.value := by
  obtain ⟨s, hrun, hend⟩ := bind_eq_ok.mp (d.run hd hread (s := {}) rfl 0)
  have houter : s.outer = [] := (Scan.endNumber_inv hend).2.symm
  rw [parseChars, hrun, ok_bind, Scan.finish, houter, hend]
  simp [Scan.pushAll, Frame.close, value]

/-! ## From the reader to derivations -/

/-- The derivation yields the items of an open sequence. -/
structure Derivation.Fills (d : Derivation) (f : Frame) : Prop where
  valid : d.Valid
  readable : d.Readable
  items : d.items = f.items.reverse

namespace Derivation.Fills

variable {d e : Derivation} {f g : Frame}

lemma done (position : Nat) : Derivation.done.Fills ⟨position, []⟩ := by
  refine ⟨trivial, ?_, rfl⟩
  simp [Derivation.Readable, numerals]

lemma space (hd : d.Fills f) : (d.append (.space .done)).Fills f := by
  refine ⟨hd.valid.append trivial (fun _ => rfl), ?_, ?_⟩
  · simpa [Derivation.Readable, numerals] using hd.readable
  · simpa [Derivation.items] using hd.items

lemma number (hd : d.Fills f) (hends : endsNumeral d.text = false)
    (hnumeral : isNumeral numeral = true) (hread : Noun.Readable numeral) :
    (d.append (.number numeral .done)).Fills (f.push (.atom (numeralValue numeral))) := by
  refine ⟨hd.valid.append ⟨hnumeral, rfl, trivial⟩ (by simp [hends]), hd.readable.append ?_, ?_⟩
  · simpa [Derivation.Readable, numerals] using hread
  · simp [Frame.push, Derivation.items, hd.items]

lemma bracket (hd : d.Fills f) (he : e.Fills g) :
    (d.append (.bracket e .done)).Fills (f.push g.close) := by
  refine ⟨hd.valid.append ⟨he.valid, trivial⟩ (fun _ => rfl), hd.readable.append ?_, ?_⟩
  · simpa [Derivation.Readable, numerals] using he.readable
  · simp [Frame.push, Frame.close, Derivation.items, hd.items, he.items]

end Derivation.Fills

/-- The text in front of the innermost open sequence: the open sequences around it, each with its
items and the bracket that ends them. -/
inductive Surrounds : List Frame → List Char → Prop
  | outermost : Surrounds [] []
  | inside {f : Frame} {outer : List Frame} {before : List Char} {d : Derivation}
      (hbefore : Surrounds outer before) (hd : d.Fills f) :
      Surrounds (f :: outer) (before ++ d.text ++ ['['])

/-- The reader has read the text: open sequences with their items, and digits and dots of a numeral
that has not ended. -/
inductive Scan.HasRead (s : Scan) : List Char → Prop
  | intro (before numeral : List Char) (d : Derivation) (hbefore : Surrounds s.outer before)
      (hd : d.Fills s.inner) (hends : endsNumeral d.text = false)
      (hnumeral : numeral = [] ∨ isNumeral numeral = true)
      (hdigits : s.digits = (digitsOf numeral).reverse) :
      Scan.HasRead s (before ++ d.text ++ numeral)

namespace Scan.HasRead

variable {s s' : Scan}

lemma between {d : Derivation} (hbefore : Surrounds s.outer before) (hd : d.Fills s.inner)
    (hends : endsNumeral d.text = false) (hdigits : s.digits = []) :
    s.HasRead (before ++ d.text) := by
  simpa using HasRead.intro before [] d hbefore hd hends (Or.inl rfl) hdigits

/-- Ending a numeral adds it to the innermost open sequence. -/
lemma endNumber (hs : s.HasRead cs) (h : s.endNumber = .ok s') :
    ∃ before, ∃ d : Derivation, cs = before ++ d.text ∧ Surrounds s'.outer before ∧
      d.Fills s'.inner := by
  obtain ⟨before, numeral, d, hbefore, hd, hends, hnumeral, hdigits⟩ := hs
  rw [(endNumber_inv h).2]
  rcases hnumeral with rfl | hnumeral
  · rw [endNumber_of_nil hdigits] at h
    cases h
    exact ⟨before, d, by simp, hbefore, hd⟩
  · rw [endNumber_numeral hdigits hnumeral] at h
    obtain ⟨k, hk, heq⟩ := bind_eq_ok.mp h
    cases heq
    obtain ⟨hread, rfl⟩ := readNumber_digitsOf.mp hk
    exact ⟨before, _, by simp [Derivation.text], hbefore, hd.number hends hnumeral hread⟩

/-- A character is added to the text that has been read. -/
lemma step (hs : s.HasRead cs) {position : Nat} (h : s.step position c = .ok s') :
    s'.HasRead (cs ++ [c]) := by
  rw [Scan.step] at h
  split_ifs at h with hopen hclose hspace hdot hempty hdigit
  · subst hopen
    obtain ⟨s₁, hs₁, heq⟩ := bind_eq_ok.mp h
    cases heq
    obtain ⟨before, d, rfl, hbefore, hd⟩ := hs.endNumber hs₁
    have hnew := between (s := { s₁ with inner := ⟨position, []⟩, outer := s₁.inner :: s₁.outer })
      (.inside hbefore hd) (.done position) rfl (endNumber_inv hs₁).1
    simpa [Derivation.text] using hnew
  · subst hclose
    cases houter : s.outer with
    | nil => simp [houter] at h
    | cons around outer =>
        rw [houter] at h
        obtain ⟨s₁, hs₁, heq⟩ := bind_eq_ok.mp h
        cases heq
        obtain ⟨before, d, rfl, hbefore, hd⟩ := hs.endNumber hs₁
        rw [(endNumber_inv hs₁).2, houter] at hbefore
        cases hbefore with
        | inside hbefore hd' =>
            have hnew := between
              (s := { s₁ with inner := around.push s₁.inner.close, outer := outer })
              hbefore (hd'.bracket hd) (Derivation.endsNumeral_bracket _ _) (endNumber_inv hs₁).1
            simpa [Derivation.text] using hnew
  · subst hspace
    obtain ⟨before, d, rfl, hbefore, hd⟩ := hs.endNumber h
    have hnew := between hbefore hd.space (Derivation.endsNumeral_space _) (endNumber_inv h).1
    simpa [Derivation.text] using hnew
  · cases h
    subst hdot
    obtain ⟨before, numeral, d, hbefore, hd, hends, hnumeral, hdigits⟩ := hs
    have hnumeral : isNumeral numeral = true := by
      refine hnumeral.resolve_left ?_
      rintro rfl
      exact hempty (by simp [hdigits, digitsOf])
    rw [List.append_assoc]
    exact .intro _ _ _ hbefore hd hends (Or.inr (isNumeral_append hnumeral (by decide)))
      (by simp [hdigits, digitsOf, isDigit_dot])
  · cases h
    obtain ⟨before, numeral, d, hbefore, hd, hends, hnumeral, hdigits⟩ := hs
    have hc : isNumeralChar c = true := by simp [isNumeralChar, hdigit]
    rw [List.append_assoc]
    refine .intro _ _ _ hbefore hd hends (Or.inr ?_) (by simp [hdigits, digitsOf, hdigit])
    rcases hnumeral with rfl | hnumeral
    · exact isNumeral_cons hdigit rfl
    · exact isNumeral_append hnumeral hc

/-- A text is added to the text that has been read. -/
lemma run (hs : s.HasRead before) {position : Nat} (h : s.run position cs = .ok s') :
    s'.HasRead (before ++ cs) := by
  induction cs generalizing s before position with
  | nil =>
      cases h
      simpa using hs
  | cons c cs ih =>
      obtain ⟨s₁, hs₁, hrest⟩ := bind_eq_ok.mp h
      simpa using ih (hs.step hs₁) hrest

end Scan.HasRead

/-- **What the reader accepts.**  Exactly the texts of derivations with readable numerals are read,
as the values of the derivations. -/
lemma parseChars_eq_ok {n : Noun} : parseChars cs = .ok n ↔
    ∃ d : Derivation, d.Valid ∧ d.Readable ∧ d.text = cs ∧ d.value = n := by
  constructor
  · intro h
    obtain ⟨s, hrun, hfinish⟩ := bind_eq_ok.mp h
    have hread := (Scan.HasRead.between (s := {}) .outermost (.done 0) rfl rfl).run hrun
    rw [Scan.finish] at hfinish
    split_ifs at hfinish with houter
    obtain ⟨s', hs', heq⟩ := bind_eq_ok.mp hfinish
    cases heq
    obtain ⟨before, d, htext, hbefore, hd⟩ := hread.endNumber hs'
    rw [(Scan.endNumber_inv hs').2, List.isEmpty_iff.mp houter] at hbefore
    cases hbefore
    refine ⟨d, hd.valid, hd.readable, by simpa [Derivation.text] using htext.symm, ?_⟩
    rw [Derivation.value, hd.items]
    rfl
  · rintro ⟨d, hd, hread, rfl, rfl⟩
    exact Derivation.parseChars_text hd hread

/-! ## Faults -/

/-- The computation fails, if it does, with a fault of a text. -/
def FailsInText {α : Type} (x : Except Fault α) : Prop :=
  ∀ fault, x = .error fault → fault.ofText = true

namespace FailsInText

variable {α β : Type}

lemma ok (a : α) : FailsInText (.ok a) := by
  intro fault h
  cases h

lemma error {e : Fault} (he : e.ofText = true) : FailsInText (.error e : Except Fault α) := by
  intro fault h
  cases h
  exact he

lemma bind {x : Except Fault α} {f : α → Except Fault β} (hx : FailsInText x)
    (hf : ∀ a, FailsInText (f a)) : FailsInText (x >>= f) := by
  cases x with
  | error e => exact .error (hx e rfl)
  | ok a => exact hf a

lemma readNumber (digits : List Char) : FailsInText (readNumber digits) := by
  rw [Noun.readNumber]
  split_ifs
  · exact .error rfl
  · cases digits.mapM Text.decimalValue? with
    | none => exact .error rfl
    | some ds => exact .ok _

lemma endNumber (s : Scan) : FailsInText s.endNumber := by
  rw [Scan.endNumber]
  split_ifs
  · exact .ok s
  · exact (readNumber _).bind fun k => .ok _

lemma step (s : Scan) (position : Nat) (c : Char) : FailsInText (s.step position c) := by
  rw [Scan.step]
  split_ifs
  · exact (endNumber s).bind fun s' => .ok _
  · cases s.outer with
    | nil => exact .error rfl
    | cons around outer => exact (endNumber s).bind fun s' => .ok _
  · exact endNumber s
  · exact .error rfl
  · exact .ok s
  · exact .ok _
  · exact .error rfl

lemma run (s : Scan) (position : Nat) (cs : List Char) : FailsInText (s.run position cs) := by
  induction cs generalizing s position with
  | nil => exact .ok s
  | cons c cs ih => exact (step s position c).bind fun s' => ih s' (position + 1)

/-- Whatever is not read is answered with a fault of the text. -/
lemma parseChars (cs : List Char) : FailsInText (parseChars cs) := by
  refine (run {} 0 cs).bind fun s => ?_
  rw [Scan.finish]
  split_ifs
  · exact (endNumber s).bind fun s' => .ok _
  · exact .error rfl

end FailsInText

/-! ## Texts of nouns -/

lemma NumeralIn.isInfix (h : NumeralIn numeral cs) : numeral <:+: cs := by
  obtain ⟨-, before, after, rfl, -⟩ := h
  exact ⟨before, after, rfl⟩

/-- **A text is read exactly if it is derived.**  Let all digits of a text be decimal and let no
numeral in it have too many of them.  Then the text is read as a noun exactly if it has a derivation
with that value, and a text without a derivation is answered with a fault of the text. -/
theorem parse_iff_derives (text : String)
    (hdecimal : ∀ c ∈ text.toList, Text.isDigit c = true → Text.isDecimal c = true)
    (hshort : ∀ numeral, NumeralIn numeral text.toList →
      (digitsOf numeral).length ≤ Decimal.maxDigits) :
    (∀ n, parse text = .ok n ↔ Derives text.toList n) ∧
    ((¬∃ n, Derives text.toList n) → ∃ fault, parse text = .error fault ∧ fault.ofText = true) := by
  have hiff : ∀ n, parse text = .ok n ↔ Derives text.toList n := by
    intro n
    rw [parse, parseChars_eq_ok]
    constructor
    · rintro ⟨d, hd, -, htext, hvalue⟩
      exact ⟨d, hd, htext, hvalue⟩
    · rintro ⟨d, hd, htext, hvalue⟩
      refine ⟨d, hd, fun numeral hnumeral => ?_, htext, hvalue⟩
      have hin : NumeralIn numeral text.toList := htext ▸ hd.numeralIn numeral hnumeral
      refine ⟨fun c hc => ?_, hshort numeral hin⟩
      obtain ⟨hmem, hdigit⟩ := List.mem_filter.mp hc
      exact hdecimal c (hin.isInfix.subset hmem) hdigit
  refine ⟨hiff, fun hnot => ?_⟩
  cases hparse : parse text with
  | error fault => exact ⟨fault, rfl, FailsInText.parseChars _ fault hparse⟩
  | ok n => exact absurd ⟨n, (hiff n).mp hparse⟩ hnot

lemma NumeralIn.length_le (h : NumeralIn numeral cs) : (digitsOf numeral).length ≤ cs.length :=
  le_trans (List.length_filter_le _ _) h.isInfix.length_le

lemma isDecimal_of_all {cs : List Char}
    (h : (cs.all fun c => !Text.isDigit c || Text.isDecimal c) = true) :
    ∀ c ∈ cs, Text.isDigit c = true → Text.isDecimal c = true := by
  intro c hc hdigit
  simpa [hdigit] using List.all_eq_true.mp h c hc

/-- The text `1[2.0 [] 3..]04` is the noun `[1 [20 0 3] 4]`, and `[1 2.]]3` is none. -/
theorem parse_iff_derives_adjacent :
    let text := "1[2.0 [] 3..]04"
    let noun := ofList [.atom 1, ofList [.atom 20, .atom 0, .atom 3], .atom 4]
    ((∀ c ∈ text.toList, Text.isDigit c = true → Text.isDecimal c = true) ∧
      (∀ numeral, NumeralIn numeral text.toList →
        (digitsOf numeral).length ≤ Decimal.maxDigits) ∧
      parse text = .ok noun ∧ Derives text.toList noun) ∧
    ((¬∃ n, Derives "[1 2.]]3".toList n) ∧
      ∃ fault, parse "[1 2.]]3" = .error fault ∧ fault.ofText = true) := by
  intro text noun
  have hdecimal : ∀ c ∈ text.toList, Text.isDigit c = true → Text.isDecimal c = true :=
    isDecimal_of_all (by decide +kernel)
  have hshort : ∀ numeral, NumeralIn numeral text.toList →
      (digitsOf numeral).length ≤ Decimal.maxDigits := fun numeral h =>
    le_trans h.length_le (by decide +kernel)
  have hparse : parse text = .ok noun := by decide +kernel
  have hfault : parse "[1 2.]]3" = .error (.unmatched 6) := by decide +kernel
  have hiff := parse_iff_derives "[1 2.]]3" (isDecimal_of_all (by decide +kernel)) fun numeral h =>
    le_trans h.length_le (by decide +kernel)
  have hnot : ¬∃ n, Derives "[1 2.]]3".toList n := by
    rintro ⟨n, hn⟩
    have := (hiff.1 n).mpr hn
    rw [hfault] at this
    cases this
  exact ⟨⟨hdecimal, hshort, hparse, ((parse_iff_derives text hdecimal hshort).1 noun).mp hparse⟩,
    hnot, hiff.2 hnot⟩

end Noun

end Nock
