import Mathlib.Algebra.Group.Nat.Defs
import Mathlib.Data.List.Induction
import Mathlib.Data.List.TakeWhile
import Nock.Noun.Parser
import Nock.Noun.Printer
import Nock.Proofs.Mug

/-!
# What is read can be written

Numbers are read and written up to the same number of digits.  A text with few enough digits spells
a number below the corresponding power of ten (`ofDigits_lt`), and such a number is written, so
whatever was read can be written again (`legible_of_parseChars`).  What was computed cannot: an
increment may take a number over the limit.

The invariant of the reader is local: every item it holds, in any open bracket, is natural and can
be written (`Scan.Legible`).
-/

namespace Nock

/-! ## Writing -/

/-- Every atom of the noun can be written within the limit of digits. -/
def Noun.Printable : Noun → Prop
  | .atom k => Decimal.fits k = true
  | .cell h t => h.Printable ∧ t.Printable

/-- A printable noun has a text, in tail position or not. -/
lemma Noun.Printable.pretty : ∀ {n : Noun}, n.Printable → ∀ tail, ∃ text, n.pretty tail = .ok text
  | .atom k, h, tail => by
      rw [Noun.Printable] at h
      refine ⟨Decimal.text k, ?_⟩
      rw [Noun.pretty, numberText, if_pos h]
  | .cell hd tl, h, tail => by
      obtain ⟨headText, hhead⟩ := h.1.pretty false
      obtain ⟨tailText, htail⟩ := h.2.pretty true
      refine ⟨cellText tail headText tailText, ?_⟩
      rw [Noun.pretty, hhead, htail]
      rfl

/-- Nothing but the limit of digits keeps a noun from being written. -/
lemma Noun.pretty_of_not_printable : ∀ {n : Noun}, ¬n.Printable → ∀ tail,
    n.pretty tail = .error .longNumber
  | .atom k, h, tail => by
      rw [Noun.Printable] at h
      rw [Noun.pretty, numberText, if_neg h]
  | .cell hd tl, h, tail => by
      rw [Noun.pretty]
      by_cases hhead : hd.Printable
      · have htail : ¬tl.Printable := fun htail => h ⟨hhead, htail⟩
        obtain ⟨headText, hheadText⟩ := hhead.pretty false
        rw [hheadText, pretty_of_not_printable htail true]
        rfl
      · rw [pretty_of_not_printable hhead false]
        rfl

/-! ## Numbers -/

namespace Decimal

lemma ofDigits_append (ds : List Nat) (d : Nat) : ofDigits (ds ++ [d]) = 10 * ofDigits ds + d := by
  simp [ofDigits, List.foldl_append]

/-- A list of digits spells a number below the corresponding power of ten. -/
lemma ofDigits_lt {ds : List Nat} (h : ∀ d ∈ ds, d < 10) : ofDigits ds < 10 ^ ds.length := by
  induction ds using List.reverseRecOn with
  | nil => decide
  | append_singleton ds d ih =>
      have hd : d < 10 := h d (by simp)
      have hds := ih fun e he => h e (by simp [he])
      rw [ofDigits_append, List.length_append, List.length_singleton, Nat.pow_succ]
      omega

end Decimal

lemma Text.decimalValue?_lt {c : Char} {d : Nat} (h : decimalValue? c = some d) : d < 10 := by
  rw [decimalValue?, Option.map_eq_some_iff] at h
  obtain ⟨first, hfirst, rfl⟩ := h
  have hrange := List.find?_some hfirst
  simp only [Bool.and_eq_true, decide_eq_true_eq] at hrange
  omega

lemma Decimal.fits_natCast {k : Nat} : fits k = true ↔ k < 10 ^ maxDigits := by
  rw [fits, decide_eq_true_eq, Int.natAbs_natCast, Nat.pow_eq]

namespace Noun

lemma mapM_decimalValue?_lt : ∀ {cs : List Char} {ds : List Nat},
    cs.mapM Text.decimalValue? = some ds → ds.length = cs.length ∧ ∀ d ∈ ds, d < 10
  | [], ds, h => by
      cases h
      exact ⟨rfl, fun d hd => absurd hd List.not_mem_nil⟩
  | c :: cs, ds, h => by
      simp only [List.mapM_cons, Option.bind_eq_bind, Option.bind_eq_some_iff] at h
      obtain ⟨d, hd, rest, hrest, heq⟩ := h
      cases heq
      obtain ⟨hlength, hlt⟩ := mapM_decimalValue?_lt hrest
      refine ⟨by simp [hlength], fun e he => ?_⟩
      rcases List.mem_cons.mp he with rfl | he
      · exact Text.decimalValue?_lt hd
      · exact hlt e he

lemma mapM_decimalValue?_eq_some {cs : List Char} {ds : List Nat} : cs.mapM Text.decimalValue? = some ds ↔
    (∀ c ∈ cs, Text.isDecimal c = true) ∧ cs.filterMap Text.decimalValue? = ds := by
  induction cs generalizing ds with
  | nil => simp
  | cons c cs ih =>
      cases hc : Text.decimalValue? c with
      | none => simp [List.mapM_cons, Text.isDecimal, hc]
      | some d =>
          simp only [List.mapM_cons, Option.bind_eq_bind, hc, Option.bind_some,
            Option.bind_eq_some_iff, ih, List.forall_mem_cons, List.filterMap_cons_some hc]
          simp [Text.isDecimal, hc]

/-- A number is read exactly from decimal digits that are not too many. -/
lemma readNumber_eq_ok {digits : List Char} {k : Nat} : readNumber digits = .ok k ↔
    ∃ ds, digits.length ≤ Decimal.maxDigits ∧ digits.mapM Text.decimalValue? = some ds ∧
      Decimal.ofDigits ds = k := by
  rw [readNumber]
  cases hds : digits.mapM Text.decimalValue? with
  | none =>
      dsimp only
      split_ifs <;> simp
  | some ds =>
      have hall := List.takeWhile_eq_self_iff.mpr (mapM_decimalValue?_eq_some.mp hds).1
      simp only [hall]
      split_ifs with hlength
      · simp [Nat.not_le.mpr hlength]
      · simp [Nat.not_lt.mp hlength]

lemma fits_of_readNumber {digits : List Char} {k : Nat} (h : readNumber digits = .ok k) :
    Decimal.fits k = true := by
  obtain ⟨ds, hlength, hds, rfl⟩ := readNumber_eq_ok.mp h
  obtain ⟨hsame, hlt⟩ := mapM_decimalValue?_lt hds
  rw [Decimal.fits_natCast]
  calc Decimal.ofDigits ds < 10 ^ ds.length := Decimal.ofDigits_lt hlt
    _ ≤ 10 ^ Decimal.maxDigits := Nat.pow_le_pow_right (by decide) (by omega)

/-! ## The reader -/

/-- Natural and printable. -/
def Legible (n : Noun) : Prop :=
  n.Natural ∧ n.Printable

lemma Legible.cell {h t : Noun} (hh : h.Legible) (ht : t.Legible) : (Noun.cell h t).Legible :=
  ⟨⟨hh.1, ht.1⟩, ⟨hh.2, ht.2⟩⟩

lemma legible_of_readNumber {digits : List Char} {k : Nat} (h : readNumber digits = .ok k) :
    (Noun.atom k).Legible :=
  ⟨Int.natCast_nonneg k, fits_of_readNumber h⟩

lemma legible_ofList : ∀ {ns : List Noun}, (∀ n ∈ ns, n.Legible) → (ofList ns).Legible
  | [], _ => ⟨Int.le_refl 0, Decimal.fits_natCast.mpr (Nat.pow_pos (by decide))⟩
  | [n], h => h n List.mem_cons_self
  | n :: m :: rest, h =>
      .cell (h n List.mem_cons_self)
        (legible_ofList fun k hk => h k (List.mem_cons_of_mem _ hk))

namespace Frame

/-- All items of the sequence are legible. -/
def Legible (f : Frame) : Prop :=
  ∀ n ∈ f.items, n.Legible

lemma Legible.push {f : Frame} (hf : f.Legible) {n : Noun} (hn : n.Legible) : (f.push n).Legible := by
  intro m hm
  rcases List.mem_cons.mp hm with rfl | hm
  · exact hn
  · exact hf m hm

lemma Legible.close {f : Frame} (hf : f.Legible) : f.close.Legible :=
  legible_ofList fun n hn => hf n (List.mem_reverse.mp hn)

end Frame

namespace Scan

/-- All items that the reader holds are legible. -/
structure Legible (s : Scan) : Prop where
  inner : s.inner.Legible
  outer : ∀ f ∈ s.outer, f.Legible

variable {s s' : Scan}

lemma Legible.endNumber (hs : s.Legible) (h : s.endNumber = .ok s') : s'.Legible := by
  rw [Scan.endNumber] at h
  split_ifs at h
  · cases h
    exact hs
  · obtain ⟨k, hk, heq⟩ := bind_eq_ok.mp h
    cases heq
    exact ⟨hs.inner.push (legible_of_readNumber hk), hs.outer⟩

/-- A character keeps the items legible. -/
lemma Legible.step (hs : s.Legible) {position : Nat} {c : Char} (h : s.step position c = .ok s') :
    s'.Legible := by
  rw [Scan.step] at h
  split_ifs at h
  · obtain ⟨s₁, hs₁, heq⟩ := bind_eq_ok.mp h
    cases heq
    have hend := hs.endNumber hs₁
    refine ⟨fun n hn => absurd hn List.not_mem_nil, fun f hf => ?_⟩
    rcases List.mem_cons.mp hf with rfl | hf
    · exact hend.inner
    · exact hend.outer f hf
  · cases houter : s.outer with
    | nil =>
        rw [houter] at h
        cases h
    | cons around outer =>
        rw [houter] at h
        obtain ⟨s₁, hs₁, heq⟩ := bind_eq_ok.mp h
        cases heq
        have hend := hs.endNumber hs₁
        refine ⟨(hs.outer around (by simp [houter])).push hend.inner.close, fun f hf => ?_⟩
        exact hs.outer f (by simp [houter, hf])
  · exact hs.endNumber h
  · cases h
    exact hs
  · cases h
    exact ⟨hs.inner, hs.outer⟩

/-- A text keeps the items legible. -/
lemma Legible.run : ∀ {cs : List Char} {s s' : Scan} {position : Nat}, s.Legible →
    s.run position cs = .ok s' → s'.Legible
  | [], s, s', _, hs, h => by
      cases h
      exact hs
  | c :: cs, s, s', position, hs, h => by
      obtain ⟨s₁, hs₁, hrest⟩ := bind_eq_ok.mp h
      exact (hs.step hs₁).run hrest

end Scan

/-- A noun that was read is natural and can be written. -/
lemma legible_of_parseChars {cs : List Char} {n : Noun} (h : parseChars cs = .ok n) :
    n.Legible := by
  obtain ⟨s, hs, hfinish⟩ := bind_eq_ok.mp h
  have hempty : Scan.Legible {} :=
    ⟨fun n hn => absurd hn List.not_mem_nil, fun f hf => absurd hf List.not_mem_nil⟩
  have hlegible := hempty.run hs
  rw [Scan.finish] at hfinish
  split_ifs at hfinish
  obtain ⟨s', hs', heq⟩ := bind_eq_ok.mp hfinish
  cases heq
  exact (hlegible.endNumber hs').inner.close

end Noun

end Nock
