import Nock.Proofs.Sharing

/-!
# What a repeated atom costs

An atom that was written before is written again in full, or as a reference to the position where it
first began.  Which of the two is decided by counting binary digits: in full if the atom has fewer
than the position.  The bits that are written count differently: a reference has one bit more in
front of its code than an atom, and a code is longer than the number in it.

The length of a code depends on the number of digits alone and grows with it (`length_mat`,
`codeLength_lt`).  So with **fewer** digits than the position the atom in full is shorter, and with
**more** digits the reference is not longer, since a single digit makes up for the bit in front.
With **equally many** digits there is nothing to make up for it: the reference is written, and it is
one bit longer than the atom would have been (`repeatedAtom_cases`).
-/

namespace Nock

open StoreM Store

/-! ## The length of a code -/

lemma bitLength_mono {m n : Nat} (h : m ≤ n) : bitLength m ≤ bitLength n := by
  by_cases hm : m = 0
  · simp [hm]
  by_contra hlt
  have hlow := two_pow_le_of_ne_zero hm
  have hhigh := lt_two_pow_bitLength n
  have hpow : 2 ^ bitLength n ≤ 2 ^ (bitLength m - 1) := Nat.pow_le_pow_right (by decide) (by omega)
  omega

namespace Bits

/-- The length of the code of a number with so many binary digits. -/
def codeLength (digits : Nat) : Nat :=
  if digits = 0 then 1 else 2 * bitLength digits + digits

lemma length_mat (n : Int) : (mat n).length = codeLength (bitLength n) := by
  by_cases hn : n = 0
  · subst hn
    rfl
  · have hdigits : bitLength n ≠ 0 := by simp [bitLength, hn]
    have hpos := bitLength_pos hdigits
    rw [mat, if_neg hn, codeLength, if_neg hdigits]
    simp only [List.length_append, List.length_replicate, List.length_singleton, low_length]
    omega

/-- More digits make a longer code. -/
lemma codeLength_lt {a b : Nat} (h : a < b) : codeLength a < codeLength b := by
  have hmono := bitLength_mono h.le
  have hpos := bitLength_pos (by omega : b ≠ 0)
  unfold codeLength
  split_ifs <;> omega

end Bits

namespace Jam

variable {n : Noun} {e : Place} {k : Int} {p : Nat}

lemma Token.length_bits_atom (k : Int) :
    (Token.atom k).bits.length = Bits.codeLength (bitLength k) + 1 := by
  rw [Token.bits, List.length_cons, Bits.length_mat]

lemma Token.length_bits_reference (p : Nat) :
    (Token.reference p).bits.length = Bits.codeLength (bitLength p) + 2 := by
  rw [Token.bits, List.length_cons, List.length_cons, Bits.length_mat]

/-- A repeated atom is in full and shorter so, or a reference and not longer so, or a reference that
is one bit longer. -/
lemma repeatedAtom_cases (k : Int) (p : Nat) :
    (bitLength k < bitLength p ∧ repeatedAtom k p = .atom k ∧
      (Token.atom k).bits.length < (Token.reference p).bits.length) ∨
    (bitLength p < bitLength k ∧ repeatedAtom k p = .reference p ∧
      (Token.reference p).bits.length ≤ (Token.atom k).bits.length) ∨
    (bitLength k = bitLength p ∧ repeatedAtom k p = .reference p ∧
      (Token.reference p).bits.length = (Token.atom k).bits.length + 1) := by
  rw [Token.length_bits_atom, Token.length_bits_reference]
  rcases Nat.lt_trichotomy (bitLength k) (bitLength p) with hlt | heq | hlt
  · have hcode := Bits.codeLength_lt hlt
    exact Or.inl ⟨hlt, if_pos hlt, by omega⟩
  · exact Or.inr (Or.inr ⟨heq, if_neg (by omega), by rw [heq]⟩)
  · have hcode := Bits.codeLength_lt hlt
    exact Or.inr (Or.inl ⟨hlt, if_neg (by omega), by omega⟩)

/-! ## Repeated atoms of a noun -/

/-- At the place `e` stands the atom `k` again, which first began at the position `p`. -/
structure Repeats (n : Noun) (e : Place) (k : Int) (p : Nat) : Prop where
  mem : e ∈ n.places
  walk : n.walk e.path = some (.atom k)
  first : ∃ f ∈ n.places, n.FirstAt (.atom k) f.path ∧ f.path < e.path ∧ f.position = p

/-- No repeated atom is longer than it would be in the other form. -/
def Thrifty (n : Noun) : Prop :=
  ∀ e k p, Repeats n e k p → e.token.bits.length ≤ (Token.atom k).bits.length ∧
    e.token.bits.length ≤ (Token.reference p).bits.length

/-- A place of an atom that occurs earlier repeats it. -/
lemma exists_repeats {other : Path} (he : e ∈ n.places) (hwalk : n.walk e.path = some (.atom k))
    (hlt : other < e.path) (hother : n.walk other = some (.atom k)) : ∃ p, Repeats n e k p := by
  obtain ⟨f, hf, hfirst, -⟩ := Noun.exists_first_place hother
  exact ⟨f.position, he, hwalk, f, hf, hfirst, (hfirst.2 hother).trans_lt hlt, rfl⟩

namespace Repeats

/-- A repeated atom is written as its digits and those of the position say. -/
lemma token_eq (h : Repeats n e k p) : e.token = repeatedAtom k p := by
  obtain ⟨f, hf, hfirst, hlt, rfl⟩ := h.first
  rcases Noun.place_cases h.mem h.walk with ⟨hfirst', -⟩ | ⟨f', hf', hfirst', -, -, htoken⟩
  · exact absurd (hfirst.unique hfirst') hlt.ne
  · rw [htoken, Noun.place_ext hf' hf (hfirst'.unique hfirst)]
    rfl

/-- It is no longer than in the other form exactly if the digits differ. -/
lemma thrifty_iff (h : Repeats n e k p) :
    (e.token.bits.length ≤ (Token.atom k).bits.length ∧
      e.token.bits.length ≤ (Token.reference p).bits.length) ↔ bitLength k ≠ bitLength p := by
  rw [h.token_eq]
  rcases repeatedAtom_cases k p with ⟨hlt, htoken, hlength⟩ | ⟨hlt, htoken, hlength⟩ |
    ⟨heq, htoken, hlength⟩
  · rw [htoken]
    exact ⟨fun _ => hlt.ne, fun _ => ⟨le_refl _, hlength.le⟩⟩
  · rw [htoken]
    exact ⟨fun _ => hlt.ne', fun _ => ⟨hlength, le_refl _⟩⟩
  · rw [htoken]
    constructor
    · rintro ⟨hle, -⟩
      omega
    · exact fun hne => absurd heq hne

end Repeats

end Jam

/-- **The cost of repeated atoms.**  Serialising a held noun of natural atoms appends the bits of its
places.  An atom that occurs earlier is written in full or as a reference to its first position.  The
form is no longer than the other one would be exactly if the atom and the position differ in their
numbers of binary digits.  If these are equal, a reference is written that is one bit longer than the
atom in full.  So no bit is wasted exactly on the nouns in which this never happens. -/
theorem jam_repeats_cost {s : Store} {d : Datum} {n : Noun} {i : StreamId} (hs : s.Sound)
    (hd : s.noun? d = some n) (hn : n.Natural) (hi : i < s.streams.size) :
    (∃ s', exec (jamOnto d i) s = (.ok (), s') ∧
      s'.bitsOf i = s.bitsOf i ++ Jam.bits (n.places.map (·.token))) ∧
    (∀ e ∈ n.places, e.token.bits <+: (Jam.bits (n.places.map (·.token))).drop e.position) ∧
    (∀ e ∈ n.places, ∀ k, ∀ other < e.path, n.walk e.path = some (.atom k) →
      n.walk other = some (.atom k) → ∃ p, Jam.Repeats n e k p) ∧
    (∀ e k p, Jam.Repeats n e k p →
      (e.token = .atom k ∨ e.token = .reference p) ∧
      ((e.token.bits.length ≤ (Jam.Token.atom k).bits.length ∧
        e.token.bits.length ≤ (Jam.Token.reference p).bits.length) ↔ bitLength k ≠ bitLength p) ∧
      (bitLength k = bitLength p → e.token = .reference p ∧
        e.token.bits.length = (Jam.Token.atom k).bits.length + 1)) ∧
    (Jam.Thrifty n ↔ ∀ e k p, Jam.Repeats n e k p → bitLength k ≠ bitLength p) := by
  obtain ⟨s', hexec, hbits, -⟩ := jamOnto_exec hs.fits (hs.fits.noun?_iff.mp hd) hn hi
  refine ⟨⟨s', hexec, ?_⟩, n.cellsOnce.positioned, fun e he k other hlt hwalk hother => ?_,
    fun e k p h => ⟨?_, h.thrifty_iff, fun heq => ?_⟩, ?_⟩
  · rw [hbits, n.places_map_token]
    rfl
  · exact Jam.exists_repeats he hwalk hlt hother
  · rw [h.token_eq, Jam.repeatedAtom]
    split_ifs
    · exact Or.inl rfl
    · exact Or.inr rfl
  · rw [h.token_eq]
    rcases Jam.repeatedAtom_cases k p with ⟨hlt, -⟩ | ⟨hlt, -⟩ | ⟨-, htoken, hlength⟩
    · exact absurd heq hlt.ne
    · exact absurd heq hlt.ne'
    · exact ⟨htoken, by rw [htoken, hlength]⟩
  · exact forall₃_congr fun e k p => forall_congr' fun h => h.thrifty_iff

/-- The noun `[1000 1000]`. -/
def longPair : Noun :=
  .cell (.atom 1000) (.atom 1000)

/-- A store that holds `longPair` as cell 0, and an empty bit string. -/
def longPairStore : Store :=
  ⟨#[⟨.atom 1000, .atom 1000, 0, 1⟩], #[[]]⟩

/-- The second 1000 is a reference to position 2, which has fewer digits. -/
theorem jam_repeats_cost_long :
    (longPairStore.Sound ∧ longPairStore.noun? (.cell 0) = some longPair ∧ longPair.Natural ∧
      0 < longPairStore.streams.size) ∧
    (∃ s', exec (jamOnto (.cell 0) 0) longPairStore = (.ok (), s') ∧
      s'.bitsOf 0 = Jam.bits [.cell, .atom 1000, .reference 2]) ∧
    Jam.Repeats longPair ⟨[true], 21, .reference 2⟩ 1000 2 ∧
    (Jam.Token.reference 2).bits.length ≤ (Jam.Token.atom 1000).bits.length := by
  have hsound : longPairStore.Sound := by decide +kernel
  have hnoun : longPairStore.noun? (.cell 0) = some longPair := rfl
  have hnatural : longPair.Natural := by decide
  have hstream : 0 < longPairStore.streams.size := by decide
  have hplaces : longPair.places
      = [⟨[], 0, .cell⟩, ⟨[false], 2, .atom 1000⟩, ⟨[true], 21, .reference 2⟩] := by decide +kernel
  obtain ⟨⟨s', hexec, hbits⟩, -, hearlier, hcost, -⟩ :=
    jam_repeats_cost hsound hnoun hnatural hstream
  have hmem : (⟨[true], 21, .reference 2⟩ : Jam.Place) ∈ longPair.places := by
    rw [hplaces]
    decide
  obtain ⟨p, hrepeats⟩ := hearlier _ hmem 1000 [false] (by decide) rfl rfl
  obtain ⟨htoken, hthrifty, -⟩ := hcost _ _ _ hrepeats
  obtain rfl : 2 = p := by simpa using htoken
  rw [hplaces] at hbits
  refine ⟨⟨hsound, hnoun, hnatural, hstream⟩, ⟨s', hexec, hbits⟩, hrepeats, ?_⟩
  exact (hthrifty.mpr (by decide +kernel)).1

/-- The noun `[2 2]`. -/
def shortPair : Noun :=
  .cell (.atom 2) (.atom 2)

/-- The second 2 is a reference to position 2, of eight bits, though in full it has seven. -/
theorem shortPair_not_thrifty :
    shortPair.Natural ∧ shortPair.jamTokens = [.cell, .atom 2, .reference 2] ∧
      ¬Jam.Thrifty shortPair := by
  have hplaces : shortPair.places
      = [⟨[], 0, .cell⟩, ⟨[false], 2, .atom 2⟩, ⟨[true], 9, .reference 2⟩] := by decide +kernel
  refine ⟨by decide, by decide +kernel, fun hthrifty => ?_⟩
  have hmem : (⟨[true], 9, .reference 2⟩ : Jam.Place) ∈ shortPair.places := by
    rw [hplaces]
    decide
  have hearlier : shortPair.walk [false] = some (.atom 2) := rfl
  obtain ⟨p, hrepeats⟩ := Jam.exists_repeats hmem rfl (by decide) hearlier
  have hlong : ¬(Jam.Token.reference 2).bits.length ≤ (Jam.Token.atom 2).bits.length := by
    decide +kernel
  exact hlong (hthrifty _ _ _ hrepeats).1

end Nock
