import Nock.Cue
import Nock.Proofs.Bits
import Nock.Proofs.Mug

/-!
# Reading undoes serialising

Writer and reader keep tables of their own.  The writer's, by noun, gets an entry when a noun
**begins**; the reader's, by position, when it is **complete**.  They are kept in step by heights.  A
noun that is being written is higher than every part of it, so an entry of the writer that the reader
does not have yet belongs to a noun higher than the one at hand, and will not be referred to.

`Ready seen known start limit` says this at one moment: every position in the writer's table lies
before `start`, and the reader knows the nouns up to the height `limit` among its entries.
`readsBack_encode` then goes down the noun, and quantifies over what follows in the bit string.

The root's position 0 counts as not found, but the root is higher than all of its parts.
-/

namespace Nock

namespace Jam

variable {seen seen' : Positions} {tokens : List Token} {a n : Noun} {p start : Nat}

@[simp] lemma bits_nil : bits [] = [] := rfl

@[simp] lemma bits_cons (t : Token) (ts : List Token) : bits (t :: ts) = t.bits ++ bits ts := rfl

@[simp] lemma bits_append (ts us : List Token) : bits (ts ++ us) = bits ts ++ bits us :=
  List.flatMap_append

/-! ## The writer's table -/

lemma find?_cons_of_ne (h : a ≠ n) : Positions.find? ((n, p) :: seen) a = seen.find? a := by
  have hne : (a == n) = false := by simpa using h
  simp [Positions.find?, List.lookup_cons, hne]

lemma find?_cons_self (n : Noun) (p : Nat) (seen : Positions) :
    Positions.find? ((n, p) :: seen) n = if p = 0 then none else some p := by
  by_cases hp : p = 0 <;> simp [Positions.find?, hp]

/-- What is found behind a new entry was found before, or is the new entry. -/
lemma find?_cons_eq_some (h : Positions.find? ((n, start) :: seen) a = some p) :
    seen.find? a = some p ∨ (a = n ∧ p = start) := by
  by_cases han : a = n
  · subst han
    rw [find?_cons_self] at h
    split_ifs at h
    exact Or.inr ⟨rfl, (Option.some.inj h).symm⟩
  · rw [find?_cons_of_ne han] at h
    exact Or.inl h

lemma lookup_cons_eq_some (h : List.lookup a ((n, start) :: seen) = some p) :
    seen.lookup a = some p ∨ start ≤ p := by
  by_cases han : a = n
  · subst han
    rw [List.lookup_cons_self] at h
    exact Or.inr (Option.some.inj h).le
  · rw [List.lookup_cons, beq_false_of_ne han] at h
    exact Or.inl h

/-! ## What writing a noun does to the table -/

lemma encode_atom {k : Int} (hn : seen.find? (.atom k) = none) :
    encode start seen (.atom k) = ([.atom k], (.atom k, start) :: seen) := by
  simp only [encode, hn]

lemma encode_atom_found {k : Int} (hn : seen.find? (.atom k) = some p) :
    encode start seen (.atom k) = ([repeatedAtom k p], seen) := by
  simp only [encode, hn]

lemma encode_cell_found {h t : Noun} (hn : seen.find? (.cell h t) = some p) :
    encode start seen (.cell h t) = ([.reference p], seen) := by
  simp only [encode, hn]

/-- What the encoding of a cell in full is made of. -/
lemma encode_cell {h t : Noun} (hn : seen.find? (.cell h t) = none)
    (he : encode start seen (.cell h t) = (tokens, seen')) :
    ∃ first middle second, encode (start + 2) ((.cell h t, start) :: seen) h = (first, middle) ∧
      encode (start + 2 + (bits first).length) middle t = (second, seen') ∧
      tokens = .cell :: (first ++ second) := by
  simp only [encode, hn] at he
  cases he
  exact ⟨_, _, _, rfl, rfl, rfl⟩

lemma bits_length_pos : ∀ {n : Noun}, encode start seen n = (tokens, seen') →
    0 < (bits tokens).length
  | .atom k, he => by
      cases hn : seen.find? (.atom k) with
      | none =>
          cases (encode_atom hn).symm.trans he
          simp [Token.bits]
      | some p =>
          cases (encode_atom_found hn).symm.trans he
          rw [repeatedAtom]
          split_ifs <;> simp [Token.bits]
  | .cell h t, he => by
      cases hn : seen.find? (.cell h t) with
      | none =>
          obtain ⟨first, middle, second, -, -, rfl⟩ := encode_cell hn he
          simp [Token.bits]
      | some p =>
          cases (encode_cell_found hn).symm.trans he
          simp [Token.bits]

/-- What is found afterwards was found before, is the noun itself, or began within the noun and is
lower. -/
lemma find?_of_encode : ∀ {n : Noun} {start : Nat} {seen seen' : Positions} {tokens : List Token},
    encode start seen n = (tokens, seen') → seen'.find? a = some p →
    seen.find? a = some p ∨ (a = n ∧ p = start) ∨
      (start < p ∧ p < start + (bits tokens).length ∧ a.height < n.height)
  | .atom k, start, seen, seen', tokens, he, h => by
      cases hn : seen.find? (.atom k) with
      | none =>
          cases (encode_atom hn).symm.trans he
          exact (find?_cons_eq_some h).imp_right Or.inl
      | some q =>
          cases (encode_atom_found hn).symm.trans he
          exact Or.inl h
  | .cell hd tl, start, seen, seen', tokens, he, h => by
      cases hn : seen.find? (.cell hd tl) with
      | some q =>
          cases (encode_cell_found hn).symm.trans he
          exact Or.inl h
      | none =>
          obtain ⟨first, middle, second, hfirst, hsecond, rfl⟩ := encode_cell hn he
          have := bits_length_pos hfirst
          have := bits_length_pos hsecond
          simp only [bits_cons, bits_append, List.length_append, Token.bits, List.length_cons,
            List.length_nil, Noun.height]
          rcases find?_of_encode hsecond h with h | ⟨rfl, rfl⟩ | ⟨hlow, hhigh, hheight⟩
          · rcases find?_of_encode hfirst h with h | ⟨rfl, rfl⟩ | ⟨hlow, hhigh, hheight⟩
            · exact (find?_cons_eq_some h).imp_right Or.inl
            · exact Or.inr (Or.inr ⟨by omega, by omega, by omega⟩)
            · exact Or.inr (Or.inr ⟨by omega, by omega, by omega⟩)
          · exact Or.inr (Or.inr ⟨by omega, by omega, by omega⟩)
          · exact Or.inr (Or.inr ⟨by omega, by omega, by omega⟩)

/-- Whatever the table says afterwards it said before, or it began no earlier than the noun. -/
lemma lookup_of_encode : ∀ {n : Noun} {start : Nat} {seen seen' : Positions} {tokens : List Token},
    encode start seen n = (tokens, seen') → seen'.lookup a = some p →
    seen.lookup a = some p ∨ start ≤ p
  | .atom k, start, seen, seen', tokens, he, h => by
      cases hn : seen.find? (.atom k) with
      | none =>
          cases (encode_atom hn).symm.trans he
          exact lookup_cons_eq_some h
      | some q =>
          cases (encode_atom_found hn).symm.trans he
          exact Or.inl h
  | .cell hd tl, start, seen, seen', tokens, he, h => by
      cases hn : seen.find? (.cell hd tl) with
      | some q =>
          cases (encode_cell_found hn).symm.trans he
          exact Or.inl h
      | none =>
          obtain ⟨first, middle, second, hfirst, hsecond, rfl⟩ := encode_cell hn he
          rcases lookup_of_encode hsecond h with h | hp
          · rcases lookup_of_encode hfirst h with h | hp
            · exact lookup_cons_eq_some h
            · exact Or.inr (by omega)
          · exact Or.inr (by omega)

/-! ## The reader follows the writer -/

/-- Writer and reader in step, at the position `start`: a noun of at most the height `limit` that
the writer would find began earlier, and the reader knows it by the same position. -/
structure Ready (seen : Positions) (known : Cue.Known Noun) (start limit : Nat) : Prop where
  before : ∀ a p, seen.find? a = some p → p < start
  lookup : ∀ a p, seen.find? a = some p → a.height ≤ limit → known.lookup p = some a

variable {known : Cue.Known Noun} {limit fuel stop : Nat} {rest : List Bool}

lemma Ready.empty (limit : Nat) : Ready [] [] 0 limit :=
  ⟨fun _ _ h => (nomatch h), fun _ _ h => (nomatch h)⟩

lemma lookup_complete (h : p ≠ start) (n : Noun) (known : Cue.Known Noun) :
    List.lookup p ((start, n) :: known) = known.lookup p := by
  have hne : (p == start) = false := by simpa using h
  rw [List.lookup_cons, hne]

/-- Completing a part that the writer has no new entry for. -/
lemma Ready.complete (hready : Ready seen known start limit) (n : Noun) (hstop : start < stop) :
    Ready seen ((start, n) :: known) stop limit := by
  refine ⟨fun a p hfind => ?_, fun a p hfind hheight => ?_⟩
  · exact lt_trans (hready.before a p hfind) hstop
  · rw [lookup_complete (Nat.ne_of_lt (hready.before a p hfind))]
    exact hready.lookup a p hfind hheight

lemma Ready.write (hready : Ready seen known start limit) (n : Noun) (hstop : start < stop) :
    Ready ((n, start) :: seen) ((start, n) :: known) stop limit := by
  have hcomplete := hready.complete n hstop
  refine ⟨fun a p hfind => ?_, fun a p hfind hheight => ?_⟩
  · rcases find?_cons_eq_some hfind with hfind | ⟨-, rfl⟩
    · exact hcomplete.before a p hfind
    · exact hstop
  · rcases find?_cons_eq_some hfind with hfind | ⟨rfl, rfl⟩
    · exact hcomplete.lookup a p hfind hheight
    · exact List.lookup_cons_self

/-- The parts of a cell are read when the cell is entered but not complete: it is too high. -/
lemma Ready.enter (hready : Ready seen known start limit) (below : Nat) (hbelow : below < n.height)
    (hlimit : n.height ≤ limit) : Ready ((n, start) :: seen) known (start + 2) below := by
  refine ⟨fun a p hfind => ?_, fun a p hfind hheight => ?_⟩
  · rcases find?_cons_eq_some hfind with hfind | ⟨-, rfl⟩
    · have := hready.before a p hfind
      omega
    · omega
  · rcases find?_cons_eq_some hfind with hfind | ⟨rfl, -⟩
    · exact hready.lookup a p hfind (by omega)
    · omega

/-- Completing a noun whose parts were read under a lower limit. -/
lemma Ready.leave (hready : Ready seen known start limit) {inner : Cue.Known Noun} {below : Nat}
    (he : encode start seen n = (tokens, seen')) (hinner : Ready seen' inner stop below)
    (hbelow : n.height ≤ below + 1) (hold : ∀ p < start, inner.lookup p = known.lookup p) :
    Ready seen' ((start, n) :: inner) stop limit := by
  refine ⟨hinner.before, fun a p hfind hheight => ?_⟩
  rcases find?_of_encode he hfind with hseen | ⟨rfl, rfl⟩ | ⟨hlow, -, hlower⟩
  · have hp := hready.before a p hseen
    rw [lookup_complete (Nat.ne_of_lt hp), hold p hp]
    exact hready.lookup a p hseen hheight
  · exact List.lookup_cons_self
  · rw [lookup_complete (Nat.ne_of_gt hlow)]
    exact hinner.lookup a p hfind (by omega)

/-! ## Reading a token -/

lemma part_atom (k : Nat) : Cue.part (m := Except Fault) (fuel + 1)
    ⟨(Token.atom k).bits ++ rest, start⟩ known =
      .ok (.atom k, ⟨rest, start + (Token.atom k).bits.length⟩, (start, .atom k) :: known) := by
  simp only [Cue.part, Token.bits, List.cons_append, ofExcept_eq_self, Bits.next_cons, ok_bind,
    Bool.false_eq_true, if_false, Bits.rub_mat, Memory.atom_plain, pure_eq_ok, List.length_cons]
  congr 4
  omega

lemma part_reference (hknown : known.lookup p = some n) : Cue.part (m := Except Fault) (fuel + 1)
    ⟨(Token.reference p).bits ++ rest, start⟩ known =
      .ok (n, ⟨rest, start + (Token.reference p).bits.length⟩, (start, n) :: known) := by
  simp only [Cue.part, Token.bits, List.cons_append, ofExcept_eq_self, Bits.next_cons, ok_bind,
    if_true, Bits.rub_mat, hknown, pure_eq_ok, List.length_cons]
  congr 4
  omega

lemma part_cell {h t : Noun} {tape tape' : Bits.Tape} {known₁ known₂ : Cue.Known Noun}
    (hhead : Cue.part (m := Except Fault) fuel ⟨rest, start + 2⟩ known = .ok (h, tape, known₁))
    (htail : Cue.part (m := Except Fault) fuel tape known₁ = .ok (t, tape', known₂)) :
    Cue.part (m := Except Fault) (fuel + 1) ⟨Token.cell.bits ++ rest, start⟩ known =
      .ok (.cell h t, tape', (start, .cell h t) :: known₂) := by
  simp only [Cue.part, Token.bits, List.cons_append, List.nil_append, ofExcept_eq_self,
    Bits.next_cons, ok_bind, if_true, Bool.false_eq_true, if_false, Nat.add_assoc, hhead, htail,
    Memory.cell_plain, pure_eq_ok]

/-! ## Reading a noun -/

/-- Reading the bits of the tokens, which are followed by `rest`, gives the noun, stops behind them,
and leaves both tables in step. -/
def ReadsBack (fuel start limit : Nat) (known : Cue.Known Noun) (tokens : List Token)
    (seen' : Positions) (n : Noun) (rest : List Bool) : Prop :=
  ∃ known', Cue.part (m := Except Fault) fuel ⟨bits tokens ++ rest, start⟩ known =
      .ok (n, ⟨rest, start + (bits tokens).length⟩, known') ∧
    (∀ p < start, known'.lookup p = known.lookup p) ∧
    Ready seen' known' (start + (bits tokens).length) limit

lemma ReadsBack.token {t : Token}
    (hread : Cue.part (m := Except Fault) fuel ⟨t.bits ++ rest, start⟩ known =
      .ok (n, ⟨rest, start + t.bits.length⟩, (start, n) :: known))
    (hready : Ready seen' ((start, n) :: known) (start + t.bits.length) limit) :
    ReadsBack fuel start limit known [t] seen' n rest := by
  have hbits : bits [t] = t.bits := by rw [bits_cons, bits_nil, List.append_nil]
  rw [ReadsBack, hbits]
  exact ⟨_, hread, fun p hp => lookup_complete (Nat.ne_of_lt hp) _ _, hready⟩

lemma Token.bits_length_pos (t : Token) (start : Nat) : start < start + t.bits.length := by
  cases t <;> simp [Token.bits]

/-- An atom is read back, in full or from where it began. -/
lemma readsBack_atom {k : Int} (he : encode start seen (.atom k) = (tokens, seen')) (hk : 0 ≤ k)
    (hready : Ready seen known start limit) :
    ReadsBack (fuel + 1) start limit known tokens seen' (.atom k) rest := by
  obtain ⟨k, rfl⟩ := Int.eq_ofNat_of_zero_le hk
  cases hfind : seen.find? (.atom k) with
  | none =>
      cases (encode_atom hfind).symm.trans he
      exact .token (part_atom k) (hready.write _ (Token.bits_length_pos _ _))
  | some p =>
      cases (encode_atom_found hfind).symm.trans he
      refine .token ?_ (hready.complete _ (Token.bits_length_pos _ _))
      rw [repeatedAtom]
      split_ifs
      · exact part_atom k
      · exact part_reference (hready.lookup _ _ hfind (Nat.zero_le _))

/-- A noun is read back wherever its bits stand. -/
lemma readsBack_encode : ∀ (fuel : Nat) {n : Noun} {start limit : Nat} {seen seen' : Positions}
    {known : Cue.Known Noun} {tokens : List Token} (rest : List Bool),
    encode start seen n = (tokens, seen') → n.Natural → Ready seen known start limit →
    n.height ≤ limit → (bits tokens).length ≤ fuel →
      ReadsBack fuel start limit known tokens seen' n rest
  | 0, n, start, limit, seen, seen', known, tokens, rest, he, hn, hready, hlimit, hfuel => by
      have := bits_length_pos he
      omega
  | fuel + 1, .atom k, start, limit, seen, seen', known, tokens, rest, he, hn, hready, _, _ =>
      readsBack_atom he hn hready
  | fuel + 1, .cell h t, start, limit, seen, seen', known, tokens, rest, he, hn, hready, hlimit,
    hfuel => by
      cases hfind : seen.find? (.cell h t) with
      | some p =>
          cases (encode_cell_found hfind).symm.trans he
          exact .token (part_reference (hready.lookup _ _ hfind hlimit))
            (hready.complete _ (Token.bits_length_pos _ _))
      | none =>
          obtain ⟨first, middle, second, hfirst, hsecond, rfl⟩ := encode_cell hfind he
          have hlength : (bits (.cell :: (first ++ second))).length =
              2 + (bits first).length + (bits second).length := by
            simp [Token.bits]
            omega
          -- Both parts are at most as high as the new limit, and the cell is higher than it.
          have hheight : (Noun.cell h t).height = max h.height t.height + 1 := rfl
          have henter := hready.enter (max h.height t.height) (by omega) hlimit
          obtain ⟨known₁, hread₁, hold₁, hready₁⟩ := readsBack_encode fuel
            (bits second ++ rest) hfirst hn.1 henter (by omega) (by omega)
          obtain ⟨known₂, hread₂, hold₂, hready₂⟩ := readsBack_encode fuel rest hsecond hn.2
            hready₁ (by omega) (by omega)
          have hold : ∀ p < start, known₂.lookup p = known.lookup p := fun p hp =>
            (hold₂ p (by omega)).trans (hold₁ p (by omega))
          have hend : start + 2 + (bits first).length + (bits second).length =
              start + (bits (.cell :: (first ++ second))).length := by omega
          rw [hend] at hread₂ hready₂
          refine ⟨_, ?_, fun p hp => ?_, hready.leave he hready₂ hheight.le hold⟩
          · rw [bits_cons, bits_append, List.append_assoc, List.append_assoc,
              part_cell hread₁ hread₂]
            simp only [bits_cons, bits_append]
          · rw [lookup_complete (Nat.ne_of_lt hp), hold p hp]

/-- The bits of a noun end in a one: the highest digit of a number. -/
lemma bits_getLast? : ∀ {n : Noun} {start : Nat} {seen seen' : Positions} {tokens : List Token},
    encode start seen n = (tokens, seen') → n.Natural → (bits tokens).getLast? = some true
  | .atom k, start, seen, seen', tokens, he, hn => by
      obtain ⟨k, rfl⟩ := Int.eq_ofNat_of_zero_le hn
      cases hfind : seen.find? (.atom k) with
      | none =>
          cases (encode_atom hfind).symm.trans he
          simp [Token.bits, List.getLast?_cons, Bits.mat_getLast?]
      | some p =>
          cases (encode_atom_found hfind).symm.trans he
          rw [repeatedAtom]
          split_ifs <;> simp [Token.bits, List.getLast?_cons, Bits.mat_getLast?]
  | .cell h t, start, seen, seen', tokens, he, hn => by
      cases hfind : seen.find? (.cell h t) with
      | some p =>
          cases (encode_cell_found hfind).symm.trans he
          simp [Token.bits, List.getLast?_cons, Bits.mat_getLast?]
      | none =>
          obtain ⟨first, middle, second, hfirst, hsecond, rfl⟩ := encode_cell hfind he
          rw [bits_cons, bits_append, List.getLast?_append, List.getLast?_append,
            bits_getLast? hsecond hn.2]
          rfl

end Jam

/-- Reading the bits of a noun gives the noun, whatever follows them. -/
lemma Noun.cueBits_jamBits {n : Noun} (hn : n.Natural) (rest : List Bool) :
    Noun.cueBits (n.jamBits ++ rest) = .ok n := by
  obtain ⟨known, hread, -⟩ := Jam.readsBack_encode ((n.jamBits ++ rest).length + 1) rest
    (Prod.eta (Jam.encode 0 [] n)).symm hn (Jam.Ready.empty n.height) (le_refl _)
    (by simp [Noun.jamBits, Noun.jamTokens]; omega)
  simp only [Nock.cueBits]
  rw [show n.jamBits = Jam.bits (Jam.encode 0 [] n).1 from rfl] at hread ⊢
  rw [hread]
  rfl

/-- Reading the number of a noun gives the noun. -/
lemma Noun.cue_jam {n : Noun} (hn : n.Natural) : Noun.cue n.jam = .ok n := by
  have hlast := Jam.bits_getLast? (Prod.eta (Jam.encode 0 [] n)).symm hn
  have hbits : Bits.ofNumber n.jam = n.jamBits := Bits.ofNumber_toNumber hlast
  have hread := Noun.cueBits_jamBits hn []
  rw [List.append_nil, ← hbits] at hread
  exact hread

end Nock
