import Nock.Proofs.Cue
import Nock.Proofs.Jam
import Nock.Proofs.Store.Streams

/-!
# Serialised nouns know where they end

The bits of a noun are the same wherever they are written: the positions that references go to are
counted from the start of the noun, not of the bit string.  They are read back whatever follows
them, and reading stops exactly behind them (`Noun.cueCount_jamBits`).  So the bits of one noun are
never the beginning of the bits of another (`Noun.eq_of_jamBits_prefix`), and nouns that are written
one after the other are read one after the other (`Noun.cueEach_jamBits`).
-/

namespace Nock

open StoreM hiding look same copy
open Store

/-! ## One noun -/

/-- Reading the bits of a noun takes these bits, whatever follows them. -/
lemma Noun.cueCount_jamBits {n : Noun} (hn : n.Natural) (rest : List Bool) :
    Noun.cueCount (n.jamBits ++ rest) = .ok (n, n.jamBits.length) := by
  obtain ⟨known, hread, -⟩ := Jam.readsBack_encode ((n.jamBits ++ rest).length + 1) rest
    (Prod.eta (Jam.encode 0 [] n)).symm hn (Jam.Ready.empty n.height) (le_refl _)
    (by simp [Noun.jamBits, Noun.jamTokens]; omega)
  change (Cue.part _ ⟨n.jamBits ++ rest, 0⟩ [] : Except Fault _) =
    .ok (n, ⟨rest, 0 + n.jamBits.length⟩, known) at hread
  simp only [Nock.cueCount, hread, ok_bind, pure_eq_ok, Nat.zero_add]

/-- If the bits of a noun are cut off, they run out. -/
lemma Noun.cueCount_cut {n : Noun} (hn : n.Natural) {part : List Bool} (hpart : part <+: n.jamBits)
    (hne : part ≠ n.jamBits) : Noun.cueCount part = .error .outOfBits := by
  have hread := Noun.cueCount_jamBits hn []
  rw [List.append_nil] at hread
  obtain ⟨-, -, hcut⟩ := Noun.cueCount_local hread
  rw [List.take_length] at hcut
  exact hcut part hpart hne

/-- The bits of a noun are not the beginning of the bits of another noun. -/
lemma Noun.eq_of_jamBits_prefix {m n : Noun} (hm : m.Natural) (hn : n.Natural)
    (h : m.jamBits <+: n.jamBits) : m = n := by
  obtain ⟨rest, hrest⟩ := h
  have hread := Noun.cueBits_jamBits hm rest
  have hread' := Noun.cueBits_jamBits hn []
  rw [List.append_nil, ← hrest, hread] at hread'
  exact Except.ok.inj hread'

/-! ## One noun after the other -/

/-- Read so many nouns, each from where the one before it ends. -/
def Noun.cueEach : (count : Nat) → List Bool → Except Fault (List Noun × List Bool)
  | 0, bits => .ok ([], bits)
  | count + 1, bits => do
      let (n, k) ← Noun.cueCount bits
      let (ns, rest) ← cueEach count (bits.drop k)
      pure (n :: ns, rest)

lemma Noun.cueEach_jamBits : ∀ {ns : List Noun}, (∀ n ∈ ns, n.Natural) → ∀ rest,
    Noun.cueEach ns.length (ns.flatMap Noun.jamBits ++ rest) = .ok (ns, rest)
  | [], _, rest => rfl
  | n :: ns, hns, rest => by
      obtain ⟨hn, hns⟩ := List.forall_mem_cons.mp hns
      rw [List.flatMap_cons, List.append_assoc, List.length_cons, cueEach, cueCount_jamBits hn]
      simp only [ok_bind, List.drop_left, cueEach_jamBits hns rest, pure_eq_ok]

/-- Append the bits of held nouns to a bit string, one after the other. -/
def StoreM.jamEach (i : StreamId) : List Datum → StoreM Unit
  | [] => pure ()
  | d :: ds => do
      jamOnto d i
      jamEach i ds

lemma jamEach_exec {ν : Reading} {i : StreamId} : ∀ {ds : List Datum} {ns : List Noun} {s : Store},
    s.Fits ν → List.Forall₂ (s.Denotes ν) ds ns → (∀ n ∈ ns, n.Natural) → i < s.streams.size →
      ∃ s', exec (StoreM.jamEach i ds) s = (.ok (), s') ∧
        s'.bitsOf i = s.bitsOf i ++ ns.flatMap Noun.jamBits
  | [], [], s, _, .nil, _, _ => ⟨s, rfl, by simp⟩
  | d :: ds, n :: ns, s, hs, .cons hd hds, hns, hi => by
      obtain ⟨hn, hns⟩ := List.forall_mem_cons.mp hns
      obtain ⟨s₁, hexec, hbits, -, hs₁, hsize, hstreams⟩ := jamOnto_exec_fits hs hd hn hi
      have hds₁ : List.Forall₂ (s₁.Denotes ν) ds ns :=
        hds.imp fun _ _ h => h.later (Extends.of_size hsize)
      obtain ⟨s₂, hexec₂, hbits₂⟩ := jamEach_exec hs₁ hds₁ hns (by rw [hstreams]; exact hi)
      refine ⟨s₂, ?_, ?_⟩
      · rw [StoreM.jamEach, exec_bind_ok hexec, hexec₂]
      · rw [hbits₂, hbits, List.flatMap_cons, List.append_assoc]

/-! ## The code -/

/-- **Serialised nouns know where they end.**  The bits of a noun are appended to whatever is there,
are read back whatever follows, by a reader that takes exactly these bits, and run out if they are
cut off.  No noun's bits are the beginning of another's, and nouns that are written one after the
other are read one after the other. -/
theorem jamBits_self_delimiting :
    (∀ n : Noun, n.Natural →
      (∀ s : Store, s.Sound → ∀ d i, s.noun? d = some n → i < s.streams.size →
        ∃ s', exec (jamOnto d i) s = (.ok (), s') ∧ s'.bitsOf i = s.bitsOf i ++ n.jamBits) ∧
      (∀ rest, Noun.cueBits (n.jamBits ++ rest) = .ok n ∧
        Noun.cueCount (n.jamBits ++ rest) = .ok (n, n.jamBits.length) ∧
        ∀ s : Store, s.Sound → Realizes s (cueCount (n.jamBits ++ rest))
          (.ok (n, n.jamBits.length)) HoldsCounted) ∧
      ∀ part, part <+: n.jamBits → part ≠ n.jamBits →
        Noun.cueBits part = .error .outOfBits ∧
        ∀ s : Store, s.Sound → Realizes s (cueCount part) (.error .outOfBits) HoldsCounted) ∧
    (∀ bits, (cueBits bits : StoreM Datum) = Prod.fst <$> cueCount bits) ∧
    (∀ m n : Noun, m.Natural → n.Natural → m.jamBits <+: n.jamBits → m = n) ∧
    ∀ ns : List Noun, (∀ n ∈ ns, n.Natural) →
      (∀ s : Store, s.Sound → ∀ ds i, List.Forall₂ (fun d n => s.noun? d = some n) ds ns →
        i < s.streams.size → ∃ s', exec (StoreM.jamEach i ds) s = (.ok (), s') ∧
          s'.bitsOf i = s.bitsOf i ++ ns.flatMap Noun.jamBits) ∧
      ∀ rest, Noun.cueEach ns.length (ns.flatMap Noun.jamBits ++ rest) = .ok (ns, rest) := by
  refine ⟨fun n hn => ⟨?_, fun rest => ?_, fun part hpart hne => ?_⟩, cueBits_eq_fst,
    fun m n hm hn => Noun.eq_of_jamBits_prefix hm hn, fun ns hns => ⟨?_, Noun.cueEach_jamBits hns⟩⟩
  · intro s hs d i hd hi
    obtain ⟨s', hexec, hbits, -⟩ := jamOnto_exec hs.fits (hs.fits.noun?_iff.mp hd) hn hi
    exact ⟨s', hexec, hbits⟩
  · have hread := Noun.cueCount_jamBits hn rest
    exact ⟨Noun.cueBits_jamBits hn rest, hread, fun s hs => hread ▸ cueCount_realizes hs _⟩
  · have hcut := Noun.cueCount_cut hn hpart hne
    have hfst : Noun.cueBits part = Prod.fst <$> Noun.cueCount part := cueBits_eq_fst part
    rw [hcut] at hfst
    exact ⟨hfst, fun s hs => hcut ▸ cueCount_realizes hs _⟩
  · intro s hs ds i hds hi
    have hdenotes := hds.imp fun _ _ => hs.fits.noun?_iff.mp
    exact jamEach_exec hs.fits hdenotes hns hi

/-- The noun `[[7 7] 7 7]`. -/
def sevens : Noun :=
  .cell (.cell (.atom 7) (.atom 7)) (.cell (.atom 7) (.atom 7))

/-- A store that holds `sevens` as cell 1, with its parts shared, and a bit string. -/
def sevenStore : Store :=
  ⟨#[⟨.atom 7, .atom 7, 0, 1⟩, ⟨.cell 0, .cell 0, 0, 2⟩], #[[true, false, true]]⟩

theorem jamBits_self_delimiting_sevens :
    (sevenStore.Sound ∧ sevenStore.noun? (.cell 1) = some sevens ∧ sevens.Natural ∧
      sevens.jamBits.length = 29) ∧
    (∃ s', exec (jamOnto (.cell 1) 0) sevenStore = (.ok (), s') ∧
      s'.bitsOf 0 = [true, false, true] ++ sevens.jamBits) ∧
    Noun.cueCount (sevens.jamBits ++ [false, false]) = .ok (sevens, sevens.jamBits.length) ∧
    Noun.cueBits (sevens.jamBits.take 28) = .error .outOfBits ∧
    ¬(Noun.atom 7).jamBits <+: sevens.jamBits ∧
    (∃ s', exec (StoreM.jamEach 0 [.cell 1, .atom 7, .cell 1]) sevenStore = (.ok (), s') ∧
      s'.bitsOf 0 =
        [true, false, true] ++ [sevens, .atom 7, sevens].flatMap Noun.jamBits) ∧
    Noun.cueEach 3 ([sevens, .atom 7, sevens].flatMap Noun.jamBits ++ [true]) =
      .ok ([sevens, .atom 7, sevens], [true]) := by
  have hstore : sevenStore.Sound := by decide +kernel
  have hnatural : sevens.Natural := by decide
  have hlength : sevens.jamBits.length = 29 := by decide +kernel
  have hns : ∀ n ∈ [sevens, .atom 7, sevens], n.Natural := by decide
  obtain ⟨hone, -, hfree, heach⟩ := jamBits_self_delimiting
  obtain ⟨hwrite, hread, hcut⟩ := hone sevens hnatural
  obtain ⟨hwrites, hreads⟩ := heach _ hns
  refine ⟨⟨hstore, rfl, hnatural, hlength⟩, hwrite _ hstore _ 0 rfl (by decide), (hread _).2.1,
    (hcut _ (List.take_prefix _ _) ?_).1, fun h => ?_, hwrites _ hstore _ 0 ?_ (by decide), hreads _⟩
  · intro h
    have := congrArg List.length h
    rw [List.length_take, hlength] at this
    omega
  · have := hfree _ _ (by decide) hnatural h
    cases this
  · exact .cons rfl (.cons rfl (.cons rfl .nil))

end Nock
