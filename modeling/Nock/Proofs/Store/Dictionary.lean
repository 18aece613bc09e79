import Mathlib.Data.List.Forall2
import Nock.Proofs.Store.Streams

/-!
# Collisions do not matter

The serialiser keeps the numbers that it has written apart from the cells, and looks cells up by
mug.  Here the same is done with **one dictionary** for both, which compares what is asked for with
the entries of an equal hash and with no others, in the order in which they were made.  How nouns
are hashed is a parameter: any function of the noun will do, however many nouns it throws together,
a number and a cell among them.

The tokens do not depend on it.  An entry is passed over only if its noun is another one, because
equal nouns have equal hashes, and it is taken only if it is for the same cell or a comparison says
so (`Entry.isFor_answers`).  So looking up finds what a search by the nouns themselves finds
(`Dictionary.find_spec`), and serialising mirrors the encoding of the plain noun (`encodeIn_exec`),
where no hash occurs at all.
-/

namespace Nock

open StoreM Store

/-! ## Dictionaries -/

/-- A held noun, its hash, and the position at which it began. -/
structure Entry where
  key : Datum
  hash : Int
  position : Nat

/-- The nouns written so far, in the order in which they were entered. -/
abbrev Dictionary := List Entry

/-- Is the entry for the datum with the given hash?  Nothing is compared if the hashes differ. -/
def Entry.isFor (e : Entry) (d : Datum) (hash : Int) (s : Store) : Bool × Store :=
  if e.hash ≠ hash then (false, s)
  else if sameCell e.key d then (true, s)
  else s.unify e.key d

namespace Dictionary

/-- The position of the first entry for a datum. -/
def find (d : Datum) (hash : Int) : Dictionary → Store → Option Nat × Store
  | [], s => (none, s)
  | e :: rest, s =>
      match e.isFor d hash s with
      | (true, s) => (some e.position, s)
      | (false, s) => find d hash rest s

/-- Give the entry for a datum a position, or make a new one at the end. -/
def enter (d : Datum) (hash : Int) (position : Nat) : Dictionary → Store → Dictionary × Store
  | [], s => ([⟨d, hash, position⟩], s)
  | e :: rest, s =>
      match e.isFor d hash s with
      | (true, s) => ({ e with position } :: rest, s)
      | (false, s) =>
          let (rest, s) := enter d hash position rest s
          (e :: rest, s)

end Dictionary

section

variable (hash : Datum → StoreM Int)

/-- Look a datum up, and enter it with the position `start` if it was not written before or began at
position 0. -/
def consult (start : Nat) (dict : Dictionary) (d : Datum) : StoreM (Option Nat × Dictionary) := do
  let key ← hash d
  let found ← modifyGet (dict.find d key)
  match found.filter (· ≠ 0) with
  | some position => pure (some position, dict)
  | none =>
      let dict ← modifyGet (dict.enter d key start)
      pure (none, dict)

/-- The tokens of a number that begins at position `start`, and the dictionary after it. -/
def encodeNumberIn (start : Nat) (dict : Dictionary) (d : Datum) (n : Int) :
    StoreM (List Jam.Token × Dictionary) := do
  match ← consult hash start dict d with
  | (some position, dict) => pure ([Jam.repeatedAtom n position], dict)
  | (none, dict) => pure ([.atom n], dict)

/-- The tokens of a datum that begins at position `start`, and the dictionary after it, going down
at most `fuel` cells. -/
def encodeIn : (fuel start : Nat) → Dictionary → Datum → StoreM (List Jam.Token × Dictionary)
  | _, start, dict, .atom n => encodeNumberIn hash start dict (.atom n) n
  | _, start, dict, .flag b => encodeNumberIn hash start dict (.flag b) (flagNumber b)
  | fuel + 1, start, dict, .cell c => do
      match ← consult hash start dict (.cell c) with
      | (some position, dict) => pure ([.reference position], dict)
      | (none, dict) =>
          let (first, dict) ← encodeIn fuel (start + 2) dict (← currentParts c).1
          let next := start + 2 + (Jam.bits first).length
          let (second, dict) ← encodeIn fuel next dict (← currentParts c).2
          pure (.cell :: (first ++ second), dict)
  | _, _, _, _ => throw .wrongOperands

/-- The bits of a held noun, with one dictionary for numbers and cells. -/
def jamBitsIn (d : Datum) : StoreM (List Bool) := do
  let (tokens, _) ← encodeIn hash ((← get).heightOf d) 0 [] d
  return Jam.bits tokens

end

/-! ## Hashing -/

/-- The effect hashes nouns of natural atoms by a function of the noun, and keeps denotations. -/
def Hashes (hash : Datum → StoreM Int) (value : Noun → Int) : Prop :=
  ∀ {s : Store} {ν : Reading} {d : Datum} {n : Noun}, s.Fits ν → s.Denotes ν d n → n.Natural →
    ∃ s', exec (hash d) s = (.ok (value n), s') ∧ s'.Fits ν ∧ s'.cells.size = s.cells.size

/-- The hash of a noun: the residue of a number and the mug of a cell. -/
def Noun.hashValue : Noun → Int
  | .atom k => Mug.residue k
  | .cell h t => (Noun.cell h t).mug.toOption.getD 0

lemma hashes_hash : Hashes StoreM.hash Noun.hashValue := by
  intro s ν d n hs hd hn
  cases d with
  | atom k =>
      subst hd
      exact ⟨s, rfl, hs, rfl⟩
  | flag b =>
      subst hd
      exact ⟨s, rfl, hs, rfl⟩
  | cell c =>
      obtain ⟨s', hexec, hs', hsize⟩ := mug_exec hs hd
      obtain ⟨hc, rfl⟩ := hd
      obtain ⟨_, h, t, _, hν, _⟩ := hs.get hc
      obtain ⟨mug, hmug⟩ := hn.exists_mug
      refine ⟨s', ?_, hs', hsize⟩
      rw [hmug] at hexec
      rw [hν] at hmug ⊢
      rw [Noun.hashValue, hmug]
      exact hexec
  | _ => exact hd.elim

/-! ## Looking up -/

variable {s s' : Store} {ν : Reading} {value : Noun → Int} {d : Datum} {n : Noun}
  {dict : Dictionary} {items seen : Jam.Positions}

/-- The entry is for a noun with a position. -/
structure Entry.Records (s : Store) (ν : Reading) (value : Noun → Int) (e : Entry)
    (item : Noun × Nat) : Prop where
  denotes : s.Denotes ν e.key item.1
  hash : e.hash = value item.1
  position : e.position = item.2

lemma Entry.Records.later {e : Entry} {item : Noun × Nat} (h : e.Records s ν value item)
    (hsize : s'.cells.size = s.cells.size) : e.Records s' ν value item :=
  ⟨h.denotes.later (.of_size hsize), h.hash, h.position⟩

/-- One cell denotes one noun. -/
lemma Store.Denotes.eq_of_sameCell {e : Datum} {m : Noun} (he : s.Denotes ν e m)
    (hd : s.Denotes ν d n) (h : sameCell e d = true) : m = n := by
  cases e with
  | cell c =>
      cases d with
      | cell c' =>
          obtain rfl : c = c' := by simpa [sameCell] using h
          exact he.2.trans hd.2.symm
      | _ => simp [sameCell] at h
  | _ => simp [sameCell] at h

/-- An entry is taken for a datum exactly if it is for the noun of the datum. -/
lemma Entry.isFor_answers {e : Entry} {item : Noun × Nat} (hs : s.Fits ν)
    (he : e.Records s ν value item) (hd : s.Denotes ν d n) :
    Answers ν s (e.isFor d (value n) s) (item.1 = n) := by
  rw [Entry.isFor]
  split_ifs with hhash hsame
  · refine ⟨hs, rfl, ?_⟩
    have hne : item.1 ≠ n := by
      rintro rfl
      exact hhash he.hash
    simp [hne]
  · exact ⟨hs, rfl, by simp [he.denotes.eq_of_sameCell hd hsame]⟩
  · exact unify_answers hs he.denotes hd

/-- The entries are for the nouns with their positions, in the same order. -/
def Dictionary.Records (s : Store) (ν : Reading) (value : Noun → Int) (dict : Dictionary)
    (items : Jam.Positions) : Prop :=
  List.Forall₂ (Entry.Records s ν value) dict items

namespace Dictionary

lemma Records.later (h : dict.Records s ν value items) (hsize : s'.cells.size = s.cells.size) :
    dict.Records s' ν value items :=
  h.imp fun _ _ he => he.later hsize

/-- Looking a datum up finds the position of its noun. -/
lemma find_spec : ∀ {dict : Dictionary} {items : Jam.Positions} {s : Store},
    dict.Records s ν value items → s.Fits ν → s.Denotes ν d n →
    (dict.find d (value n) s).1 = items.lookup n ∧ (dict.find d (value n) s).2.Fits ν ∧
      (dict.find d (value n) s).2.cells.size = s.cells.size
  | [], [], s, .nil, hs, _ => ⟨rfl, hs, rfl⟩
  | e :: rest, (m, p) :: items, s, .cons he hrest, hs, hd => by
      have hanswer := Entry.isFor_answers hs he hd
      rcases hrun : e.isFor d (value n) s with ⟨answer, s₁⟩
      rw [hrun] at hanswer
      rw [find, hrun]
      cases answer with
      | true =>
          obtain rfl : m = n := hanswer.iff.mp rfl
          refine ⟨?_, hanswer.fits, hanswer.size⟩
          rw [List.lookup_cons_self, he.position]
      | false =>
          have hne : n ≠ m := fun heq => absurd (hanswer.iff.mpr heq.symm) Bool.false_ne_true
          obtain ⟨hfound, hfits, hsize⟩ := find_spec (Records.later hrest hanswer.size) hanswer.fits
            (hd.later (.of_size hanswer.size))
          refine ⟨?_, hfits, hsize.trans hanswer.size⟩
          rw [List.lookup_cons, beq_false_of_ne hne]
          exact hfound

/-- A datum whose noun has no entry gets one at the end. -/
lemma enter_spec (position : Nat) : ∀ {dict : Dictionary} {items : Jam.Positions} {s : Store},
    dict.Records s ν value items → s.Fits ν → s.Denotes ν d n → items.lookup n = none →
    ∃ s', dict.enter d (value n) position s = (dict ++ [⟨d, value n, position⟩], s') ∧
      s'.Fits ν ∧ s'.cells.size = s.cells.size
  | [], [], s, .nil, hs, _, _ => ⟨s, rfl, hs, rfl⟩
  | e :: rest, (m, p) :: items, s, .cons he hrest, hs, hd, hnew => by
      have hanswer := Entry.isFor_answers hs he hd
      rcases hrun : e.isFor d (value n) s with ⟨answer, s₁⟩
      rw [hrun] at hanswer
      rw [enter, hrun]
      cases answer with
      | true =>
          obtain rfl : m = n := hanswer.iff.mp rfl
          rw [List.lookup_cons_self] at hnew
          cases hnew
      | false =>
          have hne : n ≠ m := fun heq => absurd (hanswer.iff.mpr heq.symm) Bool.false_ne_true
          rw [List.lookup_cons, beq_false_of_ne hne] at hnew
          obtain ⟨s', henter, hfits, hsize⟩ := enter_spec position
            (Records.later hrest hanswer.size) hanswer.fits (hd.later (.of_size hanswer.size)) hnew
          refine ⟨s', ?_, hfits, hsize.trans hanswer.size⟩
          simp only [henter, List.cons_append]

/-- The dictionary says the same as the table of plain nouns. -/
def Mirrors (s : Store) (ν : Reading) (value : Noun → Int) (dict : Dictionary)
    (seen : Jam.Positions) : Prop :=
  ∃ items, dict.Records s ν value items ∧ ∀ m, items.lookup m = seen.lookup m

lemma Mirrors.later (h : dict.Mirrors s ν value seen) (hsize : s'.cells.size = s.cells.size) :
    dict.Mirrors s' ν value seen := by
  obtain ⟨items, hitems, hlookup⟩ := h
  exact ⟨items, hitems.later hsize, hlookup⟩

lemma Mirrors.enter (h : dict.Mirrors s ν value seen) (hd : s.Denotes ν d n)
    (hnew : seen.lookup n = none) (position : Nat) :
    Mirrors s ν value (dict ++ [⟨d, value n, position⟩]) ((n, position) :: seen) := by
  obtain ⟨items, hitems, hlookup⟩ := h
  refine ⟨items ++ [(n, position)], List.rel_append hitems (.cons ⟨hd, rfl, rfl⟩ .nil), fun m => ?_⟩
  rw [List.lookup_append, hlookup, List.lookup_cons, List.lookup_cons, List.lookup_nil]
  by_cases hm : m = n
  · rw [hm, hnew, beq_self_eq_true, Option.none_or]
  · rw [beq_false_of_ne hm, Option.or_none]

end Dictionary

/-! ## Serialising -/

section

variable {hash : Datum → StoreM Int}

lemma exec_currentParts {c : CellId} {cell : Cell} (h : s.cells[c]? = some cell) :
    exec (liftM (currentParts c) : StoreM (Datum × Datum)) s = (.ok (cell.head, cell.tail), s) := by
  rw [exec_lift, run_currentParts h]

lemma encodeIn_entered {fuel start : Nat} {c : CellId} {s₁ s₂ s₃ : Store}
    {dict₁ dict₂ dict₃ : Dictionary} {cell₁ cell₂ : Cell} {first second : List Jam.Token}
    (hconsult : exec (consult hash start dict (.cell c)) s = (.ok (none, dict₁), s₁))
    (hcell₁ : s₁.cells[c]? = some cell₁)
    (hhead : exec (encodeIn hash fuel (start + 2) dict₁ cell₁.head) s₁ = (.ok (first, dict₂), s₂))
    (hcell₂ : s₂.cells[c]? = some cell₂)
    (htail : exec (encodeIn hash fuel (start + 2 + (Jam.bits first).length) dict₂ cell₂.tail) s₂ =
      (.ok (second, dict₃), s₃)) :
    exec (encodeIn hash (fuel + 1) start dict (.cell c)) s =
      (.ok (.cell :: (first ++ second), dict₃), s₃) := by
  rw [encodeIn, exec_bind_ok hconsult]
  simp only
  rw [exec_bind_ok (exec_currentParts hcell₁), exec_bind_ok hhead]
  simp only
  rw [exec_bind_ok (exec_currentParts hcell₂), exec_bind_ok htail]
  rfl

variable (hhash : Hashes hash value)

include hhash

/-- Looking a datum up finds what the plain table has for its noun, or else enters the datum. -/
lemma consult_exec (hs : s.Fits ν) (hd : s.Denotes ν d n) (hn : n.Natural)
    (hm : dict.Mirrors s ν value seen) (hroot : RootAbove seen n.height) (start : Nat) :
    ∃ s', s'.Fits ν ∧ s'.cells.size = s.cells.size ∧ exec (consult hash start dict d) s =
      (.ok (match seen.find? n with
        | some p => (some p, dict)
        | none => (none, dict ++ [⟨d, value n, start⟩])), s') := by
  obtain ⟨s₁, hexec, hs₁, hsize₁⟩ := hhash hs hd hn
  obtain ⟨items, hitems, hlookup⟩ := hm
  have hd₁ := hd.later (.of_size hsize₁)
  obtain ⟨hfound, hs₂, hsize₂⟩ := Dictionary.find_spec (hitems.later hsize₁) hs₁ hd₁
  rw [hlookup] at hfound
  rw [consult, exec_bind_ok hexec, exec_bind_ok (exec_modifyGet _ s₁), hfound]
  cases hfind : seen.find? n with
  | some p =>
      rw [Jam.Positions.find?] at hfind
      rw [hfind]
      exact ⟨_, hs₂, hsize₂.trans hsize₁, rfl⟩
  | none =>
      have hnew := (hlookup n).trans (hroot.lookup_eq_none hfind)
      obtain ⟨s₃, henter, hs₃, hsize₃⟩ := Dictionary.enter_spec start
        (hitems.later (hsize₂.trans hsize₁)) hs₂ (hd₁.later (.of_size hsize₂)) hnew
      rw [Jam.Positions.find?] at hfind
      rw [hfind]
      refine ⟨s₃, hs₃, hsize₃.trans (hsize₂.trans hsize₁), ?_⟩
      simp only
      rw [exec_bind_ok (exec_modifyGet _ _), henter]
      rfl

/-- A number gets the token that it gets among plain nouns. -/
lemma encodeNumberIn_exec {k : Int} (hk : d.number? = some k) (hs : s.Fits ν)
    (hd : s.Denotes ν d n) (hn : n.Natural) (hm : dict.Mirrors s ν value seen)
    (hroot : RootAbove seen n.height) {start : Nat} {tokens : List Jam.Token}
    {seen' : Jam.Positions} (he : Jam.encode start seen n = (tokens, seen')) :
    ∃ dict' s', exec (encodeNumberIn hash start dict d k) s = (.ok (tokens, dict'), s') ∧
      s'.Fits ν ∧ s'.cells.size = s.cells.size ∧ dict'.Mirrors s' ν value seen' := by
  obtain ⟨s₁, hs₁, hsize, hconsult⟩ := consult_exec hhash hs hd hn hm hroot start
  obtain rfl := hd.of_number hk
  cases hfind : seen.find? (.atom k) with
  | some p =>
      cases (Jam.encode_atom_found hfind).symm.trans he
      rw [hfind] at hconsult
      refine ⟨dict, s₁, ?_, hs₁, hsize, hm.later hsize⟩
      rw [encodeNumberIn, exec_bind_ok hconsult]
      rfl
  | none =>
      cases (Jam.encode_atom hfind).symm.trans he
      rw [hfind] at hconsult
      refine ⟨_, s₁, ?_, hs₁, hsize,
        (hm.enter hd (hroot.lookup_eq_none hfind) start).later hsize⟩
      rw [encodeNumberIn, exec_bind_ok hconsult]
      rfl

/-- Serialising with a dictionary gives the tokens of the noun, and keeps every denotation. -/
lemma encodeIn_exec : ∀ (fuel : Nat) {start : Nat} {s : Store} {d : Datum} {n : Noun}
    {dict : Dictionary} {seen seen' : Jam.Positions} {tokens : List Jam.Token}, s.Fits ν →
    s.Denotes ν d n → n.Natural → n.height ≤ fuel → dict.Mirrors s ν value seen →
    RootAbove seen n.height → Jam.encode start seen n = (tokens, seen') →
    ∃ dict' s', exec (encodeIn hash fuel start dict d) s = (.ok (tokens, dict'), s') ∧ s'.Fits ν ∧
      s'.cells.size = s.cells.size ∧ dict'.Mirrors s' ν value seen'
  | fuel, start, s, .atom k, n, dict, seen, seen', tokens, hs, hd, hn, _, hm, hroot, he => by
      rw [encodeIn]
      exact encodeNumberIn_exec hhash rfl hs hd hn hm hroot he
  | fuel, start, s, .flag b, n, dict, seen, seen', tokens, hs, hd, hn, _, hm, hroot, he => by
      rw [encodeIn]
      exact encodeNumberIn_exec hhash rfl hs hd hn hm hroot he
  | 0, start, s, .cell c, n, dict, seen, seen', tokens, hs, hd, _, hfuel, _, _, _ => by
      obtain ⟨hc, rfl⟩ := hd
      obtain ⟨_, h, t, _, hν, _⟩ := hs.get hc
      simp [hν, Noun.height] at hfuel
  | fuel + 1, start, s, .cell c, n, dict, seen, seen', _, hs, hd, hn, hfuel, hm, hroot, he => by
      obtain ⟨s₁, hs₁, hsize₁, hconsult⟩ := consult_exec hhash hs hd hn hm hroot start
      obtain ⟨hc, hν⟩ := id hd
      obtain ⟨_, h, t, _, hcell, _⟩ := hs.get hc
      obtain rfl := hν.trans hcell
      cases hfind : seen.find? (.cell h t) with
      | some p =>
          cases (Jam.encode_cell_found hfind).symm.trans he
          rw [hfind] at hconsult
          refine ⟨dict, s₁, ?_, hs₁, hsize₁, hm.later hsize₁⟩
          rw [encodeIn, exec_bind_ok hconsult]
          rfl
      | none =>
          rw [hfind] at hconsult
          obtain ⟨first, middle, second, hfirst, hsecond, rfl⟩ := Jam.encode_cell hfind he
          have hheight : (Noun.cell h t).height = max h.height t.height + 1 := rfl
          have henter := (hm.enter hd (hroot.lookup_eq_none hfind) start).later hsize₁
          have hroot₁ := hroot.enter start (by omega : max h.height t.height < _)
          -- the parts are looked up when their turn comes, and may have been moved by then
          obtain ⟨cell₁, h₁, t₁, hget₁, hν₁, hhold₁⟩ := hs₁.get (c := c) (by rw [hsize₁]; exact hc)
          cases hcell.symm.trans hν₁
          obtain ⟨dict₂, s₂, hexec₂, hs₂, hsize₂, hm₂⟩ := encodeIn_exec fuel hs₁ hhold₁.head hn.1
            (by omega) henter (hroot₁.mono (by omega)) hfirst
          have hroot₂ := (hroot₁.encode hfirst).mono (by omega : t.height ≤ _)
          obtain ⟨cell₂, h₂, t₂, hget₂, hν₂, hhold₂⟩ := hs₂.get (c := c)
            (by rw [hsize₂, hsize₁]; exact hc)
          cases hcell.symm.trans hν₂
          obtain ⟨dict₃, s₃, hexec₃, hs₃, hsize₃, hm₃⟩ := encodeIn_exec fuel hs₂ hhold₂.tail hn.2
            (by omega) hm₂ hroot₂ hsecond
          exact ⟨dict₃, s₃, encodeIn_entered hconsult hget₁ hexec₂ hget₂ hexec₃, hs₃,
            hsize₃.trans (hsize₂.trans hsize₁), hm₃⟩

/-- Whatever the hash, the bits of a held noun are the bits of the noun. -/
lemma jamBitsIn_exec (hs : s.Fits ν) (hd : s.Denotes ν d n) (hn : n.Natural) :
    ∃ s', exec (jamBitsIn hash d) s = (.ok n.jamBits, s') := by
  obtain ⟨dict, s', hexec, -, -, -⟩ := encodeIn_exec hhash (s.heightOf d) hs hd hn
    (by rw [hs.heightOf_eq hd]) ⟨[], .nil, fun _ => rfl⟩ (fun a ha => nomatch ha)
    (Prod.eta (Jam.encode 0 [] n)).symm
  refine ⟨s', ?_⟩
  rw [jamBitsIn, exec_bind_ok (exec_get s), exec_bind_ok hexec]
  rfl

end

/-! ## Two ways to hold a noun -/

/-- **Only the noun matters.**  Two sound stores may hold a noun of natural atoms in any two ways,
with any cells shared and any mugs remembered: serialising it onto a bit string appends the same
bits to what was there, and touches no other bit string.  They are the bits of the plain noun, whose
table is searched by the nouns themselves.  One dictionary for numbers and cells gives the same bits,
however it hashes nouns and whatever collides under the hash. -/
theorem jamOnto_eq_of_noun {s₁ s₂ : Store} {d₁ d₂ : Datum} {n : Noun} {i₁ i₂ : StreamId}
    (hs₁ : s₁.Sound) (hs₂ : s₂.Sound) (hd₁ : s₁.noun? d₁ = some n) (hd₂ : s₂.noun? d₂ = some n)
    (hn : n.Natural) (hi₁ : i₁ < s₁.streams.size) (hi₂ : i₂ < s₂.streams.size) :
    (∃ s₁' s₂', exec (jamOnto d₁ i₁) s₁ = (.ok (), s₁') ∧ exec (jamOnto d₂ i₂) s₂ = (.ok (), s₂') ∧
      s₁'.bitsOf i₁ = s₁.bitsOf i₁ ++ n.jamBits ∧ s₂'.bitsOf i₂ = s₂.bitsOf i₂ ++ n.jamBits ∧
      (∀ j ≠ i₁, s₁'.bitsOf j = s₁.bitsOf j) ∧ ∀ j ≠ i₂, s₂'.bitsOf j = s₂.bitsOf j) ∧
    Hashes StoreM.hash Noun.hashValue ∧
    ∀ hash value, Hashes hash value → (exec (jamBitsIn hash d₁) s₁).1 = .ok n.jamBits ∧
      (exec (jamBitsIn hash d₂) s₂).1 = .ok n.jamBits := by
  have hdenotes₁ := hs₁.fits.noun?_iff.mp hd₁
  have hdenotes₂ := hs₂.fits.noun?_iff.mp hd₂
  obtain ⟨s₁', hexec₁, hbits₁, hothers₁⟩ := jamOnto_exec hs₁.fits hdenotes₁ hn hi₁
  obtain ⟨s₂', hexec₂, hbits₂, hothers₂⟩ := jamOnto_exec hs₂.fits hdenotes₂ hn hi₂
  refine ⟨⟨s₁', s₂', hexec₁, hexec₂, hbits₁, hbits₂, hothers₁, hothers₂⟩, hashes_hash, ?_⟩
  intro hash value hhash
  obtain ⟨_, hin₁⟩ := jamBitsIn_exec hhash hs₁.fits hdenotes₁ hn
  obtain ⟨_, hin₂⟩ := jamBitsIn_exec hhash hs₂.fits hdenotes₂ hn
  rw [hin₁, hin₂]
  exact ⟨rfl, rfl⟩

/-- The noun `[[28731 0] [188973 0] [28731 0] 1614503147]`.  Its first two items are different cells
of one mug, and its last item is that mug. -/
def colliding : Noun :=
  .ofList [.cell (.atom 28731) (.atom 0), .cell (.atom 188973) (.atom 0),
    .cell (.atom 28731) (.atom 0), .atom 1614503147]

/-- A store that holds `colliding` as cell 4, with the repeated cell shared and its mug known. -/
def sharingStore : Store :=
  ⟨#[⟨.atom 28731, .atom 0, 1614503147, 1⟩, ⟨.atom 188973, .atom 0, 0, 1⟩,
    ⟨.cell 0, .atom 1614503147, 0, 2⟩, ⟨.cell 1, .cell 2, 0, 3⟩, ⟨.cell 0, .cell 3, 0, 4⟩],
    #[[true]]⟩

/-- A store that holds `colliding` as cell 5, with nothing shared and the mug of the other cell
known. -/
def spreadingStore : Store :=
  ⟨#[⟨.atom 28731, .atom 0, 0, 1⟩, ⟨.atom 188973, .atom 0, 1614503147, 1⟩,
    ⟨.atom 28731, .atom 0, 0, 1⟩, ⟨.cell 2, .atom 1614503147, 0, 2⟩, ⟨.cell 1, .cell 3, 0, 3⟩,
    ⟨.cell 0, .cell 4, 0, 4⟩], #[[], [false]]⟩

theorem jamOnto_eq_of_noun_colliding :
    ((Noun.cell (.atom 28731) (.atom 0)).hashValue = 1614503147 ∧
      (Noun.cell (.atom 188973) (.atom 0)).hashValue = 1614503147 ∧
      (Noun.atom 1614503147).hashValue = 1614503147) ∧
    (sharingStore.Sound ∧ spreadingStore.Sound ∧ sharingStore.noun? (.cell 4) = some colliding ∧
      spreadingStore.noun? (.cell 5) = some colliding ∧ colliding.Natural) ∧
    (∃ s₁ s₂, exec (jamOnto (.cell 4) 0) sharingStore = (.ok (), s₁) ∧
      exec (jamOnto (.cell 5) 1) spreadingStore = (.ok (), s₂) ∧
      s₁.bitsOf 0 = true :: colliding.jamBits ∧ s₂.bitsOf 1 = false :: colliding.jamBits) ∧
    (exec (jamBitsIn StoreM.hash (.cell 5)) spreadingStore).1 = .ok colliding.jamBits := by
  have hsharing : sharingStore.Sound := by decide +kernel
  have hspreading : spreadingStore.Sound := by decide +kernel
  have hd₁ : sharingStore.noun? (.cell 4) = some colliding := rfl
  have hd₂ : spreadingStore.noun? (.cell 5) = some colliding := rfl
  have hnatural : colliding.Natural := by decide
  have hi₁ : 0 < sharingStore.streams.size := by decide
  have hi₂ : 1 < spreadingStore.streams.size := by decide
  obtain ⟨⟨s₁, s₂, hexec₁, hexec₂, hbits₁, hbits₂, -, -⟩, hhash, hin⟩ :=
    jamOnto_eq_of_noun hsharing hspreading hd₁ hd₂ hnatural hi₁ hi₂
  exact ⟨by decide +kernel, ⟨hsharing, hspreading, hd₁, hd₂, hnatural⟩,
    ⟨s₁, s₂, hexec₁, hexec₂, hbits₁, hbits₂⟩, (hin _ _ hhash).2⟩

end Nock
