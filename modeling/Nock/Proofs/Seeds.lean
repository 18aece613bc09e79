import Mathlib.Data.Finset.Card
import Mathlib.Data.Nat.Bitwise
import Nock.Proofs.Murmur
import Nock.Proofs.Store.Hash
import Nock.Session

/-!
# A mug is never zero

The folded hash of a key is zero under two seeds at most: a word folds to zero if it is zero or
has nothing but its highest and its lowest bit (`fold_eq_zero_iff`), and different seeds give
different words.  So of eight seeds in a row at least six give a hash (`six_le_card_nonzero`), the
search ends well, and its fallback is there for nothing.

Hence the mug of every natural noun lies between 1 and 2³¹ − 1, and a cell of a store that was
hashed is told apart from one that was not (`mug_exec_remembers`).
-/

namespace Nock

open StoreM Store

namespace Mug

/-! ## Folding -/

lemma fold_eq (hash : UInt32) : fold hash = hash.toNat / 2 ^ 31 ^^^ hash.toNat % 2 ^ 31 := by
  rw [fold, UInt32.toNat_xor, UInt32.toNat_shiftRight, UInt32.toNat_and, Nat.shiftRight_eq_div_pow]
  congr 1
  exact Nat.and_two_pow_sub_one_eq_mod hash.toNat 31

lemma fold_lt (hash : UInt32) : fold hash < 2 ^ 31 := by
  have hhash := hash.toNat_lt
  rw [fold_eq]
  exact Nat.xor_lt_two_pow (by omega) (by omega)

/-- Two words fold to zero. -/
lemma fold_eq_zero_iff (hash : UInt32) : fold hash = 0 ↔ hash = 0 ∨ hash = 0x80000001 := by
  have hhash := hash.toNat_lt
  have hzero : (0 : UInt32).toNat = 0 := rfl
  have hends : (0x80000001 : UInt32).toNat = 2 ^ 31 + 1 := rfl
  rw [fold_eq, Nat.xor_eq_zero_iff, ← UInt32.toNat_inj, ← UInt32.toNat_inj, hzero, hends]
  omega

/-! ## Seeds in a row -/

/-- The seeds after a given one are different, as long as there are no more of them than words. -/
lemma seed_add_injOn (seed : UInt32) {tries : Nat} (h : tries ≤ 2 ^ 32) :
    Set.InjOn (fun i => seed + UInt32.ofNat i) (Finset.range tries : Set Nat) := by
  intro i hi j hj hij
  have hi' : i < 2 ^ 32 := lt_of_lt_of_le (Finset.mem_range.mp hi) h
  have hj' : j < 2 ^ 32 := lt_of_lt_of_le (Finset.mem_range.mp hj) h
  have hword := congrArg UInt32.toNat ((UInt32.add_right_inj seed).mp hij)
  simpa only [UInt32.toNat_ofNat', Nat.mod_eq_of_lt hi', Nat.mod_eq_of_lt hj'] using hword

/-- At most two seeds give a hash that folds to zero. -/
lemma card_zero_le_two (key : List UInt8) (seed : UInt32) {tries : Nat} (h : tries ≤ 2 ^ 32) :
    {i ∈ Finset.range tries | fold (Murmur.hash32 (seed + UInt32.ofNat i) key) = 0}.card ≤ 2 := by
  let ends : Finset UInt32 := {0, 0x80000001}
  have hends : ends.card = 2 := rfl
  rw [← hends]
  refine Finset.card_le_card_of_injOn (fun i => Murmur.hash32 (seed + UInt32.ofNat i) key) ?_ ?_
  · intro i hi
    have hzero := (Finset.mem_filter.mp hi).2
    simpa [ends] using (fold_eq_zero_iff _).mp hzero
  · have hsubset := Finset.coe_subset.mpr (Finset.filter_subset
      (fun i => fold (Murmur.hash32 (seed + UInt32.ofNat i) key) = 0) (Finset.range tries))
    exact (Murmur.hash32_injective key).comp_injOn ((seed_add_injOn seed h).mono hsubset)

lemma six_le_card_nonzero (key : List UInt8) (seed : UInt32) :
    6 ≤ {i ∈ Finset.range 8 | fold (Murmur.hash32 (seed + UInt32.ofNat i) key) ≠ 0}.card := by
  have hzero := card_zero_le_two key seed (by decide : 8 ≤ 2 ^ 32)
  have hsplit := Finset.card_filter_add_card_filter_not (s := Finset.range 8)
    fun i => fold (Murmur.hash32 (seed + UInt32.ofNat i) key) = 0
  rw [Finset.card_range] at hsplit
  simp only [ne_eq]
  omega

/-- A seed that gives a hash ends the search. -/
lemma exists_firstNonzero (key : List UInt8) (tries : Nat) : ∀ (seed : UInt32) {i : Nat},
    i < tries → fold (Murmur.hash32 (seed + UInt32.ofNat i) key) ≠ 0 →
      ∃ m, firstNonzero key tries seed = some m := by
  induction tries with
  | zero => intro seed i hi _; omega
  | succ tries ih =>
      intro seed i hi hfold
      simp only [firstNonzero]
      split_ifs with hzero
      · -- not the first seed, so one of those after it
        cases i with
        | zero => simp [hzero] at hfold
        | succ i =>
            refine ih (seed + 1) (by omega : i < tries) ?_
            rwa [UInt32.ofNat_add, UInt32.add_comm (UInt32.ofNat i), ← UInt32.add_assoc] at hfold
      · exact ⟨_, rfl⟩

lemma firstNonzero_range (key : List UInt8) (tries : Nat) : ∀ {seed : UInt32} {m : Nat},
    firstNonzero key tries seed = some m → 1 ≤ m ∧ m ≤ 2 ^ 31 - 1 := by
  induction tries with
  | zero => intro seed m h; cases h
  | succ tries ih =>
      intro seed m h
      simp only [firstNonzero] at h
      split_ifs at h with hzero
      · exact ih h
      · cases h
        have := fold_lt (Murmur.hash32 seed key)
        omega

/-- The word of a seed further on. -/
lemma seedWord_add (seed : Int) (i : Nat) : seedWord (seed + i) = seedWord seed + UInt32.ofNat i := by
  refine UInt32.toNat_inj.mp ?_
  simp only [seedWord, UInt32.toNat_add, UInt32.toNat_ofNat']
  omega

/-- Among eight seeds in a row the search finds one. -/
lemma exists_search (seed : Int) {key : Int} (hkey : 0 ≤ key) :
    ∃ m : Nat, search seed key = .ok (some m) ∧ 1 ≤ m ∧ m ≤ 2 ^ 31 - 1 := by
  have hbytes : toBytes key = .ok (lowBytes (byteLength key) key.natAbs) := by
    simp [toBytes, Int.not_lt.mpr hkey]
  have hcard := six_le_card_nonzero (lowBytes (byteLength key) key.natAbs) (seedWord seed)
  obtain ⟨i, hi⟩ := Finset.card_pos.mp (Nat.lt_of_lt_of_le (by decide) hcard)
  obtain ⟨hrange, hfold⟩ := Finset.mem_filter.mp hi
  obtain ⟨m, hm⟩ := exists_firstNonzero _ 8 _ (Finset.mem_range.mp hrange) hfold
  refine ⟨m, ?_, firstNonzero_range _ _ hm⟩
  rw [search, hbytes, ok_bind, hm]
  rfl

/-- The fallback does not matter. -/
lemma hashOr_of_search {seed key : Int} {m : Nat} (h : search seed key = .ok (some m))
    (fallback : Int) : hashOr seed fallback key = .ok (m : Int) := by
  rw [hashOr, h]
  rfl

lemma hashOr_bounds {seed fallback key m : Int} (h : hashOr seed fallback key = .ok m) :
    1 ≤ m ∧ m ≤ 2 ^ 31 - 1 := by
  by_cases hkey : 0 ≤ key
  · obtain ⟨k, hk, hlow, hhigh⟩ := exists_search seed hkey
    cases (hashOr_of_search hk fallback).symm.trans h
    omega
  · have hbytes : toBytes key = .error .negative := by simp [toBytes, Int.not_le.mp hkey]
    rw [hashOr, search, hbytes] at h
    cases h

end Mug

/-! ## Mugs -/

lemma Noun.mug_bounds {n : Noun} {m : Int} (h : n.mug = .ok m) : 1 ≤ m ∧ m ≤ 2 ^ 31 - 1 := by
  cases n with
  | atom k => exact Mug.hashOr_bounds h
  | cell hd tl =>
      simp only [Noun.mug, bind_eq_ok, Mug.pair] at h
      obtain ⟨head, -, tail, -, h⟩ := h
      split_ifs at h
      exact Mug.hashOr_bounds h

/-! ## Remembered mugs -/

variable {s : Store} {ν : Reading} {c : CellId} {m : Int}

/-- A mug that is remembered is handed out, and nothing changes. -/
lemma mug_exec_of_remembered {cell : Cell} {n : Noun} (hget : s.cells[c]? = some cell)
    (hheight : 0 < cell.height) (hmug : n.mug = .ok cell.mug) :
    exec (StoreM.mug (.cell c)) s = (.ok cell.mug, s) := by
  have hbounds := Noun.mug_bounds hmug
  have hfuel : s.heightOf (.cell c) = cell.height - 1 + 1 := by
    simp only [heightOf, Datum.height, hget, Option.map_some, Option.getD_some]
    omega
  rw [StoreM.mug, exec_bind_ok (exec_get s), hfuel, mugWithin, exec_bind_ok (exec_cell? c s)]
  simp only [hget]
  rw [if_pos (by omega), exec_pure, Mug.handOut_mug hmug]

/-- A cell that remembers no mug remembers it once it was hashed. -/
lemma mug_exec_of_unknown {cell : Cell} (hs : s.Fits ν) (hget : s.cells[c]? = some cell)
    (hunknown : cell.mug = 0) (hmug : (ν c).mug = .ok m) :
    ∃ s', exec (StoreM.mug (.cell c)) s = (.ok m, s') ∧
      ∃ cell', s'.cells[c]? = some cell' ∧ cell'.mug = m ∧ cell'.height = cell.height := by
  obtain ⟨h, t, hν, hcell⟩ := hs c cell hget
  have hheight : cell.height = max h.height t.height + 1 := hcell.height
  have hfuel : s.heightOf (.cell c) = max h.height t.height + 1 := by
    simp [heightOf, Datum.height, hget, hheight]
  simp only [hν, Noun.mug, bind_eq_ok] at hmug
  obtain ⟨head, hhead, tail, htail, hpair⟩ := hmug
  obtain ⟨s₁, hexec₁, hs₁, hsize₁⟩ := mugWithin_exec (max h.height t.height) hs hcell.head (by omega)
  obtain ⟨s₂, hexec₂, hs₂, hsize₂⟩ := mugWithin_exec (max h.height t.height) hs₁
    (hcell.tail.later (.of_size hsize₁)) (by omega)
  rw [hhead] at hexec₁
  rw [htail] at hexec₂
  have hc : c < s₂.cells.size := by
    rw [hsize₂, hsize₁]
    exact (Array.getElem?_eq_some_iff.mp hget).1
  obtain ⟨cell₂, h₂, t₂, hget₂, hν₂, hcell₂⟩ := hs₂.get hc
  refine ⟨s₂.update c ({ · with mug := m }), ?_, { cell₂ with mug := m }, ?_, rfl, ?_⟩
  · rw [StoreM.mug, exec_bind_ok (exec_get s), hfuel, mugWithin, exec_bind_ok (exec_cell? c s)]
    simp only [hget]
    rw [if_neg (by omega), exec_bind_ok hexec₁, exec_bind_ok hexec₂, hpair,
      exec_bind_ok (exec_ofExcept _ s₂), exec_bind_ok (exec_modify _ s₂), exec_pure]
  · simp [Store.update, Array.getElem?_modify, hget₂]
  · rw [hν] at hν₂
    cases hν₂
    exact hcell₂.height.trans hcell.height.symm

/-- Once a cell was hashed it remembers its mug, and is never hashed again. -/
lemma mug_exec_remembers (hs : s.Fits ν) (hc : c < s.cells.size) (hmug : (ν c).mug = .ok m) :
    ∃ s', exec (StoreM.mug (.cell c)) s = (.ok m, s') ∧ s'.cells[c]?.map Cell.mug = some m ∧
      exec (StoreM.mug (.cell c)) s' = (.ok m, s') := by
  obtain ⟨cell, h, t, hget, hν, hcell⟩ := hs.get hc
  have hheight : cell.height = max h.height t.height + 1 := hcell.height
  by_cases hunknown : cell.mug = 0
  · obtain ⟨s', hexec, cell', hget', rfl, hheight'⟩ := mug_exec_of_unknown hs hget hunknown hmug
    exact ⟨s', hexec, by simp [hget'], mug_exec_of_remembered hget' (by omega) hmug⟩
  · have hknown := hcell.mug.resolve_left hunknown
    rw [← hν, hmug] at hknown
    cases hknown
    have hexec := mug_exec_of_remembered hget (by omega) hmug
    exact ⟨s, hexec, by simp [hget], hexec⟩

/-! ## Searching, hashing and remembering -/

/-- A search on request gives its number, whatever the fallback. -/
lemma perform_mugSearch {seed key : Int} {m : Nat} (h : Mug.search seed key = .ok (some m))
    (bound : Nat) (fallback : Datum) (s : Store) :
    exec (Session.perform bound .mugSearch [.atom seed, fallback, .atom key]) s
      = (.ok (.number m), s) := by
  have hfound : exec (MonadExcept.ofExcept (Mug.search seed key) : StoreM (Option Nat)) s
      = (.ok (some m), s) := by rw [exec_ofExcept, h]
  rw [Session.perform]
  exact exec_bind_ok hfound

/-- **A mug is never zero.**  Of eight seeds in a row, taken modulo 2³², at least six give a number
a folded hash that is not zero, so that the search gives the same number between 1 and 2³¹ − 1 for
every fallback, whatever kind of value it is.  The mug of a natural noun is such a number, and a cell
that was hashed remembers it: the next time it is handed out, and nothing changes. -/
theorem mug_never_zero :
    (∀ seed key : Int, 0 ≤ key → ∃ (bytes : List UInt8) (m : Nat), toBytes key = .ok bytes ∧
      6 ≤ {i ∈ Finset.range 8 |
        Mug.fold (Murmur.hash32 (Mug.seedWord (seed + (i : Nat))) bytes) ≠ 0}.card ∧
      1 ≤ m ∧ m ≤ 2 ^ 31 - 1 ∧ Mug.search seed key = .ok (some m) ∧
      (∀ fallback, Mug.hashOr seed fallback key = .ok (m : Int)) ∧
      ∀ bound fallback s, exec (Session.perform bound .mugSearch [.atom seed, fallback, .atom key]) s
        = (.ok (.number m), s)) ∧
    (∀ n : Noun, n.Natural → ∃ m : Int, n.mug = .ok m ∧ 1 ≤ m ∧ m ≤ 2 ^ 31 - 1) ∧
    ∀ (s : Store) (c : CellId) (n : Noun), s.Sound → s.noun? (.cell c) = some n → n.Natural →
      ∃ m s', exec (StoreM.mug (.cell c)) s = (.ok m, s') ∧ n.mug = .ok m ∧ m ≠ 0 ∧
        s'.cells[c]?.map Cell.mug = some m ∧ exec (StoreM.mug (.cell c)) s' = (.ok m, s') := by
  refine ⟨fun seed key hkey => ?_, fun n hn => ?_, fun s c n hs hc hn => ?_⟩
  · have hbytes : toBytes key = .ok (lowBytes (byteLength key) key.natAbs) := by
      simp [toBytes, Int.not_lt.mpr hkey]
    obtain ⟨m, hsearch, hlow, hhigh⟩ := Mug.exists_search seed hkey
    refine ⟨_, m, hbytes, ?_, hlow, hhigh, hsearch, Mug.hashOr_of_search hsearch,
      perform_mugSearch hsearch⟩
    simp only [Mug.seedWord_add]
    exact Mug.six_le_card_nonzero _ _
  · obtain ⟨m, hm⟩ := hn.exists_mug
    exact ⟨m, hm, Noun.mug_bounds hm⟩
  · obtain ⟨hsize, rfl⟩ := hs.fits.noun?_iff.mp hc
    obtain ⟨m, hm⟩ := hn.exists_mug
    obtain ⟨s', hexec, hremembers, hagain⟩ := mug_exec_remembers hs.fits hsize hm
    have := Noun.mug_bounds hm
    exact ⟨m, s', hexec, hm, by omega, hremembers, hagain⟩

/-- A store with the cell `[1 2]`, which was not hashed yet. -/
def freshPair : Store :=
  ⟨#[⟨.atom 1, .atom 2, 0, 1⟩], #[]⟩

/-- The hash of 0 under the seed −2³², which is the seed 0, is zero, and the search goes on to the
next seed. -/
theorem mug_never_zero_skipped :
    (Mug.fold (Murmur.hash32 (Mug.seedWord (-0x100000000)) []) = 0 ∧
      ∃ m : Nat, 1 ≤ m ∧ m ≤ 2 ^ 31 - 1 ∧ Mug.hashOr (-0x100000000) 7 0 = .ok (m : Int) ∧
        exec (Session.perform 9 .mugSearch [.atom (-0x100000000), .text "none", .atom 0]) freshPair
          = (.ok (.number m), freshPair)) ∧
    ((Noun.cell (.atom 1) (.atom 2)).Natural ∧
      ∃ m : Int, (Noun.cell (.atom 1) (.atom 2)).mug = .ok m ∧ 1 ≤ m ∧ m ≤ 2 ^ 31 - 1) ∧
    (freshPair.Sound ∧ freshPair.noun? (.cell 0) = some (.cell (.atom 1) (.atom 2)) ∧
      ∃ m s', exec (StoreM.mug (.cell 0)) freshPair = (.ok m, s') ∧ m ≠ 0 ∧
        s'.cells[0]?.map Cell.mug = some m ∧ exec (StoreM.mug (.cell 0)) s' = (.ok m, s')) := by
  obtain ⟨hsearch, hmug, hremembers⟩ := mug_never_zero
  have hnatural : (Noun.cell (.atom 1) (.atom 2)).Natural := by decide
  have hsound : freshPair.Sound := by decide +kernel
  obtain ⟨-, m, -, -, hlow, hhigh, -, hor, hperform⟩ := hsearch (-0x100000000) 0 (by decide)
  obtain ⟨k, s', hexec, -, hk, hcell, hagain⟩ := hremembers freshPair 0 _ hsound rfl hnatural
  exact ⟨⟨by decide +kernel, m, hlow, hhigh, hor 7, hperform 9 (.text "none") freshPair⟩,
    ⟨hnatural, hmug _ hnatural⟩, hsound, rfl, k, s', hexec, hk, hcell, hagain⟩

end Nock
