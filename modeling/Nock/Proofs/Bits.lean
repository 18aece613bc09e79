import Mathlib.Data.Nat.Bitwise
import Nock.Bits
import Nock.Proofs.Outcome

/-!
# Numbers and their bits

A number is the same as its bits up to the highest one, so bits that end in a one are recovered from
their number (`ofNumber_toNumber`).  The self-delimiting code of a number is read back from any
longer bit string, and reading stops exactly behind it (`rub_mat`).
-/

namespace Nock

/-! ## Counting binary digits -/

@[simp] lemma bitLength_zero : bitLength 0 = 0 := rfl

lemma bitLength_natCast {n : Nat} (h : n ≠ 0) : bitLength n = n.log2 + 1 := by
  simp [bitLength, h]

lemma lt_two_pow_bitLength (n : Nat) : n < 2 ^ bitLength n := by
  by_cases h : n = 0
  · subst h; decide
  · rw [bitLength_natCast h]
    exact Nat.lt_log2_self

lemma two_pow_le_of_ne_zero {n : Nat} (h : n ≠ 0) : 2 ^ (bitLength n - 1) ≤ n := by
  rw [bitLength_natCast h, Nat.add_sub_cancel]
  exact Nat.log2_self_le h

lemma bitLength_pos {n : Nat} (h : n ≠ 0) : 0 < bitLength n := by
  rw [bitLength_natCast h]
  omega

/-- The number of binary digits is the only one that fits. -/
lemma bitLength_eq {n count : Nat} (hlow : 2 ^ count ≤ n) (hhigh : n < 2 ^ (count + 1)) :
    bitLength n = count + 1 := by
  have h : n ≠ 0 := by
    have := Nat.two_pow_pos count
    omega
  rw [bitLength_natCast h, (Nat.log2_eq_iff h).mpr ⟨hlow, hhigh⟩]

/-- A number has one binary digit more than its half. -/
lemma bitLength_half {n : Nat} (h : n ≠ 0) : bitLength n = bitLength (n / 2 : Nat) + 1 := by
  have hhigh := lt_two_pow_bitLength (n / 2)
  refine bitLength_eq ?_ (by rw [Nat.pow_succ]; omega)
  by_cases hhalf : n / 2 = 0
  · rw [hhalf]
    exact Nat.one_le_iff_ne_zero.mpr h
  · have hlow := two_pow_le_of_ne_zero hhalf
    have hpos := bitLength_pos hhalf
    obtain ⟨count, hcount⟩ : ∃ count, bitLength (n / 2 : Nat) = count + 1 :=
      ⟨bitLength (n / 2 : Nat) - 1, by omega⟩
    rw [hcount, Nat.add_sub_cancel] at hlow
    rw [hcount, Nat.pow_succ]
    omega

namespace Bits

/-! ## Bits and numbers -/

@[simp] lemma toNumber_nil : toNumber [] = 0 := rfl

@[simp] lemma toNumber_cons (b : Bool) (bits : List Bool) :
    toNumber (b :: bits) = 2 * toNumber bits + b.toNat := rfl

lemma toNumber_lt : ∀ bits : List Bool, toNumber bits < 2 ^ bits.length
  | [] => by simp
  | b :: bits => by
      have h := toNumber_lt bits
      have hb := b.toNat_lt
      rw [toNumber_cons, List.length_cons, Nat.pow_succ]
      omega

/-- The bits of a number are the bits it was made of. -/
lemma testBit_toNumber : ∀ (bits : List Bool) (i : Nat),
    (toNumber bits).testBit i = bits.getD i false
  | [], i => by simp
  | b :: bits, 0 => by cases b <;> simp [Nat.testBit_zero, Nat.add_mod]
  | b :: bits, i + 1 => by
      have h : (2 * toNumber bits + b.toNat) / 2 = toNumber bits := by
        have hb := b.toNat_lt
        omega
      rw [toNumber_cons, Nat.testBit_succ, h, testBit_toNumber bits i, List.getD_cons_succ]

@[simp] lemma low_length (n : Int) (count : Nat) : (low n count).length = count := by
  simp [low]

/-- The lowest bits of a natural number, one by one. -/
lemma low_natCast (n count : Nat) : low n count = (List.range count).map n.testBit := by
  have hres : ((n : Int) % (1 <<< count : Nat)).toNat = n % 2 ^ count := by
    rw [Nat.one_shiftLeft, ← Int.natCast_mod]
    rfl
  unfold low
  rw [hres]
  refine List.map_congr_left fun i hi => ?_
  rw [Nat.testBit_mod_two_pow, decide_eq_true (List.mem_range.mp hi), Bool.true_and]

lemma toNumber_low (n count : Nat) : toNumber (low n count) = n % 2 ^ count := by
  refine Nat.eq_of_testBit_eq fun i => ?_
  rw [testBit_toNumber, low_natCast, Nat.testBit_mod_two_pow, List.getD_eq_getElem?_getD,
    List.getElem?_map]
  by_cases hi : i < count
  · simp [hi]
  · simp [hi]

/-- The lowest bits of the number of some bits are these bits. -/
lemma low_toNumber (bits : List Bool) : low (toNumber bits) bits.length = bits := by
  rw [low_natCast]
  refine List.ext_getElem (by simp) fun i hi hi' => ?_
  simp [testBit_toNumber, hi']

/-- The highest bit of a number as large as `2 ^ count` with one digit more is a one. -/
lemma low_getLast? {n count : Nat} (hlow : 2 ^ count ≤ n) (hhigh : n < 2 ^ (count + 1)) :
    (low n (count + 1)).getLast? = some true := by
  have hbit : n.testBit count = true := by
    have hdiv : n / 2 ^ count = 1 := by
      refine Nat.div_eq_of_lt_le (by omega) ?_
      rw [Nat.pow_succ] at hhigh
      omega
    rw [Nat.testBit_eq_decide_div_mod_eq, hdiv]
    rfl
  rw [low_natCast, List.range_succ, List.map_append]
  simp [hbit]

/-- Bits that end in a one make a number that is at least as large as that one. -/
lemma two_pow_le_toNumber (bits : List Bool) : 2 ^ bits.length ≤ toNumber (bits ++ [true]) := by
  refine Nat.ge_two_pow_of_testBit ?_
  rw [testBit_toNumber]
  simp

/-- Bits that end in a one are recovered from their number. -/
lemma ofNumber_toNumber {bits : List Bool} (h : bits.getLast? = some true) :
    ofNumber (toNumber bits) = bits := by
  obtain ⟨front, rfl⟩ : ∃ front, bits = front ++ [true] := by
    obtain ⟨front, hfront⟩ := List.getLast?_eq_some_iff.mp h
    exact ⟨front, hfront⟩
  have hlow := two_pow_le_toNumber front
  have hhigh := toNumber_lt (front ++ [true])
  have hpos := Nat.two_pow_pos front.length
  have hlength : (front ++ [true]).length = front.length + 1 := by simp
  rw [hlength] at hhigh
  rw [ofNumber, if_neg (by omega), bitLength_eq hlow hhigh, ← hlength]
  exact low_toNumber _

lemma ofNumber_natCast (n : Nat) : ofNumber n = (List.range (bitLength n)).map n.testBit := by
  rw [ofNumber, ← low_natCast]
  split_ifs with h
  · obtain rfl : n = 0 := by omega
    rfl
  · rfl

/-- The lowest bit of a positive number, and the bits of its half. -/
lemma ofNumber_half {n : Int} (h : 0 < n) : ofNumber n = (n % 2 == 1) :: ofNumber (n / 2) := by
  obtain ⟨k, rfl⟩ := Int.eq_ofNat_of_zero_le (Int.le_of_lt h)
  have hk : k ≠ 0 := by omega
  have hhalf : (k : Int) / 2 = (k / 2 : Nat) := rfl
  rw [hhalf, ofNumber_natCast, ofNumber_natCast, bitLength_half hk, List.range_succ_eq_map,
    List.map_cons, List.map_map]
  congr 1
  · have hmod : (k : Int) % 2 = (k % 2 : Nat) := rfl
    rw [Nat.testBit_zero, hmod]
    rcases Nat.mod_two_eq_zero_or_one k with h | h <;> simp [h]
  · refine List.map_congr_left fun i _ => ?_
    exact Nat.testBit_succ k i

/-! ## The self-delimiting code -/

lemma mat_zero : mat 0 = [true] := rfl

/-- The code of a positive number: how many digits its digit count has, the digit count without its
highest digit, and the number. -/
lemma mat_natCast {n : Nat} (h : n ≠ 0) :
    mat n = List.replicate (bitLength (bitLength n)) false ++ true ::
      (low (bitLength n) (bitLength (bitLength n) - 1) ++ low n (bitLength n)) := by
  rw [mat, if_neg (by omega)]
  simp

lemma mat_getLast? (n : Nat) : (mat n).getLast? = some true := by
  by_cases h : n = 0
  · subst h; rfl
  obtain ⟨count, hcount⟩ : ∃ count, bitLength n = count + 1 :=
    ⟨bitLength n - 1, by have := bitLength_pos h; omega⟩
  have hlow := two_pow_le_of_ne_zero h
  have hhigh := lt_two_pow_bitLength n
  rw [hcount] at hhigh
  rw [hcount, Nat.add_sub_cancel] at hlow
  have hlast := low_getLast? hlow hhigh
  rw [mat_natCast h, hcount, List.getLast?_append, List.getLast?_cons, List.getLast?_append, hlast]
  rfl

/-! ## Reading -/

@[simp] lemma next_cons (b : Bool) (rest : List Bool) (position : Nat) :
    Tape.next ⟨b :: rest, position⟩ = .ok (b, ⟨rest, position + 1⟩) := rfl

lemma length_of_next {tape tape' : Tape} {b : Bool} (h : tape.next = .ok (b, tape')) :
    tape.rest.length = tape'.rest.length + 1 := by
  rcases tape with ⟨bits, position⟩
  cases bits with
  | nil => cases h
  | cons b rest =>
      cases h
      rfl

/-- One bit more, which is the lowest. -/
lemma number_succ (count : Nat) (b : Bool) (rest : List Bool) (position : Nat) :
    Tape.number ⟨b :: rest, position⟩ (count + 1) = (do
      let (n, tape) ← Tape.number ⟨rest, position + 1⟩ count
      pure (2 * n + b.toNat, tape)) := by
  simp only [Tape.number, List.length_cons, Nat.add_lt_add_iff_right]
  split_ifs
  · rfl
  · simp only [List.take_succ_cons, List.drop_succ_cons, toNumber_cons, ok_bind, pure_eq_ok]
    congr 3
    omega

/-- One zero more. -/
lemma unary_false (rest : List Bool) (position : Nat) :
    Tape.unary ⟨false :: rest, position⟩ = (do
      let (zeros, tape) ← Tape.unary ⟨rest, position + 1⟩
      pure (zeros + 1, tape)) := by
  simp only [Tape.unary, List.takeWhile_cons, Bool.not_false, if_true, List.length_cons,
    List.drop_succ_cons]
  cases rest.drop (rest.takeWhile (!·)).length with
  | nil => rfl
  | cons b more =>
      simp only [ok_bind, pure_eq_ok]
      congr 3
      omega

/-- Reading as many bits as there are in front gives their number and leaves the rest. -/
lemma number_append (bits rest : List Bool) (position : Nat) :
    Tape.number ⟨bits ++ rest, position⟩ bits.length
      = .ok (toNumber bits, ⟨rest, position + bits.length⟩) := by
  simp [Tape.number]

lemma number_low {n count : Nat} (rest : List Bool) (position : Nat) :
    Tape.number ⟨low n count ++ rest, position⟩ count
      = .ok (n % 2 ^ count, ⟨rest, position + count⟩) := by
  have h := number_append (low n count) rest position
  rwa [low_length, toNumber_low] at h

/-- Zeros are counted up to the first one. -/
lemma unary_replicate (zeros : Nat) (rest : List Bool) (position : Nat) :
    Tape.unary ⟨List.replicate zeros false ++ true :: rest, position⟩
      = .ok (zeros, ⟨rest, position + zeros + 1⟩) := by
  have htake : (List.replicate zeros false ++ true :: rest).takeWhile (!·)
      = List.replicate zeros false := by
    rw [List.takeWhile_append_of_pos (by simp)]
    simp
  simp [Tape.unary, htake]

/-- A number without its highest digit, and the highest digit put back. -/
lemma two_pow_add_mod {n count : Nat} (hlow : 2 ^ count ≤ n) (hhigh : n < 2 ^ (count + 1)) :
    2 ^ count + n % 2 ^ count = n := by
  rw [Nat.pow_succ] at hhigh
  rw [Nat.mod_eq_sub_mod hlow, Nat.mod_eq_of_lt (by omega)]
  omega

/-- **Reading undoes writing**, and stops exactly behind the code. -/
lemma rub_mat (n : Nat) (rest : List Bool) (position : Nat) :
    Tape.rub ⟨mat n ++ rest, position⟩ = .ok (n, ⟨rest, position + (mat n).length⟩) := by
  by_cases h : n = 0
  · subst h
    have hunary := unary_replicate 0 rest position
    simp only [List.replicate_zero, List.nil_append] at hunary
    simp [mat_zero, Tape.rub, hunary]
  -- `a` digits, whose count has `b + 1` digits
  obtain ⟨b, hb⟩ : ∃ b, bitLength (bitLength n) = b + 1 :=
    ⟨bitLength (bitLength n) - 1, by
      have := bitLength_pos (show bitLength n ≠ 0 by have := bitLength_pos h; omega)
      omega⟩
  have ha : bitLength n ≠ 0 := by have := bitLength_pos h; omega
  have hcount : (1 <<< b) + bitLength n % 2 ^ b = bitLength n := by
    rw [Nat.one_shiftLeft]
    refine two_pow_add_mod ?_ ?_
    · have := two_pow_le_of_ne_zero ha
      rwa [hb, Nat.add_sub_cancel] at this
    · have := lt_two_pow_bitLength (bitLength n)
      rwa [hb] at this
  have hvalue : n % 2 ^ bitLength n = n := Nat.mod_eq_of_lt (lt_two_pow_bitLength n)
  have hunary := unary_replicate (b + 1) (low (bitLength n) b ++ (low n (bitLength n) ++ rest))
    position
  have hlength : (mat n).length = b + 1 + 1 + b + bitLength n := by
    rw [mat_natCast h, hb]
    simp
    omega
  rw [hlength, mat_natCast h, hb, Nat.add_sub_cancel, List.append_assoc, List.cons_append,
    List.append_assoc, Tape.rub, hunary]
  simp only [ok_bind, Nat.add_eq_zero_iff, one_ne_zero, and_false, if_false, Nat.add_sub_cancel]
  rw [number_low, ok_bind]
  simp only [hcount]
  rw [number_low, hvalue]
  congr 3
  omega

end Bits

end Nock
