import Mathlib.Order.Bounds.Basic
import Mathlib.Order.Nat
import Nock.Proofs.Grammar

/-!
# Where a text goes wrong

A fault of a text comes with a position, and the position means something.  A text is **viable** if it
can be continued to the text of a noun.

* Three faults are found at a character.  The text in front of it is viable, and with the character
  it is not (`HopelessAt`), so this is the first place where the text cannot be saved.  Which fault it
  is depends on the character alone (`CallsFor`).
* The fault of an unclosed bracket is found at the end.  The whole text is viable, and the position is
  that of the innermost bracket that is still open (`OpenAt`).

**Why texts are viable.**  A number that has been read so far can be ended, and then every open
bracket can be closed (`exists_finish_of_endNumber`).  So whatever has been read without a fault is
viable, and what has failed once fails with every continuation.

**Which brackets are open.**  The reader keeps the positions of the open brackets, the innermost one
first.  The invariant says that the text consists of these brackets and, in front of, between and
behind them, of texts whose brackets are paired (`Opens`).

`Verdict` puts this together: one of three things happens to a text, and they exclude each other.
-/

namespace Nock.Noun

variable {cs rest before after text numeral : List Char} {c : Char} {i p q : Nat} {ps : List Nat}

/-! ## Open brackets -/

/-- Every closing bracket of the text has an opening one in front of it. -/
def Covered (cs : List Char) : Prop :=
  ∀ before, before <+: cs → before.count ']' ≤ before.count '['

/-- The text has an opening bracket at the position, and behind it no closing bracket is left for it. -/
def OpenAt (cs : List Char) (position : Nat) : Prop :=
  ∃ before inside, cs = before ++ '[' :: inside ∧ before.length = position ∧ Covered inside

/-- Every bracket of the text has its partner in the text. -/
structure Paired (cs : List Char) : Prop where
  covered : Covered cs
  count_eq : cs.count ']' = cs.count '['

/-- The text has opening brackets at the positions, the last one first, and all its other brackets are
paired, in front of, between and behind these. -/
inductive Opens : (positions : List Nat) → List Char → Prop
  | nothing {cs : List Char} (h : Paired cs) : Opens [] cs
  | inside {positions : List Nat} {before inside : List Char} (hbefore : Opens positions before)
      (hinside : Paired inside) : Opens (before.length :: positions) (before ++ '[' :: inside)

lemma covered_nil : Covered [] := by
  intro before hbefore
  rw [List.prefix_nil] at hbefore
  simp [hbefore]

lemma Covered.of_prefix (h : Covered cs) (hbefore : before <+: cs) : Covered before := by
  intro start hstart
  exact h start (hstart.trans hbefore)

lemma covered_concat : Covered (cs ++ [c]) ↔
    Covered cs ∧ (cs ++ [c]).count ']' ≤ (cs ++ [c]).count '[' := by
  constructor
  · intro h
    exact ⟨h.of_prefix (List.prefix_append _ _), h _ (List.prefix_refl _)⟩
  · rintro ⟨hcs, hcount⟩ before hbefore
    rcases List.prefix_concat_iff.mp hbefore with rfl | hbefore
    · exact hcount
    · exact hcs before hbefore

lemma Covered.append (hcs : Covered cs) (hrest : Covered rest) : Covered (cs ++ rest) := by
  intro before hbefore
  rcases Nat.le_total before.length cs.length with hle | hle
  · exact hcs before
      (List.prefix_of_prefix_length_le hbefore (List.prefix_append cs rest) hle)
  · obtain ⟨more, rfl⟩ :=
      List.prefix_of_prefix_length_le (List.prefix_append cs rest) hbefore hle
    have hmore := hrest more ((List.prefix_append_right_inj cs).mp hbefore)
    have hwhole := hcs cs (List.prefix_refl cs)
    rw [List.count_append, List.count_append]
    omega

lemma covered_singleton (hc : c ≠ ']') : Covered [c] := by
  rw [← List.nil_append [c], covered_concat]
  exact ⟨covered_nil, by simp [hc]⟩

lemma Covered.bracket (h : Covered cs) : Covered ('[' :: cs) :=
  (covered_singleton (by decide)).append h

lemma OpenAt.lt_length (h : OpenAt cs q) : q < cs.length := by
  obtain ⟨before, inside, rfl, rfl, -⟩ := h
  simp

namespace Paired

lemma nil : Paired [] := ⟨covered_nil, rfl⟩

lemma append (hcs : Paired cs) (hrest : Paired rest) : Paired (cs ++ rest) :=
  ⟨hcs.covered.append hrest.covered, by simp [hcs.count_eq, hrest.count_eq]⟩

lemma singleton (hopen : c ≠ '[') (hclose : c ≠ ']') : Paired [c] :=
  ⟨covered_singleton hclose, by simp [hopen, hclose]⟩

lemma bracket (h : Paired cs) : Paired ('[' :: cs ++ [']']) := by
  have hcount : ('[' :: cs ++ [']']).count ']' = ('[' :: cs ++ [']']).count '[' := by
    simp [h.count_eq]
  exact ⟨covered_concat.mpr ⟨h.covered.bracket, hcount.le⟩, hcount⟩

/-- An open bracket would be one more than there are closing ones. -/
lemma not_openAt (h : Paired cs) : ¬OpenAt cs q := by
  rintro ⟨before, inside, rfl, -, hinside⟩
  have hbefore := h.covered before (List.prefix_append _ _)
  have hinside := hinside inside (List.prefix_refl _)
  have hcount := h.count_eq
  simp only [List.count_append, List.count_cons] at hcount
  simp at hcount
  omega

end Paired

namespace Opens

lemma append (h : Opens ps cs) (hrest : Paired rest) : Opens ps (cs ++ rest) := by
  cases h with
  | nothing hcs => exact .nothing (hcs.append hrest)
  | inside hbefore hinside =>
      rw [List.append_assoc, List.cons_append]
      exact .inside hbefore (hinside.append hrest)

lemma opening (h : Opens ps cs) : Opens (cs.length :: ps) (cs ++ ['[']) :=
  .inside h .nil

/-- A closing bracket closes the innermost open one. -/
lemma closing (h : Opens (p :: ps) cs) : Opens ps (cs ++ [']']) := by
  cases h with
  | inside hbefore hinside =>
      rw [List.append_assoc]
      exact hbefore.append hinside.bracket

/-- The positions are those of the open brackets. -/
lemma mem_iff (h : Opens ps cs) : q ∈ ps ↔ OpenAt cs q := by
  induction h with
  | nothing hcs => simp [hcs.not_openAt]
  | @inside positions before inside _ hinside ih =>
      rw [List.mem_cons, ih]
      constructor
      · rintro (rfl | ⟨left, right, rfl, rfl, hright⟩)
        · exact ⟨before, inside, rfl, rfl, hinside.covered⟩
        · exact ⟨left, right ++ '[' :: inside, by simp, rfl,
            hright.append hinside.covered.bracket⟩
      · -- the open bracket is the last one, or it stands in front of it, or it would be open inside
        rintro ⟨left, right, heq, rfl, hright⟩
        rcases List.append_eq_append_iff.mp heq with ⟨between, rfl, hrest⟩ | ⟨between, rfl, hrest⟩
        · rcases List.append_eq_cons_iff.mp hrest.symm with ⟨rfl, -⟩ | ⟨more, rfl, rfl⟩
          · exact .inl (by simp)
          · exact absurd ⟨more, right, rfl, rfl, hright⟩ hinside.not_openAt
        · rcases List.append_eq_cons_iff.mp hrest.symm with ⟨rfl, -⟩ | ⟨more, rfl, rfl⟩
          · exact .inl (by simp)
          · exact .inr ⟨left, more, rfl, rfl, hright.of_prefix (List.prefix_append _ _)⟩

/-- The first position is the last open bracket of the text. -/
lemma isGreatest (h : Opens (p :: ps) cs) : IsGreatest {q | OpenAt cs q} p := by
  refine ⟨h.mem_iff.mp List.mem_cons_self, ?_⟩
  intro q hq
  rcases List.mem_cons.mp (h.mem_iff.mpr hq) with rfl | hmem
  · exact Nat.le_refl q
  · cases h with
    | inside hbefore _ => exact (hbefore.mem_iff.mp hmem).lt_length.le

end Opens

/-! ## The brackets that the reader holds -/

/-- The positions of the open brackets, the innermost one first.  The outermost sequence has none. -/
def openings (inner : Frame) : List Frame → List Nat
  | [] => []
  | around :: outer => inner.opening :: openings around outer

@[simp] lemma openings_push (f : Frame) (n : Noun) (outer : List Frame) :
    openings (f.push n) outer = openings f outer := by
  cases outer <;> rfl

namespace Scan

variable {s s' : Scan} {fault : Fault}

lemma openings_endNumber (h : s.endNumber = .ok s') :
    openings s'.inner s'.outer = openings s.inner s.outer := by
  rw [endNumber] at h
  split_ifs at h
  · cases h
    rfl
  · obtain ⟨k, -, heq⟩ := bind_eq_ok.mp h
    cases heq
    exact openings_push _ _ _

/-- A character keeps the account of the open brackets. -/
lemma opens_step (hs : Opens (openings s.inner s.outer) cs) (h : s.step cs.length c = .ok s') :
    Opens (openings s'.inner s'.outer) (cs ++ [c]) := by
  rw [step] at h
  split_ifs at h with hopen hclose hspace hdot hempty hdigit
  · subst hopen
    obtain ⟨s₁, hs₁, heq⟩ := bind_eq_ok.mp h
    cases heq
    rw [← openings_endNumber hs₁] at hs
    exact hs.opening
  · subst hclose
    cases houter : s.outer with
    | nil => simp [houter] at h
    | cons around outer =>
        rw [houter] at h hs
        obtain ⟨s₁, hs₁, heq⟩ := bind_eq_ok.mp h
        cases heq
        rw [openings_push]
        exact hs.closing
  · rw [openings_endNumber h]
    exact hs.append (.singleton hopen hclose)
  · cases h
    exact hs.append (.singleton hopen hclose)
  · cases h
    exact hs.append (.singleton hopen hclose)

/-- A text keeps the account of the open brackets. -/
lemma opens_run (hs : Opens (openings s.inner s.outer) before)
    (h : s.run before.length cs = .ok s') : Opens (openings s'.inner s'.outer) (before ++ cs) := by
  induction cs generalizing s before with
  | nil =>
      cases h
      simpa using hs
  | cons c cs ih =>
      obtain ⟨s₁, hs₁, hrest⟩ := bind_eq_ok.mp h
      have hrest : s₁.run (before ++ [c]).length cs = .ok s' := by simpa using hrest
      simpa using ih (opens_step hs hs₁) hrest

/-! ## Faults at a character -/

/-- A text that is not read fails at its first character that is not. -/
lemma exists_step_of_run_error {position : Nat} (h : s.run position cs = .error fault) :
    ∃ before c after s', cs = before ++ c :: after ∧ s.run position before = .ok s' ∧
      s'.step (position + before.length) c = .error fault := by
  induction cs generalizing s position with
  | nil => cases h
  | cons c cs ih =>
      rw [run] at h
      cases hstep : s.step position c with
      | error e =>
          rw [hstep, error_bind] at h
          cases h
          exact ⟨[], c, cs, s, rfl, rfl, hstep⟩
      | ok s₁ =>
          rw [hstep, ok_bind] at h
          obtain ⟨before, d, after, s', rfl, hbefore, hfault⟩ := ih h
          refine ⟨c :: before, d, after, s', rfl, by rw [run, hstep, ok_bind, hbefore], ?_⟩
          rwa [List.length_cons, Nat.add_comm before.length, ← Nat.add_assoc]

end Scan

/-- May the character stand in the text of a noun? -/
def isNounChar (c : Char) : Bool :=
  isNumeralChar c || c == '[' || c == ']' || c == ' '

/-- The fault that a character at the position calls for where it cannot stand. -/
inductive CallsFor (position : Nat) : Char → Fault → Prop
  | closing : CallsFor position ']' (.unmatched position)
  | dot : CallsFor position '.' (.strayDot position)
  | stray {c : Char} (hc : isNounChar c = false) : CallsFor position c (.strayChar c position)

lemma CallsFor.unique {fault fault' : Fault} (h : CallsFor i c fault) (h' : CallsFor i c fault') :
    fault = fault' := by
  cases h with
  | closing =>
      cases h' with
      | closing => rfl
      | stray hc => exact absurd hc (by decide)
  | dot =>
      cases h' with
      | dot => rfl
      | stray hc => exact absurd hc (by decide)
  | stray hc =>
      cases h' with
      | closing => exact absurd hc (by decide)
      | dot => exact absurd hc (by decide)
      | stray _ => rfl

/-- The fault tells the character and its position. -/
lemma CallsFor.position_unique {j : Nat} {d : Char} {fault : Fault} (h : CallsFor i c fault)
    (h' : CallsFor j d fault) : i = j ∧ c = d := by
  cases h <;> cases h' <;> exact ⟨rfl, rfl⟩

/-- Where the number before it can be ended, a character fails only for its own sake. -/
lemma Scan.callsFor_of_step {s s' : Scan} {fault : Fault} (hend : s.endNumber = .ok s')
    (h : s.step i c = .error fault) : CallsFor i c fault := by
  rw [step, hend] at h
  split_ifs at h with hopen hclose hspace hdot hempty hdigit
  · cases h
  · subst hclose
    cases houter : s.outer with
    | nil =>
        rw [houter] at h
        cases h
        exact .closing
    | cons around outer =>
        rw [houter] at h
        cases h
  · subst hdot
    cases h
    exact .dot
  · cases h
    exact .stray (by simp [isNounChar, isNumeralChar, hopen, hclose, hspace, hdot, hdigit])

/-! ## Viable texts -/

/-- The text can be continued to the text of a noun. -/
def Viable (cs : List Char) : Prop :=
  ∃ text : String, cs <+: text.toList ∧ ∃ n, parse text = .ok n

/-- The text goes wrong at the position: in front of the character there it is viable, and with the
character it is not. -/
structure HopelessAt (cs : List Char) (position : Nat) (c : Char) : Prop where
  char : cs[position]? = some c
  viable : Viable (cs.take position)
  hopeless : ¬Viable (cs.take (position + 1))

lemma viable_iff : Viable cs ↔ ∃ rest n, parseChars (cs ++ rest) = .ok n := by
  constructor
  · rintro ⟨text, ⟨rest, hrest⟩, n, hn⟩
    exact ⟨rest, n, by rw [hrest]; exact hn⟩
  · rintro ⟨rest, n, hn⟩
    exact ⟨String.ofList (cs ++ rest), by simp, n, by rw [parse, String.toList_ofList, hn]⟩

lemma Viable.of_prefix (h : Viable cs) (hbefore : before <+: cs) : Viable before := by
  obtain ⟨text, hcs, hn⟩ := h
  exact ⟨text, hbefore.trans hcs, hn⟩

/-- What has failed fails with every continuation. -/
lemma not_viable_of_run {fault : Fault} (h : Scan.run {} 0 cs = .error fault) : ¬Viable cs := by
  rw [viable_iff]
  rintro ⟨rest, n, hn⟩
  rw [parseChars, Scan.run_append, h] at hn
  cases hn

/-- A reader that can end its number can close its brackets one after the other, and then it has read
a noun. -/
lemma exists_finish_of_endNumber {s s' : Scan} (hend : s.endNumber = .ok s') (position : Nat) :
    ∃ n, s.run position (List.replicate s.outer.length ']') >>= Scan.finish = .ok n := by
  generalize houter : s.outer = outer
  induction outer generalizing s s' position with
  | nil =>
      refine ⟨s'.inner.close, ?_⟩
      rw [List.length_nil, List.replicate_zero, Scan.run, ok_bind, Scan.finish, houter, hend]
      rfl
  | cons around outer ih =>
      let closed : Scan := { s' with inner := around.push s'.inner.close, outer := outer }
      have hstep : s.step position ']' = .ok closed := by
        simp only [Scan.step, houter, hend]
        rfl
      obtain ⟨n, hn⟩ := ih (s := closed)
        (Scan.endNumber_of_nil (Scan.endNumber_inv hend).1) (position + 1) rfl
      refine ⟨n, ?_⟩
      rw [List.length_cons, List.replicate_succ, Scan.run, hstep, ok_bind, hn]

lemma viable_of_run {s s' : Scan} (hrun : Scan.run {} 0 cs = .ok s) (hend : s.endNumber = .ok s') :
    Viable cs := by
  obtain ⟨n, hn⟩ := exists_finish_of_endNumber hend (0 + cs.length)
  exact viable_iff.mpr ⟨_, n, by rw [parseChars, Scan.run_append, hrun, ok_bind, hn]⟩

namespace HopelessAt

lemma not_viable (h : HopelessAt cs i c) : ¬Viable cs :=
  fun hcs => h.hopeless (hcs.of_prefix (List.take_prefix _ _))

lemma le {j : Nat} {d : Char} (h : HopelessAt cs i c) (h' : HopelessAt cs j d) : i ≤ j := by
  by_contra hlt
  exact h'.hopeless (h.viable.of_prefix (List.take_prefix_take_left (by omega)))

/-- A text goes wrong at one position only. -/
lemma unique {j : Nat} {d : Char} (h : HopelessAt cs i c) (h' : HopelessAt cs j d) :
    i = j ∧ c = d := by
  obtain rfl : i = j := Nat.le_antisymm (h.le h') (h'.le h)
  exact ⟨rfl, Option.some.inj (h.char.symm.trans h'.char)⟩

end HopelessAt

/-! ## Texts with readable numerals -/

/-- All digits of the text are decimal, and no numeral in it has too many of them. -/
structure ReadableText (text : List Char) : Prop where
  decimal : ∀ c ∈ text, Text.isDigit c = true → Text.isDecimal c = true
  short : ∀ numeral, NumeralIn numeral text → (digitsOf numeral).length ≤ Decimal.maxDigits

lemma Surrounds.endsNumeral_eq {outer : List Frame} (h : Surrounds outer before) :
    endsNumeral before = false := by
  cases h with
  | outermost => rfl
  | inside _ _ =>
      rw [endsNumeral_append]
      rfl

/-- The beginning of a numeral of the text is readable: the whole numeral has no fewer digits. -/
lemma ReadableText.readable (h : ReadableText (before ++ numeral ++ rest))
    (hnumeral : isNumeral numeral = true) (hbefore : endsNumeral before = false) :
    Readable numeral := by
  obtain ⟨d, digits, rfl, hd, hdigits⟩ := exists_cons_of_isNumeral hnumeral
  let whole := d :: (digits ++ rest.takeWhile isNumeralChar)
  have hwhole : NumeralIn whole (before ++ (d :: digits) ++ rest) := by
    refine ⟨isNumeral_cons hd ?_, before, rest.dropWhile isNumeralChar, ?_, hbefore, ?_⟩
    · rw [List.all_append, hdigits, List.all_takeWhile, Bool.and_self]
    · simp [whole, List.takeWhile_append_dropWhile]
    · have hhead := List.head?_dropWhile_not isNumeralChar rest
      rw [startsNumeral]
      cases hdrop : (rest.dropWhile isNumeralChar).head? with
      | none => rfl
      | some e => simpa [hdrop] using hhead
  refine ⟨fun c hc => ?_, ?_⟩
  · obtain ⟨hmem, hdigit⟩ := List.mem_filter.mp hc
    exact h.decimal c (by simp only [List.mem_append]; exact .inl (.inr hmem)) hdigit
  · have hle : (digitsOf (d :: digits)).length ≤ (digitsOf whole).length :=
      ((List.prefix_append (d :: digits) _).filter _).length_le
    exact hle.trans (h.short whole hwhole)

/-- In a text with readable numerals, a number can be ended wherever the reader stands. -/
lemma Scan.HasRead.exists_endNumber {s : Scan} (hs : s.HasRead cs) (h : ReadableText (cs ++ rest)) :
    ∃ s', s.endNumber = .ok s' := by
  obtain ⟨before, numeral, d, hbefore, hd, hends, hnumeral, hdigits⟩ := hs
  rcases hnumeral with rfl | hnumeral
  · exact ⟨s, endNumber_of_nil hdigits⟩
  · have hfront : endsNumeral (before ++ d.text) = false := by
      rw [endsNumeral_append]
      split_ifs
      · exact hbefore.endsNumeral_eq
      · exact hends
    have hnumber := readNumber_digitsOf.mpr ⟨h.readable hnumeral hfront, rfl⟩
    rw [endNumber_numeral hdigits hnumeral, hnumber]
    exact ⟨_, rfl⟩

/-! ## The verdict on a text -/

/-- What can happen to a text: it is read, or brackets of it are left open, or it goes wrong at a
character. -/
inductive Verdict (cs : List Char) : Except Fault Noun → Prop
  | read (n : Noun) (hviable : Viable cs) (hclosed : ∀ q, ¬OpenAt cs q) : Verdict cs (.ok n)
  | unclosed (p : Nat) (hviable : Viable cs) (hopen : IsGreatest {q | OpenAt cs q} p) :
      Verdict cs (.error (.unclosed p))
  | hopeless (i : Nat) (c : Char) (fault : Fault) (hat : HopelessAt cs i c)
      (hfault : CallsFor i c fault) : Verdict cs (.error fault)

/-- A text whose reading stops at a character goes wrong there. -/
lemma hopelessAt_of_step {s s' : Scan} {fault : Fault} (hrun : Scan.run {} 0 before = .ok s)
    (hend : s.endNumber = .ok s') (hstep : s.step before.length c = .error fault) :
    HopelessAt (before ++ c :: after) before.length c := by
  have hfail : Scan.run {} 0 (before ++ [c]) = .error fault := by
    rw [Scan.run_append, hrun, ok_bind, Scan.run, Nat.zero_add, hstep, error_bind]
  refine ⟨by simp, ?_, ?_⟩
  · rw [List.take_left]
    exact viable_of_run hrun hend
  · rw [show before ++ c :: after = (before ++ [c]) ++ after by simp,
      List.take_left' (by simp)]
    exact not_viable_of_run hfail

/-- **One of the three happens**, provided that all numerals are readable: no fault comes from a
number then. -/
lemma verdict (h : ReadableText cs) : Verdict cs (parseChars cs) := by
  have hstart : Scan.HasRead {} [] := .between (s := {}) .outermost (.done 0) rfl rfl
  have hnone : Opens (openings ({} : Scan).inner ({} : Scan).outer) [] := .nothing .nil
  rw [parseChars]
  cases hrun : Scan.run {} 0 cs with
  | error fault =>
      obtain ⟨before, c, after, s, rfl, hbefore, hstep⟩ := Scan.exists_step_of_run_error hrun
      rw [Nat.zero_add] at hstep
      obtain ⟨s', hend⟩ := (hstart.run hbefore).exists_endNumber h
      exact .hopeless _ c fault (hopelessAt_of_step hbefore hend hstep)
        (Scan.callsFor_of_step hend hstep)
  | ok s =>
      have hwhole : ReadableText (cs ++ []) := by rwa [List.append_nil]
      obtain ⟨s', hend⟩ := (hstart.run hrun).exists_endNumber hwhole
      have hviable := viable_of_run hrun hend
      have hopens := Scan.opens_run hnone hrun
      rw [ok_bind, Scan.finish]
      cases houter : s.outer with
      | nil =>
          rw [houter] at hopens
          rw [List.isEmpty_nil, if_pos rfl, hend]
          exact .read _ hviable fun q hq => List.not_mem_nil (hopens.mem_iff.mpr hq)
      | cons around outer =>
          rw [houter] at hopens
          exact .unclosed _ hviable hopens.isGreatest

/-- A fault that a character calls for is answered exactly where the text goes wrong at it. -/
lemma parseChars_error_iff (h : ReadableText cs) {fault : Fault} (hfault : CallsFor i c fault) :
    parseChars cs = .error fault ↔ HopelessAt cs i c := by
  generalize hresult : parseChars cs = result
  have hverdict := hresult ▸ verdict h
  cases hverdict with
  | read n hviable _ => exact iff_of_false nofun fun hat => hat.not_viable hviable
  | unclosed p hviable _ =>
      refine iff_of_false ?_ fun hat => hat.not_viable hviable
      rintro ⟨⟩
      cases hfault
  | hopeless j d fault' hat hfault' =>
      constructor
      · rintro ⟨⟩
        obtain ⟨rfl, rfl⟩ := hfault.position_unique hfault'
        exact hat
      · intro hat'
        obtain ⟨rfl, rfl⟩ := hat'.unique hat
        rw [hfault'.unique hfault]

/-- An open bracket is reported exactly if there is one and the text is viable, and it is the last. -/
lemma parseChars_unclosed_iff (h : ReadableText cs) : parseChars cs = .error (.unclosed p) ↔
    Viable cs ∧ IsGreatest {q | OpenAt cs q} p := by
  generalize hresult : parseChars cs = result
  have hverdict := hresult ▸ verdict h
  cases hverdict with
  | read n _ hclosed => exact iff_of_false nofun fun hopen => hclosed p hopen.2.1
  | unclosed p' hviable hopen =>
      constructor
      · rintro ⟨⟩
        exact ⟨hviable, hopen⟩
      · intro hopen'
        rw [hopen.unique hopen'.2]
  | hopeless i c fault hat hfault =>
      refine iff_of_false ?_ fun hopen => hat.not_viable hopen.1
      rintro ⟨⟩
      cases hfault

lemma isNounChar_of_parseChars (h : ReadableText cs)
    (hparse : parseChars cs = .error (.strayChar c i)) : isNounChar c = false := by
  have hverdict := hparse ▸ verdict h
  cases hverdict with
  | hopeless j d fault _ hfault =>
      cases hfault with
      | stray hc => exact hc

/-- **The position of a fault.**  Let the numerals of a text be readable.  A closing bracket, a dot or
a foreign character is reported at a position exactly if it stands there, the text in front of it can
be continued to the text of a noun, and no continuation saves the text once it has been read.  An
unclosed bracket is reported exactly if the whole text can be continued, and it is the last bracket
that is left open. -/
theorem parse_faults_located (text : String) (htext : ReadableText text.toList) :
    (∀ i, (parse text = .error (.unmatched i) ↔ HopelessAt text.toList i ']') ∧
      Fault.message (.unmatched i) = "unmatched ] at " ++ Nat.repr i) ∧
    (∀ i, (parse text = .error (.strayDot i) ↔ HopelessAt text.toList i '.') ∧
      Fault.message (.strayDot i) = "floating dot at " ++ Nat.repr i) ∧
    (∀ c i, (parse text = .error (.strayChar c i) ↔
        HopelessAt text.toList i c ∧ isNounChar c = false) ∧
      Fault.message (.strayChar c i)
        = "unrecognized character " ++ c.toString ++ " at " ++ Nat.repr i) ∧
    (∀ p, (parse text = .error (.unclosed p) ↔
        Viable text.toList ∧ IsGreatest {q | OpenAt text.toList q} p) ∧
      Fault.message (.unclosed p) = "unclosed [ at " ++ Nat.repr p) := by
  refine ⟨?_, ?_, ?_, ?_⟩
  · intro i
    exact ⟨parseChars_error_iff htext .closing, rfl⟩
  · intro i
    exact ⟨parseChars_error_iff htext .dot, rfl⟩
  · intro c i
    refine ⟨⟨fun h => ?_, fun h => ?_⟩, rfl⟩
    · have hc := isNounChar_of_parseChars htext h
      exact ⟨(parseChars_error_iff htext (.stray hc)).mp h, hc⟩
    · exact (parseChars_error_iff htext (.stray h.2)).mpr h.1
  · intro p
    exact ⟨parseChars_unclosed_iff htext, rfl⟩

lemma readableText_of_all (h : (cs.all fun c => !Text.isDigit c || Text.isDecimal c) = true)
    (hlength : cs.length ≤ Decimal.maxDigits) : ReadableText cs :=
  ⟨isDecimal_of_all h, fun _ hnumeral => le_trans hnumeral.length_le hlength⟩

/-- The bracket too many in `[1 2.]]3`, the dot in `7 .5`, the letter in `[1 x`, and the last of the
two brackets that `[1 [2 3] [4 ` leaves open. -/
theorem parse_faults_located_each :
    (ReadableText "[1 2.]]3".toList ∧ HopelessAt "[1 2.]]3".toList 6 ']') ∧
    (ReadableText "7 .5".toList ∧ HopelessAt "7 .5".toList 2 '.') ∧
    (ReadableText "[1 x".toList ∧ HopelessAt "[1 x".toList 3 'x' ∧ isNounChar 'x' = false) ∧
    (ReadableText "[1 [2 3] [4 ".toList ∧ Viable "[1 [2 3] [4 ".toList ∧
      IsGreatest {q | OpenAt "[1 [2 3] [4 ".toList q} 9) := by
  have hclosing : ReadableText "[1 2.]]3".toList :=
    readableText_of_all (by decide +kernel) (by decide +kernel)
  have hdot : ReadableText "7 .5".toList :=
    readableText_of_all (by decide +kernel) (by decide +kernel)
  have hstray : ReadableText "[1 x".toList :=
    readableText_of_all (by decide +kernel) (by decide +kernel)
  have hopen : ReadableText "[1 [2 3] [4 ".toList :=
    readableText_of_all (by decide +kernel) (by decide +kernel)
  exact ⟨⟨hclosing, ((parse_faults_located _ hclosing).1 6).1.mp (by decide +kernel)⟩,
    ⟨hdot, ((parse_faults_located _ hdot).2.1 2).1.mp (by decide +kernel)⟩,
    ⟨hstray, ((parse_faults_located _ hstray).2.2.1 'x' 3).1.mp (by decide +kernel)⟩,
    ⟨hopen, ((parse_faults_located _ hopen).2.2.2 9).1.mp (by decide +kernel)⟩⟩

end Nock.Noun
