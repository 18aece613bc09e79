import Nock.Proofs.Notebook.Held
import Nock.Proofs.Notebook.Routes

/-!
# Percent signs do not matter

A text may carry percent signs in front of its decimal digits, at the start of a number or inside
it.  `Marked` relates a text to the same text with such signs.  Dropping the signs undoes exactly
that: from a text without signs, all marked texts and no others are led back to it
(`dropPercentChars_eq_iff`).  It comes to the same to take a sign and the whole run of digits behind
it at a time (`dropPercentChars_eq_replaceRuns`), since no sign stands inside a run.

White space is cut off **before** the signs are dropped, so it has to be seen that a sign never hides
white space and never shows any: signs stand in front of digits, and neither is white space.  Hence
cutting it off keeps two texts marked versions of each other (`Marked.strip`).  From there on both
texts are the same text, whatever it asks for.
-/

namespace Nock.Notebook

/-! ## Dropping signs -/

/-- The second text is the first one with a percent sign in front of some of its decimal digits. -/
inductive Marked : (plain marked : List Char) → Prop
  | nil : Marked [] []
  | keep (c : Char) {plain marked : List Char} (h : Marked plain marked) :
      Marked (c :: plain) (c :: marked)
  | mark {d : Char} (hd : Text.isDecimal d = true) {plain marked : List Char}
      (h : Marked plain marked) : Marked (d :: plain) ('%' :: d :: marked)

variable {plain marked text : List Char} {c d : Char}

lemma isDecimal_percent : Text.isDecimal '%' = false := by decide

lemma ne_percent_of_isDecimal (hd : Text.isDecimal d = true) : d ≠ '%' := by
  rintro rfl
  rw [isDecimal_percent] at hd
  cases hd

lemma dropPercentChars_cons (hc : c ≠ '%') (text : List Char) :
    dropPercentChars (c :: text) = c :: dropPercentChars text := by
  rw [dropPercentChars.eq_2]
  rintro d rest rfl
  exact absurd rfl hc

/-- Digits stay, whatever follows them. -/
lemma dropPercentChars_digits {run : List Char} (hrun : ∀ d ∈ run, Text.isDecimal d = true)
    (text : List Char) : dropPercentChars (run ++ text) = run ++ dropPercentChars text := by
  induction run with
  | nil => rfl
  | cons d run ih =>
      obtain ⟨hd, hrun⟩ := List.forall_mem_cons.mp hrun
      rw [List.cons_append, dropPercentChars_cons (ne_percent_of_isDecimal hd), ih hrun,
        List.cons_append]

lemma dropPercentChars_percent (text : List Char) : dropPercentChars ('%' :: text) =
    if text.head?.any Text.isDecimal then dropPercentChars text else '%' :: dropPercentChars text := by
  cases text with
  | nil => rfl
  | cons d rest =>
      rw [dropPercentChars.eq_1, List.head?_cons, Option.any_some]

/-- Go through a text from the left, and replace each percent sign together with all decimal digits
right behind it, if there are any, by these digits. -/
def replaceRuns : List Char → List Char
  | [] => []
  | c :: text =>
      if c = '%' ∧ text.head?.any Text.isDecimal then
        text.takeWhile Text.isDecimal ++ replaceRuns (text.dropWhile Text.isDecimal)
      else
        c :: replaceRuns text
termination_by text => text.length
decreasing_by
  · exact Nat.lt_succ_of_le (List.dropWhile_sublist _).length_le
  · exact Nat.lt_succ_self _

/-- Replacing the digits of one number after the other drops the same signs. -/
lemma dropPercentChars_eq_replaceRuns (text : List Char) :
    dropPercentChars text = replaceRuns text := by
  fun_induction replaceRuns text with
  | case1 => rfl
  | case2 c text hrun ih =>
      obtain ⟨rfl, hdigit⟩ := hrun
      have hdigits : ∀ d ∈ text.takeWhile Text.isDecimal, Text.isDecimal d = true :=
        List.all_eq_true.mp List.all_takeWhile
      rw [dropPercentChars_percent, if_pos hdigit, ← ih, ← dropPercentChars_digits hdigits,
        List.takeWhile_append_dropWhile]
  | case3 c text hrun ih =>
      by_cases hc : c = '%'
      · subst hc
        rw [dropPercentChars_percent, if_neg fun hdigit => hrun ⟨rfl, hdigit⟩, ih]
      · rw [dropPercentChars_cons hc, ih]

/-! ## Marked texts -/

/-- **Dropping signs undoes marking, and nothing else.** -/
lemma dropPercentChars_eq_iff (hplain : '%' ∉ plain) :
    dropPercentChars marked = plain ↔ Marked plain marked := by
  constructor
  · intro h
    fun_induction dropPercentChars marked generalizing plain with
    | case1 d rest hd ih =>
        -- the sign in front of the digit is a new one
        cases ih hplain h with
        | keep _ hrest => exact .mark hd hrest
        | mark _ _ => cases isDecimal_percent.symm.trans hd
    | case2 d rest hd ih =>
        subst h
        exact absurd List.mem_cons_self hplain
    | case3 c rest _ ih =>
        subst h
        exact .keep c (ih (fun hrest => hplain (List.mem_cons_of_mem _ hrest)) rfl)
    | case4 =>
        subst h
        exact .nil
  · intro h
    induction h with
    | nil => rfl
    | keep c _ ih =>
        rw [List.mem_cons, not_or] at hplain
        rw [dropPercentChars_cons (Ne.symm hplain.1), ih hplain.2]
    | @mark d hd _ _ _ ih =>
        rw [List.mem_cons, not_or] at hplain
        rw [dropPercentChars_percent, if_pos (by simpa using hd),
          dropPercentChars_cons (Ne.symm hplain.1), ih hplain.2]

lemma Marked.eq_nil_iff (h : Marked plain marked) : plain = [] ↔ marked = [] := by
  cases h <;> simp

/-! ## White space -/

lemma isBlank_percent : Text.isBlank '%' = false := by decide

lemma walk_blanks_of_zeros : ∀ z ∈ Text.zeros, ∀ k ∈ List.range 10,
    Text.CharClass.walk (z + k) Text.blanks.switches false = false := by
  have h : (Text.zeros.all fun z => (List.range 10).all fun k =>
      !Text.CharClass.walk (z + k) Text.blanks.switches false) = true := by decide +kernel
  intro z hz k hk
  simpa using List.all_eq_true.mp (List.all_eq_true.mp h z hz) k hk

/-- No digit is white space. -/
lemma isBlank_of_isDecimal (hd : Text.isDecimal d = true) : Text.isBlank d = false := by
  rw [Text.isDecimal, Text.decimalValue?, Option.isSome_map, Option.isSome_iff_exists] at hd
  obtain ⟨z, hz⟩ := hd
  have hrange := List.find?_some hz
  simp only [Bool.and_eq_true, decide_eq_true_eq] at hrange
  have hwalk := walk_blanks_of_zeros z (List.mem_of_find?_eq_some hz) (d.toNat - z)
    (List.mem_range.mpr (by omega))
  rwa [show z + (d.toNat - z) = d.toNat by omega] at hwalk

lemma stripLeft_cons (c : Char) (text : List Char) : Text.stripLeft (c :: text) =
    if Text.isBlank c then Text.stripLeft text else c :: text := by
  rw [Text.stripLeft, List.dropWhile_cons, Text.stripLeft]

/-- A character is cut off at the end if it is white space with nothing left behind it. -/
lemma stripRight_cons (c : Char) (text : List Char) : Text.stripRight (c :: text) =
    if Text.isBlank c ∧ Text.stripRight text = [] then [] else c :: Text.stripRight text := by
  simp only [Text.stripRight, Text.stripLeft, List.reverse_cons, List.dropWhile_append,
    List.isEmpty_iff, List.reverse_eq_nil_iff]
  by_cases hempty : text.reverse.dropWhile Text.isBlank = []
  · by_cases hc : Text.isBlank c = true <;> simp [hempty, hc]
  · simp [hempty]

namespace Marked

lemma stripLeft (h : Marked plain marked) :
    Marked (Text.stripLeft plain) (Text.stripLeft marked) := by
  induction h with
  | nil => exact .nil
  | keep c h ih =>
      rw [stripLeft_cons, stripLeft_cons]
      split_ifs
      · exact ih
      · exact .keep c h
  | mark hd h _ =>
      rw [stripLeft_cons, stripLeft_cons, isBlank_of_isDecimal hd, isBlank_percent]
      exact .mark hd h

lemma stripRight (h : Marked plain marked) :
    Marked (Text.stripRight plain) (Text.stripRight marked) := by
  induction h with
  | nil => exact .nil
  | keep c h ih =>
      simp only [stripRight_cons, ih.eq_nil_iff]
      split_ifs
      · exact .nil
      · exact .keep c ih
  | mark hd h ih =>
      simp only [stripRight_cons, isBlank_of_isDecimal hd, isBlank_percent, Bool.false_eq_true,
        false_and, if_false]
      exact .mark hd ih

/-- Cutting off white space cuts off the same on both sides. -/
lemma strip (h : Marked plain marked) : Marked (Text.strip plain) (Text.strip marked) :=
  h.stripLeft.stripRight

end Marked

lemma not_mem_strip (hc : c ∉ text) : c ∉ Text.strip text := by
  intro hmem
  rw [Text.strip, Text.stripRight, List.mem_reverse] at hmem
  have hleft := List.mem_reverse.mp ((List.dropWhile_sublist _).subset hmem)
  exact hc ((List.dropWhile_sublist _).subset hleft)

/-! ## Commands -/

/-- A marked text asks for what the plain one asks for. -/
lemma ofText?_marked (hplain : '%' ∉ plain) (h : Marked plain marked) :
    Command.ofText? marked = Command.ofText? plain := by
  have hstrip := not_mem_strip hplain
  have hdrop := (dropPercentChars_eq_iff hstrip).mpr h.strip
  have hempty : (Text.strip marked).isEmpty = (Text.strip plain).isEmpty := by
    rw [Bool.eq_iff_iff, List.isEmpty_iff, List.isEmpty_iff, h.strip.eq_nil_iff]
  simp only [Command.ofText?, hempty, hdrop, dropPercentChars_eq_self hstrip]

/-- A desk sees of a text only what it asks for. -/
lemma Desk.execute_congr (h : Command.ofText? marked = Command.ofText? plain) (bound : Nat)
    (silent : Bool) (desk : Desk) :
    desk.execute bound silent marked = desk.execute bound silent plain := by
  cases hplain : Command.ofText? plain with
  | none => rw [Desk.execute_of_none hplain, Desk.execute_of_none (h.trans hplain)]
  | some command => rw [Desk.execute_of_some hplain, Desk.execute_of_some (h.trans hplain)]

/-- **Percent signs in front of digits do not matter.**  Let a code have no percent sign, and let
another one be the same with a percent sign in front of any of its decimal digits.  Then dropping the
signs, which is to replace each of them and the digits behind it by these digits, leads back to the
code.  Every kernel of every notebook, silent or not, gives the same answer to both, and both leave the
same notebook.  The same holds of notebooks that hold their nouns in a store, down to the cells. -/
theorem execute_marked {code code' : String} (hcode : '%' ∉ code.toList)
    (hmarked : Marked code.toList code'.toList) (bound : Nat) (number : Int) (silent : Bool) :
    (∀ text, dropPercentChars text = replaceRuns text) ∧ replaceRuns code'.toList = code.toList ∧
    (∀ nb : Notebook,
      nb.execute bound number silent code' = nb.execute bound number silent code) ∧
    ∀ held : Held,
      held.execute bound number silent code' = held.execute bound number silent code := by
  have hsame := ofText?_marked hcode hmarked
  refine ⟨dropPercentChars_eq_replaceRuns, ?_, fun nb => ?_, fun held => ?_⟩
  · rw [← dropPercentChars_eq_replaceRuns, (dropPercentChars_eq_iff hcode).mpr hmarked]
  · rw [Notebook.execute, Notebook.execute, Desk.execute_congr hsame]
  · rw [Held.execute, Held.execute, hsame]

/-- Signs at the start of a number and inside it, in a text with white space at its ends and with a
variable. -/
theorem execute_marked_numbers :
    let code := "\t.*([a 20] [4 0 3]) "
    let code' := "\t.*([a %2%0] [4 %0 %3]) "
    let nb : Notebook := ⟨[], [("a", .cell (.atom 1) (.atom 2))]⟩
    ('%' ∉ code.toList ∧ Marked code.toList code'.toList) ∧
    nb.execute 9 0 false code' = nb.execute 9 0 false code ∧
      (nb.execute 9 0 false code).1 = ⟨none, [.output "21\n"]⟩ := by
  intro code code' nb
  have hcode : '%' ∉ code.toList := by decide +kernel
  have hmarked : Marked code.toList code'.toList :=
    (dropPercentChars_eq_iff hcode).mp (by decide +kernel)
  exact ⟨⟨hcode, hmarked⟩, (execute_marked hcode hmarked 9 0 false).2.2.1 nb, by decide +kernel⟩

end Nock.Notebook
