import Nock.Proofs.Branch
import Nock.Proofs.Store.Refinement
import Nock.Workload.Evaluating

/-!
# Counting up to subtract one

The machine can add one and cannot subtract, so `[8 [1 0] 8 [1 loop] 9 2 0 1]` counts.  It puts a
counter and the loop in front of its subject, which makes a **core** `[loop count target]`, and calls
the loop.  A turn of the loop ends with the counter if the next number is the target, and otherwise
calls the loop again, in a core with the next number.

**One turn** (`nock_loop`) is an equation.  It says what the bound is afterwards as well: three levels
of nesting are used up, because the last step of an evaluation nests too.  Below a bound of nine no
turn is completed.

**All turns.**  Both halves go by the bound and over all counters.  A target above the counter is
reached, and the bound that this takes is exact (`nock_loop_of_lt`).  If the target is not an atom
above the counter, neither is it above the next one, and the loop meets every bound
(`nock_loop_of_not_above`).
-/

namespace Nock

open StoreM hiding look same copy
open Noun Memory

/-! ## Rules as equations -/

section

variable (bound : Nat) (a b c : Noun)

lemma nock_const : Noun.nock (bound + 1) a (formula 1 b) = .ok b := rfl

lemma nock_apply :
    Noun.nock (bound + 1) a (formula 2 (.cell b c))
      = Noun.nock bound a b >>= fun subject => Noun.nock bound a c >>= Noun.nock bound subject := rfl

lemma nock_same :
    Noun.nock (bound + 1) a (formula 5 (.cell b c))
      = Noun.nock bound a b >>= fun left => Noun.nock bound a c >>= fun right =>
          .ok (.atom (if left == right then 0 else 1)) := rfl

lemma nock_push :
    Noun.nock (bound + 1) a (formula 8 (.cell b c))
      = Noun.nock bound a b >>= fun pinned => Noun.nock bound (.cell pinned a) c := rfl

lemma nock_call :
    Noun.nock (bound + 1) a (formula 9 (.cell b c))
      = Noun.nock bound a c >>= fun core =>
          Noun.nock bound core (formula 2 (.cell (formula 0 (.atom 1)) (formula 0 b))) := rfl

/-- Calling a formula of a core looks it up and evaluates it against the whole core. -/
lemma nock_called (x : Int) :
    Noun.nock (bound + 3) a (formula 2 (.cell (formula 0 (.atom 1)) (formula 0 (.atom x))))
      = slot (bound + 1) x a >>= Noun.nock (bound + 2) a := by
  rw [nock_apply, nock_slot, nock_slot, slotAt_atom, slotAt_atom, slot_one, ok_bind]

lemma slot_two : slot (bound + 2) 2 (Noun.cell a b) = (.ok a : Except Fault Noun) := rfl

lemma slot_six :
    slot (bound + 3) 6 (Noun.cell a (.cell b c)) = (.ok b : Except Fault Noun) := rfl

lemma slot_seven :
    slot (bound + 3) 7 (Noun.cell a (.cell b c)) = (.ok c : Except Fault Noun) := rfl

end

/-! ## The program -/

namespace Decrement

/-- Is the target the number after the counter? -/
def isNext : Noun :=
  formula 5 (.cell (formula 0 (.atom 7)) (formula 4 (formula 0 (.atom 6))))

/-- The core with the next number as its counter. -/
def nextCore : Noun :=
  .cell (formula 0 (.atom 2)) (.cell (formula 4 (formula 0 (.atom 6))) (formula 0 (.atom 7)))

/-- End with the counter or go on with the next core. -/
def loop : Noun :=
  branch isNext (formula 0 (.atom 6)) (formula 9 (.cell (.atom 2) nextCore))

/-- The noun `[loop count target]`. -/
def core (count : Int) (target : Noun) : Noun :=
  .cell loop (.cell (.atom count) target)

/-- The formula that subtracts one from its subject. -/
def program : Noun :=
  formula 8 (.cell (formula 1 (.atom 0))
    (formula 8 (.cell (formula 1 loop) (formula 9 (.cell (.atom 2) (formula 0 (.atom 1)))))))

lemma parse_program : Noun.parse Workload.decrementText = .ok program := by
  decide +kernel

/-! ## One turn -/

section

variable (bound : Nat) (count : Int) (target : Noun)

lemma nock_isNext :
    Noun.nock (bound + 6) (core count target) isNext
      = .ok (.atom (if target = .atom (count + 1) then 0 else 1)) := by
  rw [isNext, core, nock_same, nock_slot, nock_bump, nock_slot, slotAt_atom, slotAt_atom, slot_six,
    slot_seven, ok_bind, ok_bind, bump_atom, ok_bind]
  simp only [beq_iff_eq]

lemma nock_nextCore :
    Noun.nock (bound + 7) (core count target) nextCore = .ok (core (count + 1) target) := by
  rw [nextCore, core, nock_pair, nock_pair, nock_bump, nock_slot, nock_slot, nock_slot, slotAt_atom,
    slotAt_atom, slotAt_atom, slot_two, slot_six, slot_seven]
  rfl

/-- Going on is the loop again, in the next core. -/
lemma nock_goOn :
    Noun.nock (bound + 8) (core count target) (formula 9 (.cell (.atom 2) nextCore))
      = Noun.nock (bound + 6) (core (count + 1) target) loop := by
  rw [nock_call, nock_nextCore, ok_bind, nock_called, core, slot_two, ok_bind]

/-- **One turn of the loop** ends with the counter, or is followed by the turns from the next core. -/
lemma nock_loop :
    Noun.nock (bound + 9) (core count target) loop
      = if target = .atom (count + 1) then .ok (.atom count)
        else Noun.nock (bound + 6) (core (count + 1) target) loop := by
  rw [loop, nock_branch (bound + 5), nock_isNext, ok_bind]
  split_ifs with hnext
  · have hpick : pick (bound + 7) (formula 0 (.atom 6)) (formula 9 (.cell (.atom 2) nextCore))
        (.atom 0) = .ok (formula 0 (.atom 6)) := rfl
    rw [hpick, ok_bind, nock_slot, core, slotAt_atom, slot_six]
  · have hpick : pick (bound + 7) (formula 0 (.atom 6)) (formula 9 (.cell (.atom 2) nextCore))
        (.atom 1) = .ok (formula 9 (.cell (.atom 2) nextCore)) := rfl
    rw [hpick, ok_bind, nock_goOn, loop]

variable {bound}

/-- Under a small bound the test has no result yet. -/
lemma nock_loop_tooDeep (hbound : bound < 9) :
    Noun.nock bound (core count target) loop = .error .tooDeep := by
  have hlast : Noun.nock 8 (core count target) loop = .error .tooDeep := by
    rw [loop, nock_branch 4]
    rfl
  rcases nock_approximates (by omega : bound ≤ 8) (core count target) loop with h | h
  · exact h
  · exact h.trans hlast

end

/-! ## All turns -/

variable {count n : Int} {target : Noun}

/-- **A target above the counter is reached,** three levels of nesting for each number on the way. -/
lemma nock_loop_of_lt (h : count < n) (bound : Nat) :
    Noun.nock bound (core count (.atom n)) loop
      = if 3 * (n - count) + 6 ≤ bound then .ok (.atom (n - 1)) else .error .tooDeep := by
  induction bound using Nat.strong_induction_on generalizing count with
  | _ bound ih =>
      by_cases hbound : bound < 9
      · rw [nock_loop_tooDeep _ _ hbound, if_neg (by omega)]
      obtain ⟨bound, rfl⟩ : ∃ k, bound = k + 9 := ⟨bound - 9, by omega⟩
      rw [nock_loop]
      by_cases hnext : n = count + 1
      · subst hnext
        rw [if_pos rfl, if_pos (by omega), Int.add_sub_cancel]
      · rw [if_neg (by simpa using hnext), ih (bound + 6) (by omega) (by omega)]
        simp only [show (3 * (n - (count + 1)) + 6 ≤ ((bound + 6 : Nat) : Int))
          ↔ 3 * (n - count) + 6 ≤ ((bound + 9 : Nat) : Int) by omega]

/-- **Any other target is never reached.**  The counter only moves away from it. -/
lemma nock_loop_of_not_above (h : ∀ k, target = .atom k → k ≤ count) (bound : Nat) :
    Noun.nock bound (core count target) loop = .error .tooDeep := by
  induction bound using Nat.strong_induction_on generalizing count with
  | _ bound ih =>
      by_cases hbound : bound < 9
      · exact nock_loop_tooDeep _ _ hbound
      obtain ⟨bound, rfl⟩ : ∃ k, bound = k + 9 := ⟨bound - 9, by omega⟩
      have hnext : target ≠ .atom (count + 1) := by
        intro heq
        have := h _ heq
        omega
      have habove : ∀ k, target = .atom k → k ≤ count + 1 := by
        intro k hk
        have := h k hk
        omega
      rw [nock_loop, if_neg hnext, ih (bound + 6) (by omega) habove]

/-- The program is the loop from the counter 0. -/
lemma nock_program (bound : Nat) (target : Noun) :
    Noun.nock (bound + 7) target program = Noun.nock (bound + 3) (core 0 target) loop := by
  rw [program, nock_push, nock_const, ok_bind, nock_push, nock_const, ok_bind, nock_call, nock_slot,
    slotAt_atom, slot_one, ok_bind, nock_called, slot_two, ok_bind, core]

lemma nock_program_tooDeep {bound : Nat} (hbound : bound < 7) (target : Noun) :
    Noun.nock bound target program = .error .tooDeep := by
  have hseven := (nock_program 0 target).trans (nock_loop_tooDeep 0 target (by omega))
  rcases nock_approximates (by omega : bound ≤ 7) target program with h | h
  · exact h
  · exact h.trans hseven

lemma nock_program_of_pos (hn : 1 ≤ n) (bound : Nat) :
    Noun.nock bound (.atom n) program
      = if 3 * n + 10 ≤ bound then .ok (.atom (n - 1)) else .error .tooDeep := by
  by_cases hbound : bound < 7
  · rw [nock_program_tooDeep hbound, if_neg (by omega)]
  obtain ⟨bound, rfl⟩ : ∃ k, bound = k + 7 := ⟨bound - 7, by omega⟩
  rw [nock_program, nock_loop_of_lt (by omega)]
  simp only [show (3 * (n - 0) + 6 ≤ ((bound + 3 : Nat) : Int))
    ↔ 3 * n + 10 ≤ ((bound + 7 : Nat) : Int) by omega]

lemma nock_program_of_not_pos (h : ∀ n : Int, 1 ≤ n → target ≠ .atom n) (bound : Nat) :
    Noun.nock bound target program = .error .tooDeep := by
  by_cases hbound : bound < 7
  · exact nock_program_tooDeep hbound target
  obtain ⟨bound, rfl⟩ : ∃ k, bound = k + 7 := ⟨bound - 7, by omega⟩
  rw [nock_program, nock_loop_of_not_above]
  intro k hk
  by_contra hpos
  exact h k (by omega) hk

end Decrement

/-! ## The workload -/

namespace Workload

/-- The value that an entry gives under a name. -/
def Entry.value? (name : String) : Entry → Option Entry
  | .row [.text key, value] => if key = name then some value else none
  | _ => none

/-- The value that a report gives under a name. -/
def Report.value? (report : Report) (name : String) : Option Entry :=
  report.findSome? (Entry.value? name)

lemma evaluateText_approximates {bound larger : Nat} (h : bound ≤ larger) (subject formula : String) :
    Approximates (evaluateText bound subject formula) (evaluateText larger subject formula) :=
  (Approximates.refl _).bind fun _ => (Approximates.refl _).bind fun _ => nock_approximates h _ _

/-- The examples need little nesting. -/
lemma exampleEntry_eq_ok {bound : Nat} (hbound : 13 ≤ bound) {e : Example} (he : e ∈ examples) :
    ∃ text, exampleEntry bound e = .ok (.row [.text e.name, .text text]) := by
  have hall : ∀ e ∈ examples,
      (evaluateText 13 e.subject e.formula >>= (·.pretty false)).isOk = true := by
    decide +kernel
  have hok := hall e he
  cases htext : evaluateText 13 e.subject e.formula >>= (·.pretty false) with
  | error fault =>
      rw [htext] at hok
      cases hok
  | ok text =>
      obtain ⟨result, hresult, hpretty⟩ := bind_eq_ok.mp htext
      have hlarger := (evaluateText_approximates hbound e.subject e.formula).eq_ok hresult
      exact ⟨text, by rw [exampleEntry, hlarger, ok_bind, hpretty]; rfl⟩

/-- They are reported under their own names. -/
lemma mapM_exampleEntry {bound : Nat} (hbound : 13 ≤ bound) : ∀ es : List Example, es ⊆ examples →
    ∃ rows, es.mapM (exampleEntry bound) = .ok rows ∧
      ∀ name, (∀ e ∈ es, e.name ≠ name) → Report.value? rows name = none
  | [], _ => ⟨[], rfl, fun _ _ => rfl⟩
  | e :: es, h => by
      obtain ⟨text, htext⟩ := exampleEntry_eq_ok hbound (h List.mem_cons_self)
      obtain ⟨rows, hrows, hnames⟩ := mapM_exampleEntry hbound es (List.subset_of_cons_subset h)
      refine ⟨_, by rw [List.mapM_cons, htext, ok_bind, hrows, ok_bind, pure_eq_ok], ?_⟩
      intro name hname
      obtain ⟨hfirst, hrest⟩ := List.forall_mem_cons.mp hname
      rw [Report.value?, List.findSome?_cons, Entry.value?, if_neg hfirst]
      exact hnames name hrest

lemma evaluating_of_decrement {bound : Nat} (hbound : 13 ≤ bound) {n : Int} {result : Noun}
    (h : Noun.nock bound (.atom n) Decrement.program = .ok result) :
    ∃ report, evaluating bound n = .ok report ∧ report.value? "dec" = some (.noun result) := by
  have hdecrement : decrement bound n = .ok result := by
    rw [decrement, Decrement.parse_program, ok_bind, h]
  obtain ⟨rows, hrows, hnames⟩ := mapM_exampleEntry hbound examples (List.Subset.refl _)
  have hnone : Report.value? rows "dec" = none := hnames "dec" (by decide)
  refine ⟨_, by rw [evaluating, hrows, ok_bind, hdecrement, ok_bind, pure_eq_ok], ?_⟩
  rw [Report.value?] at hnone ⊢
  rw [List.findSome?_append, hnone]
  rfl

end Workload

open Decrement

/-- **Counting up subtracts one.**  The formula that is written as `Workload.decrementText` gives
`n - 1` for every atom `n` from 1 on: under a bound of at least `3 n + 10`, and below that it meets the
bound.  So the workload that evaluates it reports `n - 1`.  For any other subject, be it 0, a negative
atom or a cell, it meets every bound.  Held nouns are evaluated like plain ones. -/
theorem decrement_counts_up :
    Noun.parse Workload.decrementText = .ok program ∧
    (∀ (n : Int) (bound : Nat), 1 ≤ n →
      Noun.nock bound (.atom n) program
        = if 3 * n + 10 ≤ bound then .ok (.atom (n - 1)) else .error .tooDeep) ∧
    (∀ (n : Int) (bound : Nat), 1 ≤ n → 3 * n + 10 ≤ bound →
      ∃ report, Workload.evaluating bound n = .ok report ∧
        report.value? "dec" = some (.noun (.atom (n - 1)))) ∧
    (∀ (subject : Noun) (bound : Nat), (∀ n : Int, 1 ≤ n → subject ≠ .atom n) →
      Noun.nock bound subject program = .error .tooDeep) ∧
    ∀ (s : Store) (subject formula : Datum) (a : Noun) (bound : Nat), s.Sound →
      s.noun? subject = some a → s.noun? formula = some program →
        answer (nock bound subject formula) s = (Noun.nock bound a program).map some := by
  refine ⟨parse_program, fun n bound hn => nock_program_of_pos hn bound, fun n bound hn hbound => ?_,
    fun subject bound h => nock_program_of_not_pos h bound,
    fun s subject formula a bound hs hsubject hformula => ?_⟩
  · have hresult := nock_program_of_pos hn bound
    rw [if_pos hbound] at hresult
    exact Workload.evaluating_of_decrement (by omega) hresult
  · have hfits := hs.fits
    rw [hfits.noun?_iff] at hsubject hformula
    exact (nock_refines bound hfits hsubject hformula).answer_eq

/-- From 3 it counts to 2 and needs a bound of 19; from 0, from -1 and from a cell it never ends. -/
theorem decrement_counts_up_three :
    (Noun.nock 19 (.atom 3) program = .ok (.atom 2) ∧
      Noun.nock 18 (.atom 3) program = .error .tooDeep) ∧
    (∃ report, Workload.evaluating 19 3 = .ok report ∧
      report.value? "dec" = some (.noun (.atom 2))) ∧
    ∀ subject ∈ [.atom 0, .atom (-1), .cell (.atom 1) (.atom 2)], ∀ bound,
      Noun.nock bound subject program = .error .tooDeep := by
  obtain ⟨-, hresult, hreport, hnever, -⟩ := decrement_counts_up
  refine ⟨⟨hresult 3 19 (by decide), hresult 3 18 (by decide)⟩, hreport 3 19 (by decide) (by decide),
    fun subject hsubject bound => hnever subject bound fun n hn heq => ?_⟩
  subst heq
  simp only [List.mem_cons, Noun.atom.injEq, reduceCtorEq, List.not_mem_nil, or_false] at hsubject
  omega

end Nock
