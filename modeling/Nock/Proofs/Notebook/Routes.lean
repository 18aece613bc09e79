import Mathlib.Tactic.IntervalCases
import Nock.Proofs.Notebook.Variables
import Nock.Proofs.Printer

/-!
# Four ways to evaluate

A formula can be evaluated with `.*(s f)`, with `:nock [s f]`, or after `:subject s` with
`:formula f` or with the formula alone.  The four agree when the two nouns are given by their texts.

**The texts.**  The text of a noun has no white space at its ends and no percent sign, and begins
with no command word (`NounText`).  So every text around it is understood as meant, and no variable
is replaced in it.

**The commands.**  `Asks` says which formula a command evaluates against which subject, and which
subject it keeps then.  One lemma gives the answer and the kernel after such a command
(`Asks.exec_perform`); the four ways differ in the subject that is kept and in nothing else.
-/

namespace Nock.Notebook

open Deskwork

/-! ## White space -/

lemma isBlank_eq_false {c : Char} (hlow : 0x21 ≤ c.toNat) (hhigh : c.toNat < 0x85) :
    Text.isBlank c = false := by
  simp only [Text.isBlank, Text.CharClass.holds, Text.blanks, Text.CharClass.walk]
  simp [show ¬c.toNat < 0x9 by omega, show ¬c.toNat < 0xe by omega, show ¬c.toNat < 0x1c by omega,
    show ¬c.toNat < 0x21 by omega, hhigh]

variable {text first second : List Char}

lemma strip_space_cons (text : List Char) : Text.strip (' ' :: text) = Text.strip text := by
  have hspace : Text.isBlank ' ' = true := by decide
  simp [Text.strip, Text.stripLeft, hspace]

/-- Only the ends of a text matter. -/
lemma isTrimmed_around (hfirst : isTrimmed first = true) (hsecond : isTrimmed second = true)
    (hne : first ≠ []) (hne' : second ≠ []) (middle : List Char) :
    isTrimmed (first ++ middle ++ second) = true := by
  obtain ⟨c, cs, rfl⟩ := List.exists_cons_of_ne_nil hne
  rw [isTrimmed, List.getLast?_append, List.getLast?_eq_some_getLast hne', Option.some_or,
    ← List.getLast?_eq_some_getLast hne']
  simp only [isTrimmed, Bool.and_eq_true] at hfirst hsecond
  exact Bool.and_eq_true_iff.mpr ⟨hfirst.1, hsecond.2⟩

/-! ## Texts of nouns -/

/-- The text has digits, spaces and brackets only, and no space at its ends. -/
structure NounText (text : List Char) : Prop where
  plain : ∀ c ∈ text, Noun.isPlain c = true
  trimmed : isTrimmed text = true
  nonempty : text ≠ []

lemma isBlank_of_isPlain {c : Char} (h : Noun.isPlain c = true) (hspace : c ≠ ' ') :
    Text.isBlank c = false := by
  simp only [Noun.isPlain, Bool.or_eq_true, beq_iff_eq] at h
  rcases h with ((hdigit | rfl) | rfl) | rfl
  · have hrange := Char.isDigit_iff_toNat.mp hdigit
    simp only [Char.reduceToNat] at hrange
    exact isBlank_eq_false (by omega) (by omega)
  · exact absurd rfl hspace
  · decide
  · decide

lemma isNameStart_of_isPlain {c : Char} (h : Noun.isPlain c = true) : isNameStart c = false := by
  simp only [Noun.isPlain, Bool.or_eq_true, beq_iff_eq] at h
  rcases h with ((hdigit | rfl) | rfl) | rfl
  · obtain ⟨hlow, hhigh⟩ := Char.isDigit_iff_toNat.mp hdigit
    rw [← Char.ofNat_toNat c]
    simp only [Char.reduceToNat] at hlow hhigh
    interval_cases c.toNat <;> rfl
  all_goals rfl

namespace NounText

/-- The text of a noun is one. -/
lemma of_pretty {n : Noun} (hn : n.Natural) {written : String} (h : n.pretty false = .ok written) :
    NounText written.toList := by
  rw [← Noun.text_derivation hn h]
  have hplain := Noun.plain_derivation n false
  obtain ⟨hhead, hlast⟩ := Noun.ends_derivation n
  refine ⟨hplain, ?_, ?_⟩
  · refine isTrimmed_iff.mpr ⟨fun c hc => ?_, fun c hc => ?_⟩
    · exact isBlank_of_isPlain (hplain c (List.mem_of_head? hc)) fun heq => hhead (heq ▸ hc)
    · exact isBlank_of_isPlain (hplain c (List.mem_of_getLast? hc)) fun heq => hlast (heq ▸ hc)
  · cases n <;> simp [Noun.derivation, Noun.Derivation.text, Nat.toDigits_ne_nil]

lemma pair (hfirst : NounText first) (hsecond : NounText second) :
    NounText (first ++ [' '] ++ second) := by
  refine ⟨fun c hc => ?_, ?_, by simp⟩
  · simp only [List.mem_append, List.mem_singleton] at hc
    rcases hc with (hc | rfl) | hc
    · exact hfirst.plain c hc
    · rfl
    · exact hsecond.plain c hc
  · exact isTrimmed_around hfirst.trimmed hsecond.trimmed hfirst.nonempty hsecond.nonempty _

lemma bracket (h : NounText text) : NounText (['['] ++ text ++ [']']) := by
  refine ⟨fun c hc => ?_, ?_, by simp⟩
  · simp only [List.mem_append, List.mem_singleton] at hc
    rcases hc with (rfl | hc) | rfl
    · rfl
    · exact h.plain c hc
    · rfl
  · exact isTrimmed_around (by decide) (by decide) (by decide) (by decide) text

/-- A character that is not plain does not occur. -/
lemma not_mem (h : NounText text) {c : Char} (hc : Noun.isPlain c = false) : c ∉ text := by
  intro hmem
  rw [h.plain c hmem] at hc
  cases hc

/-- No variable is replaced in the text. -/
lemma read (h : NounText text) {desk : Desk} (hvars : desk.vars.Proper) :
    desk.read text = Noun.parseChars text := by
  have hinert := hvars.substitute_eq_self fun c hc => isNameStart_of_isPlain (h.plain c hc)
  rw [Desk.read, hinert, ok_bind]

end NounText

/-! ## Understanding texts -/

lemma ofText?_of_isTrimmed (h : isTrimmed text = true) (hne : text ≠ [])
    (hpercent : '%' ∉ text) : Command.ofText? text = some (Command.ofChars text) := by
  have hempty : text.isEmpty = false := by simpa using hne
  simp [Command.ofText?, strip_of_isTrimmed h, hempty, dropPercentChars_eq_self hpercent]

namespace NounText

lemma ofText?_apply (h : NounText text) :
    Command.ofText? (".*(".toList ++ text ++ [')']) = some (.apply text) := by
  have hpercent : '%' ∉ text := h.not_mem rfl
  rw [ofText?_of_isTrimmed (isTrimmed_around (by decide) (by decide) (by decide) (by decide) text)
    (by simp) (by simp [hpercent])]
  simp [Command.ofChars, applied?, after?, strip_of_isTrimmed h.trimmed]

/-- A command word in front of the text is understood. -/
lemma ofText?_word (h : NounText text) :
    Command.ofText? (":subject".toList ++ [' '] ++ text) = some (.subject text) ∧
      Command.ofText? (":formula".toList ++ [' '] ++ text) = some (.formula text) ∧
      Command.ofText? (":nock".toList ++ [' '] ++ text) = some (.nock text) := by
  have hword : ∀ word : List Char, isTrimmed word = true → word ≠ [] → '%' ∉ word →
      Command.ofText? (word ++ [' '] ++ text) = some (.ofChars (word ++ [' '] ++ text)) := by
    intro word htrim hne hpercent
    have hpercent' : '%' ∉ text := h.not_mem rfl
    exact ofText?_of_isTrimmed (isTrimmed_around htrim h.trimmed hne h.nonempty _) (by simp [hne])
      (by simp [hpercent, hpercent'])
  rw [hword _ (by decide) (by decide) (by decide), hword _ (by decide) (by decide) (by decide),
    hword _ (by decide) (by decide) (by decide)]
  simp [Command.ofChars, applied?, after?, strip_space_cons, strip_of_isTrimmed h.trimmed]

/-- A text without a command word is a formula. -/
lemma ofText?_bare (h : NounText text) : Command.ofText? text = some (.formula text) := by
  rw [ofText?_of_isTrimmed h.trimmed h.nonempty (h.not_mem rfl)]
  cases text with
  | nil => exact absurd rfl h.nonempty
  | cons c cs =>
      have hdot : '.' ≠ c := fun heq => h.not_mem (c := '.') rfl (heq ▸ List.mem_cons_self)
      have hcolon : ':' ≠ c := fun heq => h.not_mem (c := ':') rfl (heq ▸ List.mem_cons_self)
      simp [Command.ofChars, applied?, after?, hdot, hcolon]

end NounText

/-! ## Evaluating -/

variable {bound : Nat} {desk : Desk} {command : Command} {subject formula kept : Noun}

/-- The command evaluates a formula against a subject, and keeps a subject if there is a result. -/
inductive Asks (desk : Desk) : Command → (subject formula kept : Noun) → Prop
  | apply {text : List Char} {subject formula : Noun}
      (hread : desk.read text = .ok (.cell subject formula)) :
      Asks desk (.apply text) subject formula subject
  | formula {text : List Char} {formula : Noun} (hread : desk.read text = .ok formula) :
      Asks desk (.formula text) desk.kernel.subject formula desk.kernel.subject
  | nock {text : List Char} {subject formula : Noun}
      (hread : desk.read text = .ok (.cell subject formula)) :
      Asks desk (.nock text) subject formula desk.kernel.subject

/-- What is kept after an evaluation: its result and a subject, or nothing new if it failed. -/
def Kernel.keep (kernel : Kernel) (subject : Noun) : Except Fault Noun → Kernel
  | .ok result => ⟨subject, some result⟩
  | .error _ => kernel

lemma Kernel.last_keep (kernel : Kernel) (subject : Noun) (outcome : Except Fault Noun) :
    (kernel.keep subject outcome).last = outcome.toOption.or kernel.last := by
  cases outcome <;> rfl

lemma Asks.exec_perform (h : Asks desk command subject formula kept) :
    exec (perform bound command) desk =
      (Noun.nock bound subject formula >>= (·.pretty false),
        { desk with kernel := desk.kernel.keep kept (Noun.nock bound subject formula) }) := by
  cases hnock : Noun.nock bound subject formula with
  | error e => cases h <;> simp_all [perform, exec_bind, Kernel.keep]
  | ok result =>
      cases h with
      | apply hread => exact (Evaluates.apply hread hnock).exec_perform
      | formula hread => exact (Evaluates.formula hread hnock).exec_perform
      | nock hread => exact (Evaluates.nock hread hnock).exec_perform

lemma exec_perform_subject {s : String} (hread : desk.read text = .ok subject)
    (hs : subject.pretty false = .ok s) :
    exec (perform bound (.subject text)) desk =
      (.ok ("Subject set to: " ++ s), ⟨⟨subject, desk.kernel.last⟩, desk.vars⟩) := by
  simp [perform, exec_bind, hread, hs, Except.map]

/-! ## Notebooks -/

section

variable {nb : Notebook} {number : Int}

/-- The answer to an evaluation. -/
def Reply.ofResult (silent : Bool) (outcome : Except Fault Noun) : Reply :=
  .ofOutcome silent (outcome >>= (·.pretty false))

/-- The notebook after an evaluation by one of its kernels. -/
def keep (nb : Notebook) (number : Int) (subject : Noun) (outcome : Except Fault Noun) : Notebook :=
  nb.putBack number ⟨(nb.kernel number).keep subject outcome, nb.vars⟩

@[simp] lemma kernel_keep (outcome : Except Fault Noun) :
    (nb.keep number subject outcome).kernel number = (nb.kernel number).keep subject outcome :=
  kernel_putBack _

lemma Asks.execute {code : String} (hcode : Command.ofText? code.toList = some command)
    (h : Asks (nb.desk number) command subject formula kept) (bound : Nat) (silent : Bool) :
    nb.execute bound number silent code =
      (.ofResult silent (Noun.nock bound subject formula),
        nb.keep number kept (Noun.nock bound subject formula)) := by
  rw [Notebook.execute, Desk.execute_of_some hcode, h.exec_perform]
  rfl

variable (hvars : nb.vars.Proper) (hsubject : subject.Legible) (hformula : formula.Legible)
  {s f : String} (hs : subject.pretty false = .ok s) (hf : formula.pretty false = .ok f)
  (bound : Nat) (silent : Bool)

include hvars hsubject hformula hs hf

lemma execute_applied :
    nb.execute bound number silent (".*(" ++ s ++ " " ++ f ++ ")") =
      (.ofResult silent (Noun.nock bound subject formula),
        nb.keep number subject (Noun.nock bound subject formula)) := by
  have htext := (NounText.of_pretty hsubject.1 hs).pair (.of_pretty hformula.1 hf)
  have hread : (nb.desk number).read (s.toList ++ [' '] ++ f.toList) =
      .ok (.cell subject formula) := by
    rw [htext.read hvars]
    simpa [Noun.parse] using (Noun.parse_pair hsubject hformula hs hf).1
  exact Asks.execute (by simpa using htext.ofText?_apply) (.apply hread) bound silent

lemma execute_nocked :
    nb.execute bound number silent (":nock [" ++ s ++ " " ++ f ++ "]") =
      (.ofResult silent (Noun.nock bound subject formula),
        nb.keep number (nb.kernel number).subject (Noun.nock bound subject formula)) := by
  have htext := ((NounText.of_pretty hsubject.1 hs).pair (.of_pretty hformula.1 hf)).bracket
  have hread : (nb.desk number).read (['['] ++ (s.toList ++ [' '] ++ f.toList) ++ [']']) =
      .ok (.cell subject formula) := by
    rw [htext.read hvars]
    simpa [Noun.parse] using (Noun.parse_pair hsubject hformula hs hf).2
  exact Asks.execute (by simpa using htext.ofText?_word.2.2) (.nock hread) bound silent

omit hformula hf

/-- Setting the subject to a noun that is given by its text succeeds. -/
lemma execute_subject :
    nb.execute bound number silent (":subject " ++ s) =
      (.ofOutcome silent (.ok ("Subject set to: " ++ s)),
        nb.putBack number ⟨⟨subject, (nb.kernel number).last⟩, nb.vars⟩) := by
  have htext := NounText.of_pretty hsubject.1 hs
  have hcode : Command.ofText? (":subject " ++ s).toList = some (.subject s.toList) := by
    simpa using htext.ofText?_word.1
  have hread : (nb.desk number).read s.toList = .ok subject :=
    (htext.read hvars).trans (Noun.parse_of_pretty hsubject hs)
  rw [Notebook.execute, Desk.execute_of_some hcode, exec_perform_subject hread hs]
  rfl

omit hsubject hs
include hformula hf

/-- A formula with its command word or without is evaluated against the subject. -/
lemma execute_formula {code : String} (hcode : code = ":formula " ++ f ∨ code = f) :
    nb.execute bound number silent code =
      (.ofResult silent (Noun.nock bound (nb.kernel number).subject formula),
        nb.keep number (nb.kernel number).subject
          (Noun.nock bound (nb.kernel number).subject formula)) := by
  have htext := NounText.of_pretty hformula.1 hf
  have hunderstood : Command.ofText? code.toList = some (.formula f.toList) := by
    rcases hcode with rfl | rfl
    · simpa using htext.ofText?_word.2.1
    · exact htext.ofText?_bare
  exact Asks.execute hunderstood
    (.formula ((htext.read hvars).trans (Noun.parse_of_pretty hformula hf))) bound silent

end

/-- **Four ways to evaluate.**  Whatever texts led to the notebook, and whatever variables they have
defined, a subject and a formula given by their texts are evaluated alike with `.*(s f)`, with
`:nock [s f]`, and after `:subject s` with `:formula f` or `f` alone: the last text fails with the same
fault or does not fail, says the same, and leaves the same last result.  This is what the evaluation
itself gives.  If there is a result, all ways but `:nock` leave the subject. -/
theorem evaluation_routes_agree (bound : Nat) {nb : Notebook} (hnb : Reachable nb) (number : Int)
    (silent : Bool) {subject formula : Noun} (hsubject : subject.Legible)
    (hformula : formula.Legible) :
    ∃ s f, subject.pretty false = .ok s ∧ formula.pretty false = .ok f ∧
      let applied := nb.execute bound number silent (".*(" ++ s ++ " " ++ f ++ ")")
      let nocked := nb.execute bound number silent (":nock [" ++ s ++ " " ++ f ++ "]")
      let set := nb.execute bound number silent (":subject " ++ s)
      let named := set.2.execute bound number silent (":formula " ++ f)
      let bare := set.2.execute bound number silent f
      let seen := fun route : Reply × Notebook =>
        (route.1.fault, route.1.messages, (route.2.kernel number).last)
      let outcome := Noun.nock bound subject formula
      set.1.fault = none ∧
      (seen nocked = seen applied ∧ seen named = seen applied ∧ seen bare = seen applied) ∧
      seen applied = ((Reply.ofResult silent outcome).fault, (Reply.ofResult silent outcome).messages,
        outcome.toOption.or (nb.kernel number).last) ∧
      ∀ result, outcome = .ok result → (applied.2.kernel number).subject = subject ∧
        (named.2.kernel number).subject = subject ∧ (bare.2.kernel number).subject = subject := by
  obtain ⟨s, hs⟩ := hsubject.2.pretty false
  obtain ⟨f, hf⟩ := hformula.2.pretty false
  refine ⟨s, f, hs, hf, ?_⟩
  have hvars := hnb.proper
  let ready := nb.putBack number ⟨⟨subject, (nb.kernel number).last⟩, nb.vars⟩
  have hready : ready.kernel number = ⟨subject, (nb.kernel number).last⟩ := kernel_putBack _
  have hformulas : ∀ code, code = ":formula " ++ f ∨ code = f →
      ready.execute bound number silent code = (.ofResult silent (Noun.nock bound subject formula),
        ready.keep number subject (Noun.nock bound subject formula)) := by
    intro code hcode
    have hreadyVars : ready.vars.Proper := hvars
    rw [execute_formula hreadyVars hformula hf bound silent hcode, hready]
  rw [execute_applied hvars hsubject hformula hs hf, execute_nocked hvars hsubject hformula hs hf,
    execute_subject hvars hsubject hs]
  dsimp only
  rw [hformulas _ (Or.inl rfl), hformulas _ (Or.inr rfl)]
  refine ⟨rfl, ?_, ?_, fun result hresult => ?_⟩
  · simp [Kernel.last_keep, hready]
  · simp [Kernel.last_keep]
  · simp [hresult, Kernel.keep]

/-- A notebook where `x` stands for `[1 2]`. -/
def definedNotebook : Notebook :=
  (Notebook.execute 9 {} 0 false ":x [1 2]").2

theorem evaluation_routes_agree_bump :
    (Reachable definedNotebook ∧ definedNotebook.vars = [("x", .cell (.atom 1) (.atom 2))]) ∧
    let set := definedNotebook.execute 9 0 false ":subject [1 2]"
    ∀ route ∈ [definedNotebook.execute 9 0 false ".*([1 2] [4 0 3])",
        definedNotebook.execute 9 0 false ":nock [[1 2] [4 0 3]]",
        set.2.execute 9 0 false ":formula [4 0 3]", set.2.execute 9 0 false "[4 0 3]"],
      (route.1.fault, route.1.messages, (route.2.kernel 0).last) =
        (none, [.output "3\n"], some (.atom 3)) := by
  have hreach : Reachable definedNotebook := .execute .fresh 9 0 false ":x [1 2]"
  have hsubject : (Noun.cell (.atom 1) (.atom 2)).Legible := ⟨by decide, by decide +kernel⟩
  have hformula : (Noun.formula 4 (.formula 0 (.atom 3))).Legible := ⟨by decide, by decide +kernel⟩
  have hs : (Noun.cell (.atom 1) (.atom 2)).pretty false = .ok "[1 2]" := by decide +kernel
  have hf : (Noun.formula 4 (.formula 0 (.atom 3))).pretty false = .ok "[4 0 3]" := by
    decide +kernel
  have hvars : definedNotebook.vars = [("x", .cell (.atom 1) (.atom 2))] := by decide +kernel
  obtain ⟨s, f, hs', hf', -, ⟨hnocked, hnamed, hbare⟩, happlied, -⟩ :=
    evaluation_routes_agree 9 hreach 0 false hsubject hformula
  cases hs.symm.trans hs'
  cases hf.symm.trans hf'
  have hseen := happlied.trans (c := (none, [.output "3\n"], some (.atom 3))) (by decide +kernel)
  simp only [String.reduceAppend] at hseen hnocked hnamed hbare
  refine ⟨⟨hreach, hvars⟩, ?_⟩
  simp only [List.forall_mem_cons]
  exact ⟨hseen, hnocked.trans hseen, hnamed.trans hseen, hbare.trans hseen, List.forall_mem_nil _⟩

end Nock.Notebook
