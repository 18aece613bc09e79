import Nock.Proofs.Grammar
import Nock.Proofs.Natural
import Nock.Proofs.Notebook.Variables

/-!
# What a notebook holds

Texts come from anywhere, and an evaluation may run through any formula.  What a notebook keeps is
tame nevertheless, after any texts for any of its kernels.

**Two sources.**  A noun in a notebook was read or computed.  A noun that was read is natural and can
be written (`Noun.legible_of_parseChars`).  A noun that was computed is natural because subject and
formula are (`Noun.natural_of_nock`), but it may have too many digits.  `Changes` says everything that
a command can do to its kernel, and shows where each kind goes: what was computed becomes a last
result and nothing else.

**What cannot fail.**  So the values that are put in the place of names can all be written, and
replacing variables never fails (`Variables.Proper.exists_substitute`).  Neither does showing a
variable.  Setting a subject or a variable fails only if the text that is left after the
replacement is not the text of a noun (`Sets.perform_error_iff`, `Desk.read_eq_error_iff`).
-/

namespace Nock

/-- An evaluation of natural nouns gives a natural noun. -/
lemma Noun.natural_of_nock {bound : Nat} {subject formula result : Noun} (hsubject : subject.Natural)
    (hformula : formula.Natural) (h : Noun.nock bound subject formula = .ok result) :
    result.Natural :=
  Natural.of_reduces (reduces_of_nock bound h) hsubject hformula

namespace Notebook

open Deskwork

variable {bound : Nat} {desk : Desk} {command : Command} {kernel : Kernel} {vars : Variables}
  {text : List Char}

/-! ## What a command does to its kernel -/

/-- Everything that a command can do to its kernel: nothing, set the subject to what was read, keep
the result of an evaluation, or forget the last result. -/
inductive Changes (bound : Nat) (desk : Desk) (command : Command) : Kernel → Prop
  | nothing : Changes bound desk command desk.kernel
  | subject {text : List Char} {n : Noun} (hread : desk.read text = .ok n) :
      Changes bound desk command ⟨n, desk.kernel.last⟩
  | result {result : Noun} {kernel : Kernel} (h : Evaluates bound desk command result kernel) :
      Changes bound desk command kernel
  | forget : Changes bound desk command ⟨desk.kernel.subject, none⟩

lemma Evaluates.changes {result : Noun} (h : Evaluates bound desk command result kernel) :
    Changes bound desk command (exec (perform bound command) desk).2.kernel := by
  rw [h.exec_perform]
  exact .result h

lemma perform_changes (bound : Nat) (desk : Desk) (command : Command) :
    Changes bound desk command (exec (perform bound command) desk).2.kernel := by
  have hnothing : (exec (perform bound command) desk).2.kernel = desk.kernel →
      Changes bound desk command (exec (perform bound command) desk).2.kernel := by
    intro h
    rw [h]
    exact .nothing
  cases command with
  | apply text =>
      cases hread : desk.read text with
      | error e => exact hnothing (by simp [perform, exec_bind, hread])
      | ok n =>
          cases n with
          | atom k => exact hnothing (by simp [perform, exec_bind, hread])
          | cell subject formula =>
              cases hnock : Noun.nock bound subject formula with
              | error e => exact hnothing (by simp [perform, exec_bind, hread, hnock])
              | ok result => exact (Evaluates.apply hread hnock).changes
  | subject text =>
      cases hread : desk.read text with
      | error e => exact hnothing (by simp [perform, exec_bind, hread])
      | ok n =>
          have hafter : (exec (perform bound (.subject text)) desk).2.kernel =
              ⟨n, desk.kernel.last⟩ := by
            simp [perform, exec_bind, hread]
          rw [hafter]
          exact .subject hread
  | formula text =>
      cases hread : desk.read text with
      | error e => exact hnothing (by simp [perform, exec_bind, hread])
      | ok formula =>
          cases hnock : Noun.nock bound desk.kernel.subject formula with
          | error e => exact hnothing (by simp [perform, exec_bind, hread, hnock])
          | ok result => exact (Evaluates.formula hread hnock).changes
  | nock text =>
      cases hread : desk.read text with
      | error e => exact hnothing (by simp [perform, exec_bind, hread])
      | ok n =>
          cases n with
          | atom k => exact hnothing (by simp [perform, exec_bind, hread])
          | cell subject formula =>
              cases hnock : Noun.nock bound subject formula with
              | error e => exact hnothing (by simp [perform, exec_bind, hread, hnock])
              | ok result => exact (Evaluates.nock hread hnock).changes
  | showAll => exact hnothing (by simp [perform])
  | showVariable name =>
      refine hnothing ?_
      cases hget : desk.vars.get? name <;> simp [perform, exec_bind, hget]
  | help => exact hnothing rfl
  | assign name text =>
      refine hnothing ?_
      cases hread : desk.read text <;> simp [perform, exec_bind, hread]
  | malformed => exact .forget

/-! ## The invariant -/

/-- The subject is natural and can be written, and the last result is natural. -/
structure Kernel.Proper (kernel : Kernel) : Prop where
  subject : kernel.subject.Legible
  last : ∀ n, kernel.last = some n → n.Natural

lemma Kernel.Proper.fresh : Kernel.Proper {} where
  subject := Noun.legible_ofList fun _ hn => absurd hn List.not_mem_nil
  last := fun _ h => nomatch h

lemma Desk.legible_of_read {n : Noun} (h : desk.read text = .ok n) : n.Legible := by
  obtain ⟨_, _, hparse⟩ := bind_eq_ok.mp h
  exact Noun.legible_of_parseChars hparse

/-- What an evaluation keeps: a subject that can be written, and a natural result. -/
lemma Evaluates.proper {result : Noun} (hdesk : desk.kernel.Proper)
    (h : Evaluates bound desk command result kernel) : kernel.Proper := by
  have hlast : ∀ {kept n : Noun}, result.Natural →
      (⟨kept, some result⟩ : Kernel).last = some n → n.Natural := by
    intro kept n hresult heq
    cases heq
    exact hresult
  cases h with
  | apply hread hnock =>
      obtain ⟨⟨hsubject, hformula⟩, hprint, -⟩ := Desk.legible_of_read hread
      exact ⟨⟨hsubject, hprint⟩, fun _ => hlast (Noun.natural_of_nock hsubject hformula hnock)⟩
  | formula hread hnock =>
      have hformula := (Desk.legible_of_read hread).1
      exact ⟨hdesk.subject, fun _ => hlast (Noun.natural_of_nock hdesk.subject.1 hformula hnock)⟩
  | nock hread hnock =>
      obtain ⟨⟨hsubject, hformula⟩, -⟩ := Desk.legible_of_read hread
      exact ⟨hdesk.subject, fun _ => hlast (Noun.natural_of_nock hsubject hformula hnock)⟩

/-- A command leaves its kernel proper. -/
lemma Changes.proper (hdesk : desk.kernel.Proper) (h : Changes bound desk command kernel) :
    kernel.Proper := by
  cases h with
  | nothing => exact hdesk
  | subject hread => exact ⟨Desk.legible_of_read hread, hdesk.last⟩
  | result heval => exact heval.proper hdesk
  | forget => exact ⟨hdesk.subject, fun n h => nomatch h⟩

/-- A text leaves all kernels proper. -/
lemma Kernel.Proper.execute {nb : Notebook} (h : ∀ number, (nb.kernel number).Proper) (bound : Nat)
    (number : Int) (silent : Bool) (code : String) (other : Int) :
    ((nb.execute bound number silent code).2.kernel other).Proper := by
  rw [Notebook.execute]
  by_cases hother : other = number
  · subst hother
    dsimp only
    rw [kernel_putBack]
    cases hcode : Command.ofText? code.toList with
    | none =>
        rw [Desk.execute_of_none hcode]
        exact h other
    | some command =>
        rw [Desk.execute_of_some hcode]
        exact (perform_changes bound (nb.desk other) command).proper (h other)
  · dsimp only
    rw [kernel_putBack_of_ne hother]
    exact h other

lemma Reachable.kernel_proper {nb : Notebook} (h : Reachable nb) (number : Int) :
    (nb.kernel number).Proper := by
  induction h generalizing number with
  | fresh => exact .fresh
  | execute _ bound other silent code ih => exact .execute ih bound other silent code number

/-! ## What cannot fail -/

/-- Replacing proper variables never fails. -/
lemma Variables.Proper.exists_substitute (hvars : vars.Proper) (text : List Char) :
    ∃ replaced, vars.substitute text = .ok replaced := by
  induction vars generalizing text with
  | nil => exact ⟨text, rfl⟩
  | cons first rest ih =>
      obtain ⟨name, value⟩ := first
      obtain ⟨written, hwritten⟩ := (hvars (name, value) List.mem_cons_self).2.2.pretty false
      rw [substitute_cons, hwritten, ok_bind]
      exact ih (fun entry hentry => hvars entry (List.mem_cons_of_mem _ hentry)) _

lemma Bindings.mem_of_get? {ρ : Type} {vars : Bindings ρ} {name : String} {value : ρ}
    (h : vars.get? name = some value) : (name, value) ∈ vars := by
  obtain ⟨before, after, rfl, -⟩ := List.lookup_eq_some_iff.mp h
  simp

/-- Showing a variable never fails. -/
lemma perform_showVariable (hvars : desk.vars.Proper) (bound : Nat) (name : String) :
    ∃ said, (exec (perform bound (.showVariable name)) desk).1 = .ok said := by
  cases hget : desk.vars.get? name with
  | none => exact ⟨"Variable '" ++ name ++ "' not found", by simp [perform, exec_bind, hget]⟩
  | some value =>
      obtain ⟨written, hwritten⟩ :=
        (hvars _ (Bindings.mem_of_get? hget)).2.2.pretty false
      exact ⟨name ++ " = " ++ written, by simp [perform, exec_bind, hget, hwritten, Except.map]⟩

/-- The command sets the subject or a variable to what a text gives. -/
inductive Sets (text : List Char) : Command → Prop
  | subject : Sets text (.subject text)
  | assign (name : String) : Sets text (.assign name text)

/-- Such a command fails exactly if its text is not read. -/
lemma Sets.perform_error_iff (h : Sets text command) (bound : Nat) (desk : Desk) (fault : Fault) :
    (exec (perform bound command) desk).1 = .error fault ↔ desk.read text = .error fault := by
  cases hread : desk.read text with
  | error e => cases h <;> simp [perform, exec_bind, hread]
  | ok n =>
      obtain ⟨written, hwritten⟩ := Desk.read_pretty hread
      cases h <;> simp [perform, exec_bind, hread, hwritten, Except.map]

/-- Reading a text with proper variables fails only in the text that is left. -/
lemma Desk.read_eq_error_iff (hvars : desk.vars.Proper) {fault : Fault} :
    desk.read text = .error fault ↔ ∃ replaced, desk.vars.substitute text = .ok replaced ∧
      Noun.parseChars replaced = .error fault := by
  obtain ⟨replaced, hreplaced⟩ := hvars.exists_substitute text
  simp [Desk.read, hreplaced]

lemma Reply.fault_ofOutcome (silent : Bool) (outcome : Except Fault String) (fault : Fault) :
    (Reply.ofOutcome silent outcome).fault = some fault ↔ outcome = .error fault := by
  cases outcome <;> simp [Reply.ofOutcome]

/-- The answer to a text has the fault of the command that the text asks for. -/
lemma execute_fault {nb : Notebook} {code : String}
    (hcode : Command.ofText? code.toList = some command) (bound : Nat) (number : Int)
    (silent : Bool) (fault : Fault) :
    (nb.execute bound number silent code).1.fault = some fault ↔
      (exec (perform bound command) (nb.desk number)).1 = .error fault := by
  rw [Notebook.execute, Desk.execute_of_some hcode]
  exact Reply.fault_ofOutcome silent _ fault

/-! ## Notebooks -/

/-- **What a notebook holds.**  Let any texts lead to a notebook.  Every subject and every value of a
variable is natural and can be written, every last result is natural, and every variable has a
proper name.  So replacing variables never fails, and neither does showing one.  Setting the subject
or a variable fails exactly if the text after the replacement is not read, with the fault of that
text. -/
theorem reachable_holds_proper {nb : Notebook} (h : Reachable nb) :
    (∀ number, (nb.kernel number).subject.Legible ∧
      ∀ n, (nb.kernel number).last = some n → n.Natural) ∧
    (∀ name value, (name, value) ∈ nb.vars → isName name = true ∧ value.Legible) ∧
    (∀ text, ∃ replaced, nb.vars.substitute text = .ok replaced) ∧
    ∀ bound number silent code command, Command.ofText? code.toList = some command →
      let fault := (nb.execute bound number silent code).1.fault
      (∀ name, command = .showVariable name → fault = none) ∧
      ∀ text, Sets text command → ∀ e,
        (fault = some e ↔ ∃ replaced, nb.vars.substitute text = .ok replaced ∧
          Noun.parseChars replaced = .error e) ∧
        (fault = some e → e.ofText = true) := by
  have hvars := h.proper
  refine ⟨fun number => ⟨(h.kernel_proper number).subject, (h.kernel_proper number).last⟩,
    fun name value hentry => hvars (name, value) hentry, hvars.exists_substitute, ?_⟩
  intro bound number silent code command hcode fault
  have hfault : ∀ e, fault = some e ↔ (exec (perform bound command) (nb.desk number)).1 = .error e :=
    execute_fault hcode bound number silent
  refine ⟨?_, fun text hsets e => ?_⟩
  · rintro name rfl
    have hdesk : (nb.desk number).vars.Proper := hvars
    obtain ⟨said, hsaid⟩ := perform_showVariable hdesk bound name
    refine Option.eq_none_iff_forall_ne_some.mpr fun e he => ?_
    rw [hfault, hsaid] at he
    cases he
  · rw [hfault, hsets.perform_error_iff, Desk.read_eq_error_iff hvars]
    refine ⟨Iff.rfl, ?_⟩
    rintro ⟨replaced, -, hparse⟩
    exact Noun.FailsInText.parseChars replaced e hparse

/-- A notebook where kernel 0 has defined `x-y`, and kernel 1 has used it. -/
def usedVariable : Notebook :=
  ((Notebook.execute 9 {} 0 false ":x-y [1 2]").2.execute 9 1 false ".*([7 x-y] [4 0 2])").2

theorem reachable_holds_proper_used :
    (Reachable usedVariable ∧
      usedVariable.kernel 1 = ⟨.ofList [.atom 7, .atom 1, .atom 2], some (.atom 8)⟩ ∧
      usedVariable.vars = [("x-y", .cell (.atom 1) (.atom 2))]) ∧
    ((usedVariable.kernel 1).subject.Legible ∧ (Noun.atom 8).Natural ∧ isName "x-y" = true ∧
      (Noun.cell (.atom 1) (.atom 2)).Legible) ∧
    (usedVariable.execute 9 0 false ":show x-y").1.fault = none ∧
    ((usedVariable.execute 9 0 false ":subject [x-y").1.fault = some (.unclosed 0) ∧
      ∃ replaced, usedVariable.vars.substitute "[x-y".toList = .ok replaced ∧
        Noun.parseChars replaced = .error (.unclosed 0)) := by
  have hreach : Reachable usedVariable := .execute (.execute .fresh _ _ _ _) _ _ _ _
  have hkernel : usedVariable.kernel 1 =
      ⟨.ofList [.atom 7, .atom 1, .atom 2], some (.atom 8)⟩ := by decide +kernel
  have hvars : usedVariable.vars = [("x-y", .cell (.atom 1) (.atom 2))] := by decide +kernel
  obtain ⟨hkernels, hentries, -, hfaults⟩ := reachable_holds_proper hreach
  have hentry := hentries "x-y" (.cell (.atom 1) (.atom 2)) (by rw [hvars]; exact List.mem_cons_self)
  have hshow := (hfaults 9 0 false ":show x-y" (.showVariable "x-y") (by decide +kernel)).1 _ rfl
  have hfault : (usedVariable.execute 9 0 false ":subject [x-y").1.fault = some (.unclosed 0) := by
    decide +kernel
  have hsubject := (hfaults 9 0 false ":subject [x-y" (.subject "[x-y".toList)
    (by decide +kernel)).2 _ .subject (.unclosed 0)
  exact ⟨⟨hreach, hkernel, hvars⟩,
    ⟨(hkernels 1).1, (hkernels 1).2 _ (by rw [hkernel]), hentry.1, hentry.2⟩, hshow, hfault,
    hsubject.1.mp hfault⟩

end Notebook

end Nock
