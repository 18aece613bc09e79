import Nock.Proofs.Notebook.Failure

/-!
# The variables of a notebook

A variable comes into being by a definition and in no other way.  The name of a definition begins
with a letter or an underscore, and its value was read, so it can be written.  This holds of every
variable in every notebook that texts can lead to (`Reachable.proper`).

**Inert texts.**  Replacing variables in a text without letters and underscores therefore changes
nothing and never fails (`Variables.Proper.substitute_eq_self`), whatever is defined.  The texts of
nouns are of this kind.
-/

namespace Nock.Notebook

open Deskwork

/-! ## Names and values -/

/-- A letter or an underscore, followed by letters, digits, underscores and hyphens. -/
def isName (name : String) : Bool :=
  name.toList.head?.any isNameStart && name.toList.all isNameChar

/-- Every variable has a proper name, and its value can be written. -/
def Variables.Proper (vars : Variables) : Prop :=
  ∀ entry ∈ vars, isName entry.1 = true ∧ entry.2.Legible

variable {vars : Variables} {name : String} {value : Noun} {text : List Char}

lemma isName_of_assignment? {rest : List Char} (h : assignment? text = some (name, rest)) :
    isName name = true := by
  simp only [assignment?] at h
  split_ifs at h with hname
  simp only [Bool.and_eq_true] at hname
  cases h
  simp [isName, hname.1.1, List.all_takeWhile]

/-- A definition has a proper name. -/
lemma isName_of_ofChars {rest : List Char} (h : Command.ofChars text = .assign name rest) :
    isName name = true := by
  simp only [Command.ofChars] at h
  split at h
  · cases h
  split at h
  · cases h
  split at h
  · cases h
  split at h
  · cases h
  split_ifs at h
  · rw [shown] at h
    split at h <;> cases h
  split at h
  · split at h
    · rename_i hassign
      cases h
      exact isName_of_assignment? hassign
    · cases h
  · cases h

lemma Bindings.mem_set {ρ : Type} {vars : Bindings ρ} {value : ρ} {entry : String × ρ}
    (h : entry ∈ vars.set name value) : entry = (name, value) ∨ entry ∈ vars := by
  induction vars with
  | nil => exact Or.inl (List.mem_singleton.mp h)
  | cons first rest ih =>
      obtain ⟨other, old⟩ := first
      rw [set] at h
      split_ifs at h with hname
      · rcases List.mem_cons.mp h with rfl | h
        · exact Or.inl rfl
        · exact Or.inr (List.mem_cons_of_mem _ h)
      · rcases List.mem_cons.mp h with rfl | h
        · exact Or.inr List.mem_cons_self
        · exact (ih h).imp_right (List.mem_cons_of_mem _)

lemma Variables.Proper.set (hvars : vars.Proper) (hname : isName name = true)
    (hvalue : value.Legible) : Variables.Proper (vars.set name value) := by
  intro entry hentry
  rcases Bindings.mem_set hentry with rfl | hentry
  · exact ⟨hname, hvalue⟩
  · exact hvars entry hentry

/-! ## Inert texts -/

/-- Nothing is replaced in a text without the first character of the name. -/
lemma replaceFrom_eq_self {c : Char} {rest replacement : List Char} (h : c ∉ text) :
    ∀ before, replaceFrom (c :: rest) replacement 0 before text = text := by
  induction text with
  | nil =>
      intro before
      rfl
  | cons d text ih =>
      intro before
      rw [List.mem_cons, not_or] at h
      have hnot : occursHere (c :: rest) before (d :: text) = false := by
        simp [occursHere, List.isPrefixOf, h.1]
      rw [replaceFrom, hnot, if_neg Bool.false_ne_true, ih h.2]

lemma Variables.substitute_cons (name : String) (value : Noun) (vars : Variables)
    (text : List Char) :
    Variables.substitute ((name, value) :: vars) text = (do
      vars.substitute (replaceWord name.toList (← value.pretty false).toList text)) := by
  cases hwritten : value.pretty false <;> simp [Variables.substitute, hwritten]

/-- Replacing proper variables changes nothing in a text that no name begins in. -/
lemma Variables.Proper.substitute_eq_self (hvars : vars.Proper)
    (htext : ∀ c ∈ text, isNameStart c = false) : vars.substitute text = .ok text := by
  induction vars with
  | nil => rfl
  | cons first rest ih =>
      obtain ⟨name, value⟩ := first
      obtain ⟨hname, hvalue⟩ := hvars (name, value) List.mem_cons_self
      obtain ⟨written, hwritten⟩ := hvalue.2.pretty false
      have hreplace : replaceWord name.toList written.toList text = text := by
        cases hchars : name.toList with
        | nil => simp [isName, hchars] at hname
        | cons c cs =>
            have hstart : isNameStart c = true := by simp_all [isName]
            refine replaceFrom_eq_self (fun hc => ?_) none
            rw [htext c hc] at hstart
            cases hstart
      rw [substitute_cons, hwritten, ok_bind, hreplace]
      exact ih fun entry hentry => hvars entry (List.mem_cons_of_mem _ hentry)

/-! ## Commands -/

section

variable (bound : Nat) (text : List Char) (n m : Noun)

lemma read_keeps_vars : Keeps Desk.vars (read text) := by
  intro desk
  simp

lemma write_keeps_vars : Keeps Desk.vars (write n) := by
  intro desk
  simp

lemma parts?_keeps_vars : Keeps Desk.vars (parts? n) := by
  intro desk
  simp

lemma evaluate_keeps_vars : Keeps Desk.vars (evaluate bound n m) := by
  intro desk
  simp

lemma setSubject_keeps_vars : Keeps Desk.vars (setSubject n) := .modify fun _ => rfl

lemma setLast_keeps_vars (last : Option Noun) : Keeps Desk.vars (setLast last) :=
  .modify fun _ => rfl

end

/-- A definition that is understood adds its variable, and one that is not read adds nothing. -/
lemma perform_assign_vars (bound : Nat) (desk : Desk) (name : String) (text : List Char) :
    (exec (perform bound (.assign name text)) desk).2.vars =
      match desk.read text with
      | .ok value => desk.vars.set name value
      | .error _ => desk.vars := by
  cases hread : desk.read text <;> simp [perform, exec_bind, hread]

/-- Only definitions change the variables. -/
lemma perform_keeps_vars (bound : Nat) {command : Command}
    (h : ∀ name text, command ≠ .assign name text) : Keeps Desk.vars (perform bound command) := by
  cases command with
  | apply text =>
      refine (read_keeps_vars text).bind fun n => (parts?_keeps_vars n).bind fun parts => ?_
      cases parts with
      | none => exact .pure _
      | some parts =>
          exact (evaluate_keeps_vars _ _ _).bind fun result => (setLast_keeps_vars _).bind fun _ =>
            (setSubject_keeps_vars _).bind fun _ => write_keeps_vars _
  | subject text =>
      exact (read_keeps_vars text).bind fun n => (setSubject_keeps_vars _).bind fun _ =>
        (write_keeps_vars _).bind fun _ => .pure _
  | formula text =>
      exact (read_keeps_vars text).bind fun n => Keeps.get.bind fun desk =>
        (evaluate_keeps_vars _ _ _).bind fun result => (setLast_keeps_vars _).bind fun _ =>
          write_keeps_vars _
  | nock text =>
      refine (read_keeps_vars text).bind fun n => (parts?_keeps_vars n).bind fun parts => ?_
      cases parts with
      | none => exact .pure _
      | some parts =>
          exact (evaluate_keeps_vars _ _ _).bind fun result => (setLast_keeps_vars _).bind fun _ =>
            write_keeps_vars _
  | showAll => exact Keeps.get.bind fun desk => .ofExcept _
  | showVariable name =>
      refine Keeps.get.bind fun desk => ?_
      cases desk.vars.get? name with
      | none => exact .pure _
      | some value => exact (write_keeps_vars _).bind fun _ => .pure _
  | help => exact .pure _
  | assign name text => exact absurd rfl (h name text)
  | malformed => exact (setLast_keeps_vars _).bind fun _ => .pure _

/-! ## Notebooks -/

/-- The notebook is what some texts lead to, each for some kernel and under some bound. -/
inductive Reachable : Notebook → Prop
  | fresh : Reachable {}
  | execute {nb : Notebook} (h : Reachable nb) (bound : Nat) (number : Int) (silent : Bool)
      (code : String) : Reachable (nb.execute bound number silent code).2

/-- A text leaves the variables proper. -/
lemma Variables.Proper.execute {nb : Notebook} (h : nb.vars.Proper) (bound : Nat) (number : Int)
    (silent : Bool) (code : String) : (nb.execute bound number silent code).2.vars.Proper := by
  rw [Notebook.execute]
  cases hcode : Command.ofText? code.toList with
  | none =>
      rw [Desk.execute_of_none hcode]
      exact h
  | some command =>
      rw [Desk.execute_of_some hcode]
      change (exec (perform bound command) (nb.desk number)).2.vars.Proper
      by_cases hassign : ∃ name text, command = .assign name text
      · obtain ⟨name, text, rfl⟩ := hassign
        have hname : isName name = true := by
          rw [Command.ofText?] at hcode
          split_ifs at hcode
          exact isName_of_ofChars (Option.some.inj hcode)
        rw [perform_assign_vars]
        cases hread : (nb.desk number).read text with
        | error e => exact h
        | ok value =>
            obtain ⟨_, _, hparse⟩ := bind_eq_ok.mp hread
            exact h.set hname (Noun.legible_of_parseChars hparse)
      · rw [perform_keeps_vars bound fun name text heq => hassign ⟨name, text, heq⟩]
        exact h

/-- **Variables have proper names and values that can be written,** whatever texts came before. -/
lemma Reachable.proper {nb : Notebook} (h : Reachable nb) : nb.vars.Proper := by
  induction h with
  | fresh =>
      intro entry hentry
      cases hentry
  | execute _ bound number silent code ih => exact ih.execute bound number silent code

end Nock.Notebook
