import Nock.Notebook
import Nock.Proofs.Effects
import Nock.Proofs.Parser
import Nock.Proofs.Reduction

/-!
# What a failed command leaves behind

A command keeps what it computed before it prints it, so the question is what can still fail after
something was kept.

* `:subject` and definitions keep a noun **that was read**.  Such a noun can be written, so nothing
  fails any more.
* The commands that evaluate keep a noun **that was computed**, and an increment can take it over the
  limit of digits.  Then the command fails and has kept its result; `.*( … )` has kept its subject as
  well.

Everything else fails, if it does, before anything is kept.  `Evaluates` collects the second group,
and `perform_error` says that this is the only way for a failed command to have changed something.
-/

namespace Nock.Notebook

open Deskwork

/-- The command that a text asks for, unless it is blank. -/
def Command.ofText? (code : List Char) : Option Command :=
  let code := Text.strip code
  if code.isEmpty then none else some (ofChars (dropPercentChars code))

/-- The noun that a text gives at a desk: the variables are replaced, then the noun is read. -/
def Desk.read (desk : Desk) (text : List Char) : Except Fault Noun := do
  Noun.parseChars (← desk.vars.substitute text)

/-- The command evaluates a formula to a result, which leaves the kernel as given if the result is
kept. -/
inductive Evaluates (bound : Nat) (desk : Desk) : Command → (result : Noun) → Kernel → Prop
  | apply {text : List Char} {subject formula result : Noun}
      (hread : desk.read text = .ok (.cell subject formula))
      (h : Noun.nock bound subject formula = .ok result) :
      Evaluates bound desk (.apply text) result ⟨subject, some result⟩
  | formula {text : List Char} {formula result : Noun} (hread : desk.read text = .ok formula)
      (h : Noun.nock bound desk.kernel.subject formula = .ok result) :
      Evaluates bound desk (.formula text) result ⟨desk.kernel.subject, some result⟩
  | nock {text : List Char} {subject formula result : Noun}
      (hread : desk.read text = .ok (.cell subject formula))
      (h : Noun.nock bound subject formula = .ok result) :
      Evaluates bound desk (.nock text) result ⟨desk.kernel.subject, some result⟩

variable {bound : Nat} {desk desk' : Desk} {command : Command} {result : Noun} {kernel : Kernel}
  {fault : Fault}

/-! ## Commands step by step -/

@[simp] lemma exec_read (text : List Char) (desk : Desk) :
    exec (read text) desk = (desk.read text, desk) := by
  change exec (CommandM.read text) desk = _
  rw [CommandM.read, exec_bind_ok (exec_get desk), Desk.read]
  cases desk.vars.substitute text with
  | error e =>
      rw [exec_bind_error (exec_ofExcept _ desk)]
      rfl
  | ok text =>
      rw [exec_bind_ok (exec_ofExcept _ desk), exec_ofExcept]
      rfl

@[simp] lemma exec_write (n : Noun) (desk : Desk) :
    exec (write n) desk = (n.pretty false, desk) :=
  exec_ofExcept _ desk

@[simp] lemma exec_parts? (n : Noun) (desk : Desk) :
    exec (parts? n) desk = (.ok n.parts?, desk) := rfl

@[simp] lemma exec_evaluate (bound : Nat) (subject formula : Noun) (desk : Desk) :
    exec (evaluate bound subject formula) desk = (Noun.nock bound subject formula, desk) :=
  exec_ofExcept _ desk

@[simp] lemma exec_subject (desk : Desk) :
    exec subject desk = (.ok desk.kernel.subject, desk) := rfl

@[simp] lemma exec_value? (name : String) (desk : Desk) :
    exec (value? name) desk = (.ok (desk.vars.get? name), desk) := rfl

@[simp] lemma exec_overview (desk : Desk) :
    exec Deskwork.overview desk = (Notebook.overview desk, desk) :=
  exec_ofExcept _ desk

@[simp] lemma exec_setSubject (n : Noun) (desk : Desk) : exec (setSubject n) desk =
    (.ok ⟨⟩, { desk with kernel := { desk.kernel with subject := n } }) := rfl

@[simp] lemma exec_setLast (n : Option Noun) (desk : Desk) : exec (setLast n) desk =
    (.ok ⟨⟩, { desk with kernel := { desk.kernel with last := n } }) := rfl

@[simp] lemma exec_define (name : String) (value : Noun) (desk : Desk) :
    exec (define name value) desk = (.ok ⟨⟩, { desk with vars := desk.vars.set name value }) := rfl

/-- What was read can be written. -/
lemma Desk.read_pretty {text : List Char} {n : Noun} (h : desk.read text = .ok n) :
    ∃ written, n.pretty false = .ok written := by
  obtain ⟨_, _, hparse⟩ := bind_eq_ok.mp h
  exact (Noun.legible_of_parseChars hparse).2.pretty false

/-- A command that evaluates keeps its result and then prints it. -/
lemma Evaluates.exec_perform (h : Evaluates bound desk command result kernel) :
    exec (perform bound command) desk = (result.pretty false, { desk with kernel := kernel }) := by
  cases h with
  | apply hread h => simp [perform, exec_bind, hread, h]
  | formula hread h => simp [perform, exec_bind, hread, h]
  | nock hread h => simp [perform, exec_bind, hread, h]

/-- Where the failure of a command leaves its desk. -/
def Leaves (bound : Nat) (desk : Desk) (command : Command) (fault : Fault) (desk' : Desk) : Prop :=
  desk' = desk ∨ fault = .longNumber ∧ ∃ result kernel, ¬result.Printable ∧
    Evaluates bound desk command result kernel ∧ desk' = { desk with kernel := kernel }

/-- If a command that evaluates fails, its result has too many digits. -/
lemma Evaluates.leaves (heval : Evaluates bound desk command result kernel)
    (h : exec (perform bound command) desk = (.error fault, desk')) :
    Leaves bound desk command fault desk' := by
  rw [heval.exec_perform] at h
  by_cases hprint : result.Printable
  · obtain ⟨written, hwritten⟩ := hprint.pretty false
    rw [hwritten] at h
    cases h
  · rw [Noun.pretty_of_not_printable hprint] at h
    cases h
    exact Or.inr ⟨rfl, result, kernel, hprint, heval, rfl⟩

section

variable {f : Noun → CommandM String}

/-- What begins by reading a text fails there, or goes on with the noun. -/
lemma Leaves.of_read {text : List Char}
    (h : exec (read text >>= f) desk = (.error fault, desk'))
    (hok : ∀ n, desk.read text = .ok n → exec (f n) desk = (.error fault, desk') →
      Leaves bound desk command fault desk') : Leaves bound desk command fault desk' := by
  cases hread : desk.read text with
  | error e =>
      rw [exec_bind_error ((exec_read text desk).trans (by rw [hread]))] at h
      cases h
      exact Or.inl rfl
  | ok n =>
      rw [exec_bind_ok ((exec_read text desk).trans (by rw [hread]))] at h
      exact hok n hread h

/-- What begins by evaluating a formula fails there, or has a result. -/
lemma Leaves.of_evaluate {subject formula : Noun}
    (h : exec (evaluate bound subject formula >>= f) desk = (.error fault, desk'))
    (hok : ∀ result, Noun.nock bound subject formula = .ok result →
      Leaves bound desk command fault desk') : Leaves bound desk command fault desk' := by
  cases hnock : Noun.nock bound subject formula with
  | error e =>
      rw [exec_bind_error ((exec_evaluate bound subject formula desk).trans (by rw [hnock]))] at h
      cases h
      exact Or.inl rfl
  | ok result => exact hok result hnock

end

/-- A failed command has changed nothing, unless it kept a result that cannot be printed. -/
lemma perform_error (h : exec (perform bound command) desk = (.error fault, desk')) :
    Leaves bound desk command fault desk' := by
  cases command with
  | apply text =>
      refine .of_read h fun n hread hrest => ?_
      rw [exec_bind_ok (exec_parts? n desk)] at hrest
      cases n with
      | atom k => cases hrest
      | cell subject formula =>
          exact .of_evaluate hrest fun result hnock => (Evaluates.apply hread hnock).leaves h
  | subject text =>
      refine .of_read h fun n hread hrest => ?_
      obtain ⟨written, hwritten⟩ := Desk.read_pretty hread
      simp [exec_bind, hwritten, Except.map] at hrest
  | formula text =>
      refine .of_read h fun formula hread hrest => ?_
      rw [exec_bind_ok (exec_subject desk)] at hrest
      exact .of_evaluate hrest fun result hnock => (Evaluates.formula hread hnock).leaves h
  | nock text =>
      refine .of_read h fun n hread hrest => ?_
      rw [exec_bind_ok (exec_parts? n desk)] at hrest
      cases n with
      | atom k => cases hrest
      | cell subject formula =>
          exact .of_evaluate hrest fun result hnock => (Evaluates.nock hread hnock).leaves h
  | showAll =>
      rw [perform, exec_overview] at h
      exact Or.inl (congrArg Prod.snd h).symm
  | showVariable name =>
      rw [perform, exec_bind_ok (exec_value? name desk)] at h
      cases hget : desk.vars.get? name with
      | none => simp [hget] at h
      | some value =>
          simp only [hget, bind_pure_comp, exec_map, exec_write] at h
          exact Or.inl (congrArg Prod.snd h).symm
  | help => cases h
  | assign name text =>
      refine .of_read h fun n hread hrest => ?_
      obtain ⟨written, hwritten⟩ := Desk.read_pretty hread
      simp [exec_bind, hwritten, Except.map] at hrest
  | malformed => cases h

/-! ## Notebooks -/

lemma Desk.execute_of_none {code : List Char} (h : Command.ofText? code = none) (silent : Bool) :
    desk.execute bound silent code = ({}, desk) := by
  rw [Command.ofText?] at h
  split_ifs at h with hblank
  simp only [Desk.execute, hblank, if_true]

lemma Desk.execute_of_some {code : List Char} (h : Command.ofText? code = some command)
    (silent : Bool) :
    desk.execute bound silent code =
      (Reply.ofOutcome silent (exec (perform bound command) desk).1,
        (exec (perform bound command) desk).2) := by
  rw [Command.ofText?] at h
  split_ifs at h with hblank
  cases h
  simp only [Desk.execute, hblank]
  rfl

variable {nb : Notebook} {number : Int}

@[simp] lemma kernel_putBack (desk : Desk) : (nb.putBack number desk).kernel number = desk.kernel := by
  simp [putBack, Notebook.kernel]

lemma lookup_filter_of_ne {other : Int} (h : other ≠ number) : ∀ kernels : List (Int × Kernel),
    (kernels.filter (·.1 ≠ number)).lookup other = kernels.lookup other
  | [] => rfl
  | (key, kernel) :: rest => by
      have hrest := lookup_filter_of_ne h rest
      by_cases hkey : key = number
      · have hne : (other == key) = false := by simpa [hkey] using h
        rw [List.filter_cons_of_neg (by simp [hkey]), hrest, List.lookup_cons, hne]
      · rw [List.filter_cons_of_pos (by simpa using hkey), List.lookup_cons, List.lookup_cons, hrest]

lemma kernel_putBack_of_ne {other : Int} (h : other ≠ number) (desk : Desk) :
    (nb.putBack number desk).kernel other = nb.kernel other := by
  have hne : (other == number) = false := by simpa using h
  rw [Notebook.kernel, putBack, List.lookup_cons, hne, lookup_filter_of_ne h]
  rfl

/-- What a notebook does with a command whose result cannot be printed. -/
lemma execute_of_not_printable {code : String} (hcode : Command.ofText? code.toList = some command)
    (heval : Evaluates bound (nb.desk number) command result kernel) (h : ¬result.Printable)
    (silent : Bool) :
    nb.execute bound number silent code = (Reply.ofOutcome silent (.error .longNumber),
      nb.putBack number ⟨kernel, nb.vars⟩) := by
  rw [Notebook.execute, Desk.execute_of_some hcode, heval.exec_perform,
    Noun.pretty_of_not_printable h]
  rfl

/-! ## Texts that are taken as they are -/

/-- Has the text no white space at its ends? -/
def isTrimmed (text : List Char) : Bool :=
  text.head?.all (!Text.isBlank ·) && text.getLast?.all (!Text.isBlank ·)

lemma isTrimmed_iff {text : List Char} : isTrimmed text = true ↔
    (∀ c, text.head? = some c → Text.isBlank c = false) ∧
      ∀ c, text.getLast? = some c → Text.isBlank c = false := by
  simp [isTrimmed, Option.all_eq_true]

lemma stripLeft_eq_self {text : List Char} (h : ∀ c, text.head? = some c → Text.isBlank c = false) :
    Text.stripLeft text = text := by
  cases text with
  | nil => rfl
  | cons c cs => simp [Text.stripLeft, h c rfl]

lemma strip_of_isTrimmed {text : List Char} (h : isTrimmed text = true) : Text.strip text = text := by
  obtain ⟨hhead, hlast⟩ := isTrimmed_iff.mp h
  rw [Text.strip, stripLeft_eq_self hhead, Text.stripRight,
    stripLeft_eq_self (fun c hc => hlast c (by simpa using hc)), List.reverse_reverse]

lemma dropPercentChars_eq_self {cs : List Char} (h : '%' ∉ cs) : dropPercentChars cs = cs := by
  fun_induction dropPercentChars cs with
  | case1 => simp at h
  | case2 => simp at h
  | case3 c rest _ ih => rw [ih fun hrest => h (List.mem_cons_of_mem _ hrest)]
  | case4 => rfl

/-! ## A result with one digit too many -/

/-- The text `[4 1 9…9]`, which increments the number of so many nines. -/
def bumpNines (count : Nat) : List Char :=
  ['[', '4', ' ', '1', ' '] ++ List.replicate count '9' ++ [']']

lemma ofText?_bumpNines (count : Nat) :
    Command.ofText? (bumpNines count) = some (.formula (bumpNines count)) := by
  have htrimmed : isTrimmed (bumpNines count) = true := by
    rw [isTrimmed, bumpNines, List.getLast?_concat]
    rfl
  have hpercent : '%' ∉ bumpNines count := by simp [bumpNines]
  rw [Command.ofText?, strip_of_isTrimmed htrimmed, dropPercentChars_eq_self hpercent]
  rfl

lemma run_nines : ∀ (count : Nat) (s : Noun.Scan) (position : Nat) (rest : List Char),
    s.run position (List.replicate count '9' ++ rest) =
      Noun.Scan.run { s with digits := List.replicate count '9' ++ s.digits } (position + count) rest
  | 0, s, position, rest => rfl
  | count + 1, s, position, rest => by
      have hstep : s.step position '9' = .ok { s with digits := '9' :: s.digits } := rfl
      have hdigits : List.replicate (count + 1) '9' ++ s.digits =
          List.replicate count '9' ++ '9' :: s.digits := by
        rw [List.replicate_succ', List.append_assoc, List.singleton_append]
      rw [hdigits, List.replicate_succ, List.cons_append, Noun.Scan.run, hstep, ok_bind,
        run_nines count _ (position + 1) rest, Nat.add_right_comm, Nat.add_assoc]

lemma ofDigits_nines : ∀ count : Nat, Decimal.ofDigits (List.replicate count 9) = 10 ^ count - 1
  | 0 => rfl
  | count + 1 => by
      have hpos : 0 < 10 ^ count := Nat.pow_pos (by decide)
      rw [List.replicate_succ', Decimal.ofDigits_append, ofDigits_nines count, Nat.pow_succ]
      omega

lemma mapM_nines : ∀ count : Nat,
    (List.replicate count '9').mapM Text.decimalValue? = some (List.replicate count 9)
  | 0 => rfl
  | count + 1 => by
      have hnine : Text.decimalValue? '9' = some 9 := by decide
      rw [List.replicate_succ, List.mapM_cons, mapM_nines count, hnine]
      rfl

lemma readNumber_nines {count : Nat} (h : count ≤ Decimal.maxDigits) :
    Noun.readNumber (List.replicate count '9') = .ok (10 ^ count - 1) := by
  refine Noun.readNumber_eq_ok.mpr ⟨_, ?_, mapM_nines count, ofDigits_nines count⟩
  rwa [List.length_replicate]

/-- The text spells the increment of the greatest number of so many digits. -/
lemma parseChars_bumpNines {count : Nat} (hpos : 0 < count) (h : count ≤ Decimal.maxDigits) :
    Noun.parseChars (bumpNines count) =
      .ok (.formula 4 (.formula 1 (.atom (10 ^ count - 1 : Nat)))) := by
  have hrun : Noun.Scan.run {} 0 (bumpNines count) =
      Noun.Scan.run ⟨List.replicate count '9' ++ [], ⟨0, [.atom 1, .atom 4]⟩, [⟨0, []⟩]⟩
        (5 + count) [']'] := by
    rw [← run_nines count ⟨[], ⟨0, [.atom 1, .atom 4]⟩, [⟨0, []⟩]⟩ 5]
    rfl
  have hend : Noun.Scan.endNumber
      ⟨List.replicate count '9' ++ [], ⟨0, [.atom 1, .atom 4]⟩, [⟨0, []⟩]⟩ =
      .ok ⟨[], ⟨0, [.atom (10 ^ count - 1 : Nat), .atom 1, .atom 4]⟩, [⟨0, []⟩]⟩ := by
    have hempty : (List.replicate count '9').isEmpty = false := by
      simp [Nat.ne_of_gt hpos]
    rw [List.append_nil, Noun.Scan.endNumber]
    simp only [hempty, List.reverse_replicate, readNumber_nines h]
    rfl
  rw [Noun.parseChars, hrun, Noun.Scan.run, Noun.Scan.step, if_neg (by decide), if_pos rfl]
  simp only [hend, ok_bind]
  rfl

/-- The limit itself has one digit too many. -/
lemma not_printable_limit : ¬(Noun.atom (10 ^ Decimal.maxDigits : Nat)).Printable := by
  rw [Noun.Printable, Decimal.fits_natCast]
  exact Nat.lt_irrefl _

/-- A fresh kernel evaluates the text to the power of ten. -/
lemma evaluates_bumpNines (count : Nat) (hpos : 0 < count) (h : count ≤ Decimal.maxDigits) :
    Evaluates 3 (Notebook.desk {} 0) (.formula (bumpNines count)) (.atom (10 ^ count : Nat))
      ⟨.atom 0, some (.atom (10 ^ count : Nat))⟩ := by
  have hread : (Notebook.desk {} 0).read (bumpNines count) = Noun.parseChars (bumpNines count) := rfl
  have hnock : ∀ k : Int, Noun.nock 3 (.atom 0) (.formula 4 (.formula 1 (.atom k))) =
      .ok (.atom (k + 1)) := fun k => rfl
  have hlimit : ((10 ^ count - 1 : Nat) : Int) + 1 = (10 ^ count : Nat) := by
    have : 0 < 10 ^ count := Nat.pow_pos (by decide)
    omega
  refine .formula (hread.trans (parseChars_bumpNines hpos h)) ?_
  rw [← hlimit]
  exact hnock _

/-- The text with as many nines as can be read. -/
def longBump : String :=
  String.ofList (bumpNines Decimal.maxDigits)

lemma ofText?_longBump :
    Command.ofText? longBump.toList = some (.formula (bumpNines Decimal.maxDigits)) := by
  rw [longBump, String.toList_ofList, ofText?_bumpNines]

/-! ## Failed commands -/

/-- **What a failed command leaves behind.**  If a text is answered with a fault, the variables and
all other kernels are as before.  So is the kernel itself, unless the text asked for an evaluation
that ended with a result of too many digits.  Every such evaluation is answered with the fault that
says so and leaves its result, and `.*( … )` leaves its subject as well. -/
theorem execute_error_leaves (bound : Nat) (nb : Notebook) (number : Int) (silent : Bool)
    (code : String) :
    let reply := (nb.execute bound number silent code).1
    let after := (nb.execute bound number silent code).2
    (∀ fault, reply.fault = some fault →
      after.vars = nb.vars ∧ (∀ other, other ≠ number → after.kernel other = nb.kernel other) ∧
      (after.kernel number = nb.kernel number ∨
        fault = .longNumber ∧ ∃ command result, Command.ofText? code.toList = some command ∧
          ¬result.Printable ∧ Evaluates bound (nb.desk number) command result (after.kernel number))) ∧
    (∀ command result kernel, Command.ofText? code.toList = some command → ¬result.Printable →
      Evaluates bound (nb.desk number) command result kernel →
        reply.fault = some .longNumber ∧ after.kernel number = kernel) := by
  rcases hexecute : nb.execute bound number silent code with ⟨reply, after⟩
  dsimp only
  refine ⟨fun fault hfault => ?_, fun command result kernel hcode hprint heval => ?_⟩
  · cases hcode : Command.ofText? code.toList with
    | none =>
        rw [Notebook.execute, Desk.execute_of_none hcode] at hexecute
        cases hexecute
        cases hfault
    | some command =>
        rw [Notebook.execute, Desk.execute_of_some hcode] at hexecute
        rcases hrun : exec (perform bound command) (nb.desk number) with ⟨outcome, desk'⟩
        rw [hrun] at hexecute
        cases hexecute
        cases outcome with
        | ok said => cases hfault
        | error e =>
            cases hfault
            refine ⟨?_, fun other hother => kernel_putBack_of_ne hother desk', ?_⟩
            · rcases perform_error hrun with rfl | ⟨-, _, kernel, -, -, rfl⟩ <;> rfl
            · rw [kernel_putBack]
              rcases perform_error hrun with rfl | ⟨rfl, result, kernel, hprint, heval, rfl⟩
              · exact Or.inl rfl
              · exact Or.inr ⟨rfl, command, result, rfl, hprint, heval⟩
  · rw [execute_of_not_printable hcode heval hprint] at hexecute
    cases hexecute
    exact ⟨rfl, kernel_putBack _⟩

/-- A notebook in use: two kernels and a variable. -/
def usedNotebook : Notebook :=
  ⟨[(0, ⟨.atom 7, some (.atom 8)⟩), (1, ⟨.atom 9, none⟩)], [("x", .atom 1)]⟩

theorem execute_error_leaves_unclosed :
    ((usedNotebook.execute 3 0 false "[0 x").1.fault = some (.unclosed 0) ∧
      (usedNotebook.execute 3 0 false "[0 x").2.vars = usedNotebook.vars ∧
      (usedNotebook.execute 3 0 false "[0 x").2.kernel 0 = usedNotebook.kernel 0) ∧
    (Notebook.execute 3 {} 0 true longBump).1.fault = some .longNumber ∧
      (Notebook.execute 3 {} 0 true longBump).2.kernel 0 =
        ⟨.atom 0, some (.atom (10 ^ Decimal.maxDigits : Nat))⟩ := by
  have hfault : (usedNotebook.execute 3 0 false "[0 x").1.fault = some (.unclosed 0) := by
    decide +kernel
  obtain ⟨hvars, -, hkernel⟩ := (execute_error_leaves 3 usedNotebook 0 false "[0 x").1 _ hfault
  have heval := evaluates_bumpNines Decimal.maxDigits (by decide) (Nat.le_refl _)
  refine ⟨⟨hfault, hvars, hkernel.resolve_right ?_⟩,
    (execute_error_leaves 3 {} 0 true longBump).2 _ _ _ ofText?_longBump not_printable_limit heval⟩
  rintro ⟨hlong, -⟩
  cases hlong

/-- A failed command can change the last result: a fresh kernel, which has none, answers `longBump`
with a fault and has a last result then. -/
theorem execute_error_keeps_result :
    (Notebook.execute 3 {} 0 false longBump).1.fault = some .longNumber ∧
    (Notebook.kernel {} 0).last = none ∧
    ((Notebook.execute 3 {} 0 false longBump).2.kernel 0).last =
      some (.atom (10 ^ Decimal.maxDigits : Nat)) := by
  have heval := evaluates_bumpNines Decimal.maxDigits (by decide) (Nat.le_refl _)
  rw [execute_of_not_printable ofText?_longBump heval not_printable_limit false]
  exact ⟨rfl, rfl, by rw [kernel_putBack]⟩

end Nock.Notebook
