import Mathlib.Data.List.TakeWhile
import Nock.Proofs.Notebook.Isolation
import Nock.Proofs.Notebook.Words

/-!
# Defining variables

A text `:name value` defines a variable, and `:show name` shows it.  A definition is recognised only
after the command words were tried, and a command word counts even when something follows it without
a space.  So a name that **begins** with a command word is out of reach: `:helper 5` asks for help.

`isReserved` says which names these are.  For all others the text is understood as a definition
(`ofText?_definition`), whatever variables there are, because nothing is replaced in the text of a
noun; for these it never is (`ofText?_reserved`).  White space after the colon helps, because no
command word begins with it.
-/

namespace Nock.Notebook

open Deskwork

/-! ## Command words -/

/-- The words that name commands after a colon. -/
def commandWords : List String :=
  ["subject", "formula", "nock", "show", "help"]

/-- Does the name begin with a command word? -/
def isReserved (name : String) : Bool :=
  commandWords.any fun word => word.toList.isPrefixOf name.toList

section

variable {body rest : List Char}

lemma isSome_after? : ∀ start text : List Char, (after? start text).isSome = start.isPrefixOf text
  | [], _ => rfl
  | _ :: _, [] => rfl
  | s :: start, c :: text => by
      rw [after?, List.isPrefixOf]
      by_cases h : s = c
      · simp [h, isSome_after? start text]
      · simp [h]

lemma after?_colon (word : String) (body : List Char) :
    after? (":" ++ word).toList (':' :: body) = after? word.toList body := by
  rw [String.toList_append]
  exact if_pos rfl

/-- A word without spaces begins a text exactly if it begins the part in front of a space. -/
lemma isPrefixOf_before_space {word : List Char} (hword : ' ' ∉ word) (name : List Char) :
    word.isPrefixOf (name ++ ' ' :: rest) = word.isPrefixOf name := by
  induction word generalizing name with
  | nil => simp
  | cons c word ih =>
      rw [List.mem_cons, not_or] at hword
      cases name with
      | nil => simp [List.isPrefixOf, Ne.symm hword.1]
      | cons d name => simp [List.isPrefixOf, ih hword.2]

/-- A command word is seen in a definition exactly if the name begins with it. -/
lemma isSome_after?_commandWord {word : String} (hword : word ∈ commandWords) (name : String) :
    (after? word.toList (name.toList ++ ' ' :: rest)).isSome
      = word.toList.isPrefixOf name.toList := by
  have hspace : ∀ word ∈ commandWords, ' ' ∉ word.toList := by decide
  rw [isSome_after?, isPrefixOf_before_space (hspace word hword)]

/-- No command word begins with white space. -/
lemma isSome_after?_commandWord_blank {word : String} (hword : word ∈ commandWords) {c : Char}
    (hc : Text.isBlank c = true) : (after? word.toList (c :: rest)).isSome = false := by
  have hbegins : ∀ word ∈ commandWords, word.toList.head?.any Text.isBlank = false := by decide
  have hhead := hbegins word hword
  have hne : ∀ word ∈ commandWords, word.toList ≠ [] := by decide
  obtain ⟨d, ds, hcons⟩ := List.exists_cons_of_ne_nil (hne word hword)
  rw [hcons, List.head?_cons, Option.any_some] at hhead
  rw [hcons, after?, if_neg]
  · rfl
  · rintro rfl
    rw [hc] at hhead
    cases hhead

/-- After a colon the command words come first, in their order, and a definition last. -/
lemma ofChars_colon (body : List Char) :
    Command.ofChars (':' :: body) =
      if let some rest := after? "subject".toList body then .subject (Text.strip rest)
      else if let some rest := after? "formula".toList body then .formula (Text.strip rest)
      else if let some rest := after? "nock".toList body then .nock (Text.strip rest)
      else if (after? "show".toList body).isSome then shown (':' :: body)
      else if (after? "help".toList body).isSome then .help
      else match assignment? body with
        | some (name, value) => .assign name value
        | none => .malformed := by
  have happlied : applied? (':' :: body) = none := rfl
  have hcolon : after? ":".toList (':' :: body) = some body := rfl
  rewrite [Command.ofChars, happlied, hcolon, show ":subject" = ":" ++ "subject" by decide,
    show ":formula" = ":" ++ "formula" by decide, show ":nock" = ":" ++ "nock" by decide,
    show ":show" = ":" ++ "show" by decide, show ":help" = ":" ++ "help" by decide, after?_colon,
    after?_colon, after?_colon, after?_colon, after?_colon]
  rfl

lemma ofChars_colon_of_none (h : ∀ word ∈ commandWords, after? word.toList body = none) :
    Command.ofChars (':' :: body) =
      match assignment? body with
      | some (name, value) => .assign name value
      | none => .malformed := by
  simp only [commandWords, List.forall_mem_cons] at h
  obtain ⟨hsubject, hformula, hnock, hshow, hhelp, -⟩ := h
  simp only [ofChars_colon, hsubject, hformula, hnock, hshow, hhelp, Option.isSome_none,
    Bool.false_eq_true, if_false]

/-- What is understood as a definition has no command word after its colon. -/
lemma after?_eq_none_of_assign {name : String} {value : List Char}
    (h : Command.ofChars (':' :: body) = .assign name value) :
    ∀ word ∈ commandWords, after? word.toList body = none := by
  rw [ofChars_colon] at h
  split at h
  · cases h
  next hsubject =>
  split at h
  · cases h
  next hformula =>
  split at h
  · cases h
  next hnock =>
  split_ifs at h with hshow hhelp
  · rw [shown] at h
    split at h <;> cases h
  simp only [commandWords, List.forall_mem_cons]
  exact ⟨Option.eq_none_iff_forall_ne_some.mpr hsubject,
    Option.eq_none_iff_forall_ne_some.mpr hformula, Option.eq_none_iff_forall_ne_some.mpr hnock,
    Option.not_isSome_iff_eq_none.mp hshow, Option.not_isSome_iff_eq_none.mp hhelp,
    List.forall_mem_nil _⟩

end

/-! ## Understanding definitions -/

section

variable {name : String} {s gap : List Char}

lemma isBlank_of_isNameChar {c : Char} (h : isNameChar c = true) : Text.isBlank c = false :=
  ascii_forall (P := fun c => isNameChar c = true → Text.isBlank c = false) (by decide +kernel)
    (toNat_lt_of_isNameChar h) h

lemma exists_cons_of_isName (h : isName name = true) :
    ∃ c cs, name.toList = c :: cs ∧ isNameStart c = true ∧
      ∀ d ∈ name.toList, isNameChar d = true := by
  simp only [isName, Bool.and_eq_true, List.all_eq_true] at h
  cases hname : name.toList with
  | nil => simp [hname] at h
  | cons c cs => exact ⟨c, cs, rfl, by simpa [hname] using h.1, by simpa [hname] using h.2⟩

/-- A name has no white space at its ends, as it has none at all. -/
lemma isTrimmed_name (h : isName name = true) : isTrimmed name.toList = true := by
  obtain ⟨-, -, -, -, hall⟩ := exists_cons_of_isName h
  refine isTrimmed_iff.mpr ⟨fun c hc => ?_, fun c hc => ?_⟩
  · exact isBlank_of_isNameChar (hall c (List.mem_of_head? hc))
  · exact isBlank_of_isNameChar (hall c (List.mem_of_getLast? hc))

lemma not_mem_name (h : isName name = true) {c : Char} (hc : isNameChar c = false) :
    c ∉ name.toList := by
  obtain ⟨-, -, -, -, hall⟩ := exists_cons_of_isName h
  intro hmem
  rw [hall c hmem] at hc
  cases hc

/-- The name ends at the space behind it, and the value at the end of the text. -/
lemma assignment?_eq (hgap : ∀ c ∈ gap, Text.isBlank c = true) (hname : isName name = true)
    (hs : NounText s) : assignment? (gap ++ (name.toList ++ ' ' :: s)) = some (name, s) := by
  obtain ⟨c, cs, hcons, hstart, hall⟩ := exists_cons_of_isName hname
  have hhead : name.toList.head?.any isNameStart = true := by simp [hcons, hstart]
  have hspace : isNameChar ' ' = false := by decide
  have hblank : Text.isBlank ' ' = true := by decide
  have hleft : Text.stripLeft (gap ++ (name.toList ++ ' ' :: s)) = name.toList ++ ' ' :: s := by
    rw [Text.stripLeft, List.dropWhile_append_of_pos hgap]
    refine stripLeft_eq_self fun d hd => ?_
    rw [hcons, List.cons_append, List.head?_cons, Option.some.injEq] at hd
    subst hd
    exact isBlank_of_isNameChar (isNameChar_of_isNameStart hstart).1
  have htake : (name.toList ++ ' ' :: s).takeWhile isNameChar = name.toList := by
    rw [List.takeWhile_append_of_pos hall, List.takeWhile_cons_of_neg (by simp [hspace]),
      List.append_nil]
  have hdrop : (name.toList ++ ' ' :: s).dropWhile isNameChar = ' ' :: s := by
    rw [List.dropWhile_append_of_pos hall, List.dropWhile_cons_of_neg (by simp [hspace])]
  have hvalue : (Text.stripLeft (' ' :: s)).takeWhile (· != '\n') = s := by
    have htrim := stripLeft_eq_self (isTrimmed_iff.mp hs.trimmed).1
    rw [Text.stripLeft, List.dropWhile_cons_of_pos hblank, ← Text.stripLeft, htrim,
      List.takeWhile_eq_self_iff]
    intro d hd
    rw [bne_iff_ne]
    rintro rfl
    exact hs.not_mem (c := '\n') rfl hd
  simp only [assignment?, hleft, htake, hdrop, hvalue, hhead]
  simp [hblank, hs.nonempty, strip_of_isTrimmed hs.trimmed]

/-- A definition has no white space at its ends and no percent sign. -/
lemma ofText?_colon (hgap : ∀ c ∈ gap, Text.isBlank c = true) (hname : isName name = true)
    (hs : NounText s) :
    Command.ofText? (':' :: (gap ++ (name.toList ++ ' ' :: s)))
      = some (.ofChars (':' :: (gap ++ (name.toList ++ ' ' :: s)))) := by
  have htrim : isTrimmed ([':'] ++ (gap ++ (name.toList ++ [' '])) ++ s) = true :=
    isTrimmed_around (by decide) hs.trimmed (by simp) hs.nonempty _
  have hgap' : '%' ∉ gap := fun hmem => absurd (hgap '%' hmem) (by decide)
  have hname' : '%' ∉ name.toList := not_mem_name hname (by decide)
  have hs' : '%' ∉ s := hs.not_mem rfl
  exact ofText?_of_isTrimmed (by simpa using htrim) (by simp) (by simp [hgap', hname', hs'])

/-- A text defines a name if the name begins with no command word, or white space is in front of
it. -/
lemma ofText?_definition (hgap : ∀ c ∈ gap, Text.isBlank c = true) (hname : isName name = true)
    (hfree : gap = [] → isReserved name = false) (hs : NounText s) :
    Command.ofText? (':' :: (gap ++ (name.toList ++ ' ' :: s))) = some (.assign name s) := by
  have hnone : ∀ word ∈ commandWords,
      after? word.toList (gap ++ (name.toList ++ ' ' :: s)) = none := by
    intro word hword
    rw [← Option.not_isSome_iff_eq_none, Bool.not_eq_true]
    cases gap with
    | nil =>
        have hnot := List.any_eq_false.mp (hfree rfl) word hword
        rw [List.nil_append, isSome_after?_commandWord hword]
        exact Bool.eq_false_iff.mpr hnot
    | cons c cs =>
        rw [List.cons_append]
        exact isSome_after?_commandWord_blank hword (hgap c List.mem_cons_self)
  rw [ofText?_colon hgap hname hs, ofChars_colon_of_none hnone, assignment?_eq hgap hname hs]

/-- A text with a command word after its colon defines nothing. -/
lemma ofText?_reserved (hname : isName name = true) (hreserved : isReserved name = true)
    (hs : NounText s) :
    ∃ command, Command.ofText? (':' :: (name.toList ++ ' ' :: s)) = some command ∧
      ∀ other value, command ≠ .assign other value := by
  obtain ⟨word, hword, hbegins⟩ := List.any_eq_true.mp hreserved
  have hsome : (after? word.toList (name.toList ++ ' ' :: s)).isSome = true :=
    (isSome_after?_commandWord hword name).trans hbegins
  have hcode := ofText?_colon (List.forall_mem_nil _) hname hs
  rw [List.nil_append] at hcode
  refine ⟨_, hcode, fun other value hassign => ?_⟩
  rw [after?_eq_none_of_assign hassign word hword] at hsome
  cases hsome

/-- Any name can be shown. -/
lemma ofText?_show (hname : isName name = true) :
    Command.ofText? (":show".toList ++ ' ' :: name.toList) = some (.showVariable name) := by
  obtain ⟨c, cs, hcons, -, -⟩ := exists_cons_of_isName hname
  have htrimmed := isTrimmed_name hname
  have htrim : isTrimmed (":show".toList ++ [' '] ++ name.toList) = true :=
    isTrimmed_around (by decide) htrimmed (by decide) (by simp [hcons]) _
  have hsplit : (Text.splitBlank (":show".toList ++ ' ' :: name.toList)).2 = name.toList := by
    have hword : ∀ d ∈ ":show".toList, (!Text.isBlank d) = true := List.all_eq_true.mp (by decide)
    have hspace : Text.isBlank ' ' = true := by decide
    rw [Text.splitBlank, List.dropWhile_append_of_pos hword,
      List.dropWhile_cons_of_neg (by simp [hspace]), Text.stripLeft,
      List.dropWhile_cons_of_pos hspace]
    exact stripLeft_eq_self (isTrimmed_iff.mp htrimmed).1
  have hshown : Command.ofChars (":show".toList ++ ' ' :: name.toList)
      = shown (":show".toList ++ ' ' :: name.toList) := rfl
  have hpercent : '%' ∉ name.toList := not_mem_name hname (by decide)
  rw [ofText?_of_isTrimmed (by simpa using htrim) (by simp) (by simpa using hpercent), hshown, shown,
    hsplit]
  split
  · simp_all
  · rw [strip_of_isTrimmed htrimmed, String.ofList_toList]

end

/-! ## Defining and showing -/

section

variable {nb : Notebook} {desk : Desk} {name : String} {value : Noun} {s : String}

lemma Bindings.get?_set {ρ : Type} (vars : Bindings ρ) (name other : String) (value : ρ) :
    (vars.set name value).get? other = if other = name then some value else vars.get? other := by
  induction vars with
  | nil => rw [set, get?_cons]
  | cons first rest ih =>
      obtain ⟨key, old⟩ := first
      rw [set, get?_cons]
      by_cases hkey : key = name
      · rw [if_pos hkey, get?_cons, hkey]
        split_ifs <;> rfl
      · rw [if_neg hkey, get?_cons, ih]
        split_ifs <;> simp_all

lemma exec_perform_assign {text : List Char} (hread : desk.read text = .ok value)
    (hs : value.pretty false = .ok s) (bound : Nat) :
    exec (perform bound (.assign name text)) desk =
      (.ok ("Variable '" ++ name ++ "' set to: " ++ s),
        ⟨desk.kernel, desk.vars.set name value⟩) := by
  simp [perform, exec_bind, hread, hs, Except.map]

lemma exec_perform_showVariable (hget : desk.vars.get? name = some value)
    (hs : value.pretty false = .ok s) (bound : Nat) :
    exec (perform bound (.showVariable name)) desk = (.ok (name ++ " = " ++ s), desk) := by
  simp [perform, exec_bind, hget, hs, Except.map]

/-- A definition by the text of a noun succeeds, whatever variables there are. -/
lemma execute_assign {code : String} (hvars : nb.vars.Proper) (hvalue : value.Legible)
    (hs : value.pretty false = .ok s)
    (hcode : Command.ofText? code.toList = some (.assign name s.toList)) (bound : Nat)
    (number : Int) (silent : Bool) :
    nb.execute bound number silent code =
      (.ofOutcome silent (.ok ("Variable '" ++ name ++ "' set to: " ++ s)),
        nb.putBack number ⟨nb.kernel number, nb.vars.set name value⟩) := by
  have hread : (nb.desk number).read s.toList = .ok value :=
    ((NounText.of_pretty hvalue.1 hs).read hvars).trans (Noun.parse_of_pretty hvalue hs)
  rw [Notebook.execute, Desk.execute_of_some hcode, exec_perform_assign hread hs]
  rfl

/-- A variable is shown with its value. -/
lemma execute_show (hname : isName name = true) (hget : nb.vars.get? name = some value)
    (hs : value.pretty false = .ok s) (bound : Nat) (number : Int) (silent : Bool) :
    (nb.execute bound number silent (":show " ++ name)).1
      = .ofOutcome silent (.ok (name ++ " = " ++ s)) := by
  have hcode : Command.ofText? (":show " ++ name).toList = some (.showVariable name) := by
    simpa using ofText?_show hname
  have hget' : (nb.desk number).vars.get? name = some value := hget
  rw [Notebook.execute, Desk.execute_of_some hcode, exec_perform_showVariable hget' hs]

/-- Putting back the kernel that was taken leaves all kernels. -/
lemma kernel_putBack_self (number : Int) (vars : Variables) (other : Int) :
    (nb.putBack number ⟨nb.kernel number, vars⟩).kernel other = nb.kernel other := by
  by_cases h : other = number
  · rw [h, kernel_putBack]
  · exact kernel_putBack_of_ne h _

lemma Bindings.set_of_not_mem {ρ : Type} {vars : Bindings ρ} {value : ρ}
    (h : ∀ entry ∈ vars, entry.1 ≠ name) : vars.set name value = vars ++ [(name, value)] := by
  induction vars with
  | nil => rfl
  | cons first rest ih =>
      obtain ⟨hfirst, hrest⟩ := List.forall_mem_cons.mp h
      rw [set, if_neg hfirst, ih hrest, List.cons_append]

/-- Any proper variables with distinct names can be defined, in any order. -/
lemma exists_reachable {vars : Variables} (hvars : vars.Proper) (hdistinct : vars.Distinct) :
    ∃ nb, Reachable nb ∧ nb.vars = vars := by
  induction vars using List.reverseRecOn with
  | nil => exact ⟨{}, .fresh, rfl⟩
  | append_singleton vars entry ih =>
      obtain ⟨name, value⟩ := entry
      obtain ⟨hname, hvalue⟩ := hvars (name, value) (by simp)
      rw [Variables.Distinct, List.map_append, List.nodup_append] at hdistinct
      obtain ⟨hfirst, -, hnew⟩ := hdistinct
      obtain ⟨nb, hnb, rfl⟩ := ih (fun entry h => hvars entry (List.mem_append_left _ h)) hfirst
      obtain ⟨s, hs⟩ := hvalue.2.pretty false
      have hgap : ∀ c ∈ [' '], Text.isBlank c = true := List.forall_mem_singleton.mpr (by decide)
      have hcode : Command.ofText? (": " ++ name ++ " " ++ s).toList
          = some (.assign name s.toList) := by
        simpa using ofText?_definition hgap hname (by simp) (.of_pretty hvalue.1 hs)
      refine ⟨_, hnb.execute 0 0 false (": " ++ name ++ " " ++ s), ?_⟩
      rw [execute_assign hnb.proper hvalue hs hcode]
      exact Bindings.set_of_not_mem fun entry h =>
        hnew entry.1 (List.mem_map_of_mem h) name (by simp)

end

/-- **Definitions take effect unless a command word is in the way.**  Whatever texts led to the
notebook, let a variable be defined by the text of a noun.  If its name begins with no command word,
the answer says so, the variable has the noun as its value, all other variables and all kernels are as
before, and any kernel shows the variable with its value.  If the name begins with a command word, the
text changes no variable. -/
theorem definition_takes_effect {nb : Notebook} (hnb : Reachable nb) {name : String}
    (hname : isName name = true) {n : Noun} (hn : n.Legible) :
    ∃ s, n.pretty false = .ok s ∧ ∀ bound number silent,
      let defined := nb.execute bound number silent (":" ++ name ++ " " ++ s)
      (isReserved name = false →
        defined.1 = ⟨none, if silent then [] else
          [.output ("Variable '" ++ name ++ "' set to: " ++ s ++ "\n")]⟩ ∧
        defined.2.vars.get? name = some n ∧
        (∀ other, other ≠ name → defined.2.vars.get? other = nb.vars.get? other) ∧
        (∀ k, defined.2.kernel k = nb.kernel k) ∧
        ∀ bound' k, (defined.2.execute bound' k false (":show " ++ name)).1
          = ⟨none, [.output (name ++ " = " ++ s ++ "\n")]⟩) ∧
      (isReserved name = true → defined.2.vars = nb.vars) := by
  obtain ⟨s, hs⟩ := hn.2.pretty false
  have htext := NounText.of_pretty hn.1 hs
  refine ⟨s, hs, fun bound number silent => ⟨fun hfree => ?_, fun hreserved => ?_⟩⟩
  · have hcode : Command.ofText? (":" ++ name ++ " " ++ s).toList = some (.assign name s.toList) := by
      simpa using ofText?_definition (List.forall_mem_nil _) hname (fun _ => hfree) htext
    rw [execute_assign hnb.proper hn hs hcode]
    have hget : (nb.vars.set name n).get? name = some n := by
      rw [Bindings.get?_set, if_pos rfl]
    refine ⟨rfl, hget, fun other hother => ?_, kernel_putBack_self number _, fun bound' k => ?_⟩
    · exact (Bindings.get?_set nb.vars name other n).trans (if_neg hother)
    · exact execute_show hname hget hs bound' k false
  · obtain ⟨command, hcode, hother⟩ := ofText?_reserved hname hreserved htext
    have hcode' : Command.ofText? (":" ++ name ++ " " ++ s).toList = some command := by
      simpa using hcode
    rw [Notebook.execute, Desk.execute_of_some hcode']
    exact perform_keeps_vars bound hother (nb.desk number)

/-- Two kernels have defined a variable each. -/
def twoDefinitions : Notebook :=
  ((Notebook.execute 9 {} 0 false ":x [1 2]").2.execute 9 1 false ":x-y 3").2

/-- A part of a command word can be defined, next to other variables; what begins with the whole word
cannot. -/
theorem definition_takes_effect_part :
    (Reachable twoDefinitions ∧ isName "hel" = true ∧ isReserved "hel" = false ∧
      isName "helper" = true ∧ isReserved "helper" = true ∧
      (Noun.cell (.atom 1) (.atom 2)).Legible ∧
      (Noun.cell (.atom 1) (.atom 2)).pretty false = .ok "[1 2]") ∧
    (twoDefinitions.execute 9 0 false ":helper [1 2]").2.vars = twoDefinitions.vars ∧
    let defined := twoDefinitions.execute 9 0 false ":hel [1 2]"
    defined.1 = ⟨none, [.output "Variable 'hel' set to: [1 2]\n"]⟩ ∧
    defined.2.vars.get? "hel" = some (.cell (.atom 1) (.atom 2)) ∧
    defined.2.vars.get? "x-y" = twoDefinitions.vars.get? "x-y" ∧
    defined.2.kernel 0 = twoDefinitions.kernel 0 ∧
    (defined.2.execute 9 1 false ":show hel").1 = ⟨none, [.output "hel = [1 2]\n"]⟩ := by
  have hnb : Reachable twoDefinitions := (Reachable.fresh.execute _ _ _ _).execute _ _ _ _
  have hlegible : (Noun.cell (.atom 1) (.atom 2)).Legible := ⟨by decide, by decide +kernel⟩
  have hpretty : (Noun.cell (.atom 1) (.atom 2)).pretty false = .ok "[1 2]" := by decide +kernel
  obtain ⟨s, hs, hpart⟩ := definition_takes_effect hnb (show isName "hel" = true by decide) hlegible
  obtain ⟨s', hs', hwhole⟩ :=
    definition_takes_effect hnb (show isName "helper" = true by decide) hlegible
  cases hpretty.symm.trans hs
  cases hpretty.symm.trans hs'
  rw [show ":" ++ "hel" ++ " " ++ "[1 2]" = ":hel [1 2]" by decide] at hpart
  rw [show ":" ++ "helper" ++ " " ++ "[1 2]" = ":helper [1 2]" by decide] at hwhole
  obtain ⟨hreply, hget, hother, hkernel, hshow⟩ := (hpart 9 0 false).1 (by decide)
  exact ⟨⟨hnb, by decide, by decide, by decide, by decide, hlegible, hpretty⟩,
    (hwhole 9 0 false).2 (by decide), hreply.trans (by decide), hget, hother "x-y" (by decide),
    hkernel 0, (hshow 9 1).trans (by decide)⟩

/-- A proper name that is no command word need not be defined: `:helper 5` asks for help. -/
theorem helper_not_defined :
    isName "helper" = true ∧ "helper" ∉ commandWords ∧ (Noun.atom 5).Legible ∧
    (Noun.atom 5).pretty false = .ok "5" ∧
    let defined := Notebook.execute 9 {} 0 false ":helper 5"
    defined.1 = ⟨none, [.output (About.help ++ "\n")]⟩ ∧ defined.2.vars.get? "helper" = none ∧
    (defined.2.execute 9 0 false ":show helper").1
      = ⟨none, [.output "Variable 'helper' not found\n"]⟩ := by
  have hcode : Command.ofText? ":helper 5".toList = some .help := by decide +kernel
  refine ⟨by decide, by decide, ⟨by decide, by decide +kernel⟩, by decide +kernel, ?_,
    by decide +kernel, by decide +kernel⟩
  rw [Notebook.execute, Desk.execute_of_some hcode]
  rfl

end Nock.Notebook
