import Mathlib.Data.List.Pairwise
import Nock.Proofs.Notebook.Definition

/-!
# Independent variables

A name may have hyphens, and a hyphen is a word boundary.  So one name can begin inside an occurrence
of another one, like `a` and `a-b`, and then the variable that is replaced first spoils the occurrence
of the other.  The order also matters for a name that ends with a hyphen, which occurs in front of
words only, and for a name like `b-5`, which a value can complete.

`Spares` says that a pass does nothing of this to the name of another variable.  If two variables spare
each other, their passes commute (`Independent.pass_comm`).  The proof follows the words of the text:
where the result of a pass begins with the other name, the text did (`Spares.at_of_pass`), because the
text can be cut wherever the result can (`Whole.exists_split`).

Names that have no word in common are easily seen to be independent (`Independent.of_runs`).
-/

namespace Nock.Notebook

/-! ## Passes -/

/-- Replace one variable. -/
def pass (entry : String × Noun) (text : List Char) : List Char :=
  replaceWord entry.1.toList (valueText entry.2) text

/-- The name begins inside of an occurrence of the other name, or where it begins. -/
def BeginsInside (name other : List Char) : Prop :=
  ∃ passed left rest, other = passed ++ left ∧ left ≠ [] ∧
    occursHere other none (other ++ rest) = true ∧
    occursHere name passed.getLast? (left ++ rest) = true

/-- The pass of the first variable leaves the name of the second one alone, wherever it occurs, and
never completes it. -/
structure Spares (a b : String × Noun) : Prop where
  ends : endsWord a.1.toList = true
  apart : ¬BeginsInside a.1.toList b.1.toList
  completes : ∀ text, pass a text = b.1.toList → text = b.1.toList

/-- The variables spare each other. -/
def Independent (a b : String × Noun) : Prop :=
  Spares a b ∧ Spares b a

/-- A variable as it is defined, with a name that does not end with a hyphen. -/
structure Whole (entry : String × Noun) : Prop where
  isName : isName entry.1 = true
  ends : endsWord entry.1.toList = true
  legible : entry.2.Legible

lemma Independent.symm {a b : String × Noun} (h : Independent a b) : Independent b a :=
  And.symm h

/-! ## Cutting texts -/

section

variable {text rest word s : List Char} {c : Char}

lemma startsWord_append (h : startsWord text = false) (hrest : startsWord rest = false) :
    startsWord (text ++ rest) = false := by
  cases text with
  | nil => exact hrest
  | cons c cs => exact h

lemma startsWord_of_append (h : startsWord (text ++ rest) = false) : startsWord text = false := by
  cases text with
  | nil => rfl
  | cons c cs => exact h

lemma At.append {name : List Char} (h : At name text) (hrest : startsWord rest = false) :
    At name (text ++ rest) := by
  obtain ⟨after, rfl, hafter⟩ := h
  exact ⟨after ++ rest, List.append_assoc _ _ _, startsWord_append hafter hrest⟩

/-- A text that does not begin with a word cannot cut one. -/
lemma exists_append_of_word {first second : List Char} (hword : IsWordText word)
    (hsecond : startsWord second = false) (h : word ++ rest = first ++ second) :
    ∃ more, first = word ++ more ∧ rest = more ++ second := by
  rcases List.append_eq_append_iff.mp h with ⟨more, hfirst, hrest⟩ | ⟨left, hleft, hcut⟩
  · exact ⟨more, hfirst, hrest⟩
  · cases left with
    | nil => exact ⟨[], by simpa using hleft.symm, by simpa using hcut.symm⟩
    | cons c cs =>
        have hc : Text.isWord c = true := hword.2 c (by simp [hleft])
        simp [hcut, startsWord, hc] at hsecond

lemma endsWord_append {first : List Char} (hne : rest ≠ []) :
    endsWord (first ++ rest) = endsWord rest := by
  rw [endsWord, List.getLast?_append_of_ne_nil _ hne]

lemma startsWord_append_of_word (h : IsWordText word) : startsWord (word ++ rest) = true := by
  obtain ⟨c, cs, rfl⟩ := List.exists_cons_of_ne_nil h.1
  exact h.2 c List.mem_cons_self

/-! ## Steps of a pass -/

/-- The text of a noun is a number, or it begins with a bracket. -/
lemma valueText_cases {n : Noun} (h : n.Legible) :
    IsWordText (valueText n) ∨ (valueText n).head? = some '[' := by
  obtain ⟨written, hwritten⟩ := h.2.pretty false
  rw [valueText_of_pretty hwritten, ← Noun.text_derivation h.1 hwritten]
  cases n with
  | atom k =>
      left
      rw [Noun.derivation, Noun.Derivation.text, Noun.Derivation.text, List.append_nil]
      refine ⟨Nat.toDigits_ne_nil, fun c hc => ?_⟩
      have hdigit := isDigit_of_mem_toDigits hc
      have hname : isNameChar c = true := by simp [isNameChar, Char.isAlphanum, hdigit]
      rw [isWord_of_isNameChar hname, bne_iff_ne]
      rintro rfl
      cases hdigit
  | cell hd tl => exact Or.inr rfl

/-- A pass keeps the text of a noun. -/
lemma replaceFrom_noun {name : String} (hname : isName name = true) (hs : NounText s)
    (value : List Char) (before : Option Char) :
    replaceFrom name.toList value 0 before (s ++ rest)
      = s ++ replaceFrom name.toList value 0 (s.getLast?.or before) rest := by
  obtain ⟨c, cs, hcons, hstart, -⟩ := exists_cons_of_isName hname
  refine replaceFrom_append fun passed left hsplit hne => ?_
  rw [Bool.eq_false_iff, Ne, occursHere_iff]
  rintro ⟨after, heq, -, -⟩
  obtain ⟨d, ds, rfl⟩ := List.exists_cons_of_ne_nil hne
  have hplain := isNameStart_of_isPlain (hs.plain d (by simp [hsplit]))
  rw [hcons, List.cons_append, List.cons_append] at heq
  rw [(List.cons.inj heq).1, hstart] at hplain
  cases hplain

lemma bracket_not_mem {name : String} (h : isName name = true) : '[' ∉ name.toList :=
  not_mem_name h (by decide)

lemma ne_nil_of_isName {name : String} (h : isName name = true) : name.toList ≠ [] := by
  obtain ⟨c, cs, hcons, -, -⟩ := exists_cons_of_isName h
  simp [hcons]

lemma startsWord_of_isName {name : String} (h : isName name = true) :
    startsWord name.toList = true := by
  obtain ⟨c, cs, hcons, hstart, -⟩ := exists_cons_of_isName h
  simp [startsWord, hcons, isWord_of_isNameStart hstart]

namespace Whole

variable {a : String × Noun} (ha : Whole a)

include ha

lemma framed : Framed a.1.toList :=
  ⟨startsWord_of_isName ha.isName, ha.ends⟩

lemma pass_cons (hc : Text.isWord c = false) : pass a (c :: text) = c :: pass a text :=
  ha.framed.replaceWord_cons hc

lemma pass_name (hrest : startsWord rest = false) :
    pass a (a.1.toList ++ rest) = valueText a.2 ++ pass a rest :=
  ha.framed.replaceWord_name hrest

lemma pass_self : pass a a.1.toList = valueText a.2 := by
  have h : pass a (a.1.toList ++ []) = valueText a.2 ++ pass a [] := ha.pass_name rfl
  rwa [List.append_nil, show pass a [] = [] from rfl, List.append_nil] at h

lemma pass_word (hword : IsWordText word) (hrest : startsWord rest = false)
    (hnot : ¬At a.1.toList (word ++ rest)) : pass a (word ++ rest) = word ++ pass a rest :=
  ha.framed.replaceWord_word hword hrest hnot

lemma pass_noun (hs : NounText s) (hrest : startsWord rest = false) :
    pass a (s ++ rest) = s ++ pass a rest := by
  rw [pass, replaceWord, replaceFrom_noun ha.isName hs,
    ha.framed.replaceFrom_eq (by rw [hrest, Bool.and_false]), ← pass]

lemma startsWord_pass (h : startsWord text = false) : startsWord (pass a text) = false :=
  ha.framed.startsWord_replaceWord h

end Whole

/-! ## Passes that commute -/

section

variable {a b : String × Noun}

/-- A pass takes a piece from a text that begins with a word, and goes on in the same way wherever the
text is cut later.  The piece is the first word, which is kept, or an occurrence. -/
lemma Whole.exists_piece (ha : Whole a) (hword : IsWordText word)
    (hrest : startsWord rest = false) :
    ∃ piece out after, word ++ rest = piece ++ after ∧ after.length < (word ++ rest).length ∧
      startsWord after = false ∧ (IsWordText out ∨ out.head? = some '[') ∧
      ∀ front back, after = front ++ back → startsWord back = false →
        pass a (piece ++ front) = out ++ pass a front := by
  by_cases hat : At a.1.toList (word ++ rest)
  · obtain ⟨after, heq, hafter⟩ := hat
    have hshorter : after.length < (a.1.toList ++ after).length := length_lt_append ha.framed.ne_nil
    refine ⟨a.1.toList, valueText a.2, after, heq, heq ▸ hshorter, hafter,
      valueText_cases ha.legible, ?_⟩
    rintro front back rfl -
    exact ha.pass_name (startsWord_of_append hafter)
  · refine ⟨word, word, rest, rfl, length_lt_append hword.1, hrest, Or.inl hword, ?_⟩
    rintro front back rfl hback
    refine ha.pass_word hword (startsWord_of_append hrest) fun hfront => hat ?_
    rw [← List.append_assoc]
    exact hfront.append hback

/-- Where the result of a pass can be cut behind a word, the text can be cut. -/
lemma Whole.exists_split (ha : Whole a) {first second : List Char} (hplain : '[' ∉ first)
    (hsecond : startsWord second = false)
    (hfirst : first = [] ∧ startsWord text = false ∨ endsWord first = true)
    (h : pass a text = first ++ second) :
    ∃ front back, text = front ++ back ∧ startsWord back = false ∧ pass a front = first ∧
      pass a back = second := by
  induction text using word_strong_induction generalizing first with
  | nil =>
      obtain ⟨rfl, rfl⟩ := List.append_eq_nil_iff.mp h.symm
      exact ⟨[], [], rfl, rfl, rfl, rfl⟩
  | other c text hc ih =>
      cases first with
      | nil => exact ⟨[], c :: text, rfl, by simpa [startsWord] using hc, rfl, h⟩
      | cons d first =>
          rw [ha.pass_cons hc, List.cons_append, List.cons.injEq] at h
          obtain ⟨rfl, h⟩ := h
          have hends : endsWord (c :: first) = true := hfirst.resolve_left (by simp)
          have hne : first ≠ [] := by
            rintro rfl
            simp [endsWord, hc] at hends
          have hends' : endsWord first = true := by
            rwa [← List.singleton_append, endsWord_append hne] at hends
          obtain ⟨front, back, rfl, hback, rfl, hpass⟩ :=
            ih (fun hmem => hplain (List.mem_cons_of_mem _ hmem)) (Or.inr hends') h
          exact ⟨c :: front, back, rfl, hback, ha.pass_cons hc, hpass⟩
  | word word rest hword hrest ih =>
      have hends : endsWord first = true := by
        refine hfirst.resolve_left fun hnil => ?_
        have hstarts := startsWord_of_append hnil.2
        rw [hword.starts] at hstarts
        cases hstarts
      obtain ⟨piece, out, after, hpiece, hlength, hafter, hout, hstep⟩ := ha.exists_piece hword hrest
      rw [hpiece, hstep after [] (by simp) rfl] at h
      -- the piece did not become a bracket, and so it stands in front of the cut as a whole
      have hout : IsWordText out := by
        refine hout.resolve_right fun hbracket => hplain ?_
        have hhead : (first ++ second).head? = some '[' := by
          rw [← h, List.head?_append, hbracket, Option.some_or]
        cases first with
        | nil => simp [endsWord] at hends
        | cons d first => simp_all
      obtain ⟨more, rfl, hmore⟩ := exists_append_of_word hout hsecond h
      have hcut : more = [] ∧ startsWord after = false ∨ endsWord more = true := by
        by_cases hnil : more = []
        · exact Or.inl ⟨hnil, hafter⟩
        · exact Or.inr (by rwa [endsWord_append hnil] at hends)
      obtain ⟨front, back, hsplit, hback, hfront, hpass⟩ :=
        ih after hlength (fun hmem => hplain (List.mem_append_right _ hmem)) hcut hmore
      refine ⟨piece ++ front, back, by rw [hpiece, hsplit, List.append_assoc], hback, ?_, hpass⟩
      rw [hstep front back hsplit hback, hfront]

namespace Spares

variable (h : Spares a b) (ha : Whole a) (hb : Whole b)

include h ha hb

/-- Occurrences of the other name stay. -/
lemma pass_name (hrest : startsWord rest = false) :
    pass a (b.1.toList ++ rest) = b.1.toList ++ pass a rest := by
  refine ha.framed.replaceWord_append hrest fun passed left hsplit hne => ?_
  rw [Bool.eq_false_iff]
  intro hoccurs
  exact h.apart ⟨passed, left, rest, hsplit, hne,
    hb.framed.occursHere_iff.mpr ⟨rfl, rest, rfl, hrest⟩, hoccurs⟩

/-- And there are no new ones. -/
lemma at_of_pass (hat : At b.1.toList (pass a text)) : At b.1.toList text := by
  obtain ⟨rest, heq, hrest⟩ := hat
  obtain ⟨front, back, rfl, hback, hfront, -⟩ :=
    ha.exists_split (bracket_not_mem hb.isName) hrest (Or.inr hb.ends) heq
  rw [h.completes front hfront]
  exact ⟨back, rfl, hback⟩

end Spares

namespace Independent

variable (h : Independent a b) (ha : Whole a) (hb : Whole b)

include h ha hb

/-- An occurrence at the front becomes the value in both orders. -/
lemma pass_comm_name (hrest : startsWord rest = false)
    (ih : pass b (pass a rest) = pass a (pass b rest)) :
    pass b (pass a (a.1.toList ++ rest)) = pass a (pass b (a.1.toList ++ rest)) := by
  rw [ha.pass_name hrest,
    hb.pass_noun (nounText_valueText ha.legible) (ha.startsWord_pass hrest),
    h.2.pass_name hb ha hrest, ha.pass_name (hb.startsWord_pass hrest), ih]

/-- **Passes of independent variables commute.** -/
lemma pass_comm (text : List Char) : pass b (pass a text) = pass a (pass b text) := by
  induction text using word_strong_induction with
  | nil => rfl
  | other c text hc ih =>
      rw [ha.pass_cons hc, hb.pass_cons hc, hb.pass_cons hc, ha.pass_cons hc, ih]
  | word word rest hword hrest ih =>
      by_cases hata : At a.1.toList (word ++ rest)
      · obtain ⟨after, heq, hafter⟩ := hata
        rw [heq] at ih ⊢
        exact h.pass_comm_name ha hb hafter (ih after (length_lt_append ha.framed.ne_nil))
      by_cases hatb : At b.1.toList (word ++ rest)
      · obtain ⟨after, heq, hafter⟩ := hatb
        rw [heq] at ih ⊢
        have ih := ih after (length_lt_append hb.framed.ne_nil)
        exact (h.symm.pass_comm_name hb ha hafter ih.symm).symm
      -- the first word is kept by both passes, because neither completes the other name
      have hpassa := ha.pass_word hword hrest hata
      have hpassb := hb.pass_word hword hrest hatb
      have hnota : ¬At a.1.toList (word ++ pass b rest) := by
        rw [← hpassb]
        exact fun hat => hata (h.2.at_of_pass hb ha hat)
      have hnotb : ¬At b.1.toList (word ++ pass a rest) := by
        rw [← hpassa]
        exact fun hat => hatb (h.1.at_of_pass ha hb hat)
      rw [hpassa, hpassb, ha.pass_word hword (hb.startsWord_pass hrest) hnota,
        hb.pass_word hword (ha.startsWord_pass hrest) hnotb,
        ih rest (length_lt_append hword.1)]

end Independent

end

instance : Std.Symm Independent :=
  ⟨fun _ _ => Independent.symm⟩

/-! ## All passes -/

section

variable {vars vars' : Variables}

/-- The variables are replaced one after the other. -/
lemma Variables.substitute_eq_foldl (hvars : vars.Proper) (text : List Char) :
    vars.substitute text = .ok (vars.foldl (fun text entry => pass entry text) text) := by
  induction vars generalizing text with
  | nil => rfl
  | cons entry vars ih =>
      obtain ⟨name, value⟩ := entry
      obtain ⟨hentry, hrest⟩ := List.forall_mem_cons.mp hvars
      obtain ⟨written, hwritten⟩ := hentry.2.2.pretty false
      rw [substitute_cons, hwritten, ok_bind, ih hrest, List.foldl_cons, pass,
        valueText_of_pretty hwritten]

/-- Independent variables can be replaced in any order. -/
lemma Variables.substitute_eq_of_perm (hvars : vars.Proper) (h : vars.Pairwise Independent)
    (hperm : vars'.Perm vars) (text : List Char) :
    vars'.substitute text = vars.substitute text := by
  have hvars' : Variables.Proper vars' := fun entry hentry => hvars entry (hperm.mem_iff.mp hentry)
  rw [substitute_eq_foldl hvars, substitute_eq_foldl hvars', hperm.symm.foldl_eq']
  intro a ha b hb text
  by_cases hab : a = b
  · rw [hab]
  · have hind := h.forall ha hb hab
    obtain ⟨hnamea, hvaluea⟩ := hvars a ha
    obtain ⟨hnameb, hvalueb⟩ := hvars b hb
    exact hind.pass_comm ⟨hnamea, hind.1.ends, hvaluea⟩ ⟨hnameb, hind.2.ends, hvalueb⟩ text

end

/-! ## Values with brackets -/

/-- What is in front of the first bracket after a pass was there before, and no occurrence begins in
it. -/
lemma replaceFrom_eq_append {name value front back : List Char} (hvalue : value.head? = some '[')
    (hfront : '[' ∉ front) {before : Option Char}
    (h : replaceFrom name value 0 before text = front ++ back) :
    ∃ rest, text = front ++ rest ∧
      back = replaceFrom name value 0 (front.getLast?.or before) rest ∧
      ∀ passed left, front = passed ++ left → left ≠ [] →
        occursHere name (passed.getLast?.or before) (left ++ rest) = false := by
  induction front generalizing before text with
  | nil => exact ⟨text, rfl, h.symm, by simp⟩
  | cons c front ih =>
      cases text with
      | nil => simp [replaceFrom] at h
      | cons d text =>
          by_cases hhere : occursHere name before (d :: text) = true
          · rw [replaceFrom, if_pos hhere] at h
            have hhead := congrArg List.head? h
            rw [List.head?_append, hvalue] at hhead
            simp_all
          · rw [Bool.not_eq_true] at hhere
            rw [replaceFrom_of_not_occurs hhere, List.cons_append, List.cons.injEq] at h
            obtain ⟨rfl, h⟩ := h
            obtain ⟨rest, rfl, hback, hinside⟩ :=
              ih (fun hmem => hfront (List.mem_cons_of_mem _ hmem)) h
            refine ⟨rest, rfl, by rw [getLast?_cons_or, hback], fun passed left hsplit hne => ?_⟩
            cases passed with
            | nil =>
                rw [List.nil_append] at hsplit
                subst hsplit
                exact hhere
            | cons e passed =>
                rw [List.cons_append, List.cons.injEq] at hsplit
                obtain ⟨rfl, hsplit⟩ := hsplit
                rw [getLast?_cons_or]
                exact hinside passed left hsplit hne

lemma replaceFrom_eq_nil {name value : List Char} {before : Option Char} (hvalue : value ≠ [])
    (h : replaceFrom name value 0 before text = []) : text = [] := by
  cases text with
  | nil => rfl
  | cons c text =>
      rw [replaceFrom] at h
      split_ifs at h
      exact absurd (List.append_eq_nil_iff.mp h).1 hvalue

/-- A pass with brackets completes no name. -/
lemma eq_of_pass_eq_of_bracket {a : String × Noun} {name : List Char} (ha : a.2.Legible)
    (hvalue : (valueText a.2).head? = some '[') (hname : '[' ∉ name) (h : pass a text = name) :
    text = name := by
  obtain ⟨rest, rfl, hnil, -⟩ :=
    replaceFrom_eq_append hvalue hname (h.trans (List.append_nil name).symm)
  rw [replaceFrom_eq_nil (nounText_valueText ha).nonempty hnil.symm, List.append_nil]

/-! ## Names without a word in common -/

section

variable {a b : String × Noun}

/-- A name that begins inside an occurrence of another one has its first word in common with it. -/
lemma BeginsInside.exists_word {x y : List Char} (hx : Framed x) (hy : Framed y)
    (h : BeginsInside x y) : ∃ word ∈ runs x, word ∈ runs y ∧ IsWordText word := by
  obtain ⟨passed, left, rest, rfl, hne, houter, hinner⟩ := h
  obtain ⟨-, rest', hcancel, hrest⟩ := hy.occursHere_iff.mp houter
  obtain ⟨hbefore, after, heq, hafter⟩ := hx.occursHere_iff.mp hinner
  cases List.append_cancel_left hcancel
  obtain ⟨word, more, hword, hmore, rfl⟩ := Notebook.exists_word hx.starts
  rw [List.append_assoc] at heq
  obtain ⟨more', rfl, hmore'⟩ := exists_append_of_word hword hrest heq.symm
  have hcut : startsWord (more' ++ rest) = false := by
    rw [← hmore']
    exact startsWord_append hmore hafter
  refine ⟨word, ?_, ?_, hword⟩
  · rw [runs_append_of_not_startsWord hmore, runs_word hword]
    exact List.mem_append_left _ List.mem_cons_self
  · have hsplit : runs (passed ++ (word ++ more')) = runs passed ++ runs (word ++ more') := by
      refine runs_append fun c hc d _ => ?_
      rw [Option.mem_def.mp hc] at hbefore
      simp_all [joined]
    rw [hsplit, runs_append_of_not_startsWord (startsWord_of_append hcut), runs_word hword]
    simp

/-- A pass that puts a number somewhere makes it a word of the text. -/
lemma Whole.mem_runs_pass (ha : Whole a) (hvalue : IsWordText (valueText a.2)) (text : List Char) :
    pass a text = text ∨ valueText a.2 ∈ runs (pass a text) := by
  induction text using word_strong_induction with
  | nil => exact Or.inl rfl
  | other c text hc ih =>
      rw [ha.pass_cons hc, runs_cons hc, List.cons.injEq]
      exact ih.imp (⟨rfl, ·⟩) (List.mem_cons_of_mem _)
  | word word rest hword hrest ih =>
      by_cases hat : At a.1.toList (word ++ rest)
      · obtain ⟨after, heq, hafter⟩ := hat
        rw [heq, ha.pass_name hafter, runs_append_of_not_startsWord (ha.startsWord_pass hafter),
          runs_word hvalue]
        exact Or.inr (List.mem_append_left _ List.mem_cons_self)
      · rw [ha.pass_word hword hrest hat, runs_append_of_not_startsWord (ha.startsWord_pass hrest),
          List.append_cancel_left_eq]
        exact (ih rest (length_lt_append hword.1)).imp_right (List.mem_append_right _)

lemma Spares.of_runs (ha : Whole a) (hb : Whole b)
    (hcommon : ∀ word ∈ runs a.1.toList, word ∈ runs b.1.toList → word = ['-'])
    (hvalue : valueText a.2 ∉ runs b.1.toList) : Spares a b where
  ends := ha.ends
  apart := by
    intro h
    obtain ⟨word, hword, hword', hisWord⟩ := h.exists_word ha.framed hb.framed
    rw [hcommon word hword hword'] at hisWord
    exact absurd (hisWord.2 '-' List.mem_cons_self) (by decide)
  completes := by
    intro text htext
    rcases valueText_cases ha.legible with hnumber | hbracket
    · rcases ha.mem_runs_pass hnumber text with hsame | hmem
      · exact hsame.symm.trans htext
      · rw [htext] at hmem
        exact absurd hmem hvalue
    · exact eq_of_pass_eq_of_bracket ha.legible hbracket (bracket_not_mem hb.isName) htext

/-- Variables are independent if their names have no word in common, and the value of neither is a word
of the other name. -/
lemma Independent.of_runs (ha : Whole a) (hb : Whole b)
    (hcommon : ∀ word ∈ runs a.1.toList, word ∈ runs b.1.toList → word = ['-'])
    (hvalue : valueText a.2 ∉ runs b.1.toList) (hvalue' : valueText b.2 ∉ runs a.1.toList) :
    Independent a b :=
  ⟨.of_runs ha hb hcommon hvalue, .of_runs hb ha (fun word h h' => hcommon word h' h) hvalue'⟩

end

end

end Nock.Notebook
