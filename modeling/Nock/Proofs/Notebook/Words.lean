import Mathlib.Data.List.SplitBy
import Nock.Proofs.Notebook.Invariant
import Nock.Proofs.Notebook.Routes

/-!
# Replacing words

The variables are replaced one after the other, each by a pass over the text that the pass before has
left.  A pass goes from left to right and looks at every place for an occurrence of its name.

**Steps of a pass.**  An occurrence is replaced and skipped (`replaceFrom_of_occurs`), and any other
character is kept (`replaceFrom_of_not_occurs`).  So a stretch of text in which no occurrence begins
stays as it is (`replaceFrom_append`).

**Words.**  `runs` cuts a text into its words, each as long as possible, and the single characters
between them.  A pass takes a text from word to word: it replaces an occurrence at the front, or keeps
the first word, or keeps a character outside of words.  A name without hyphens occurs exactly where it
is a run, so its pass replaces runs (`replaceWord_eq_mapRuns`).  What is put in the place of a word
stands between characters that are not part of a word, so it joins nothing, and its own words are
numbers, which are no names.  Hence later passes leave it alone, and all passes together are one
replacement of runs (`Variables.substitute_eq_mapRuns`).
-/

namespace Nock.Notebook

/-! ## Characters -/

lemma ascii_forall {P : Char → Prop} (h : ∀ n < 0x80, P (Char.ofNat n)) {c : Char}
    (hc : c.toNat < 0x80) : P c := by
  have := h c.toNat hc
  rwa [Char.ofNat_toNat] at this

lemma toNat_lt_of_isNameChar {c : Char} (h : isNameChar c = true) : c.toNat < 0x80 := by
  have hletter : c.isAlphanum = ((decide (65 ≤ c.val ∧ c.val ≤ 90)
      || (97 ≤ c.val && c.val ≤ 122)) || (48 ≤ c.val && c.val ≤ 57)) := rfl
  simp only [isNameChar, hletter, Bool.or_eq_true, Bool.and_eq_true, decide_eq_true_eq, beq_iff_eq,
    UInt32.le_iff_toNat_le] at h
  rcases h with (h | rfl) | rfl
  · rw [Char.toNat]
    grind
  · decide
  · decide

/-- The hyphen is the only character of names that is not part of a word. -/
lemma isWord_of_isNameChar {c : Char} (h : isNameChar c = true) : Text.isWord c = (c != '-') :=
  ascii_forall (P := fun c => isNameChar c = true → Text.isWord c = (c != '-')) (by decide +kernel)
    (toNat_lt_of_isNameChar h) h

lemma isNameChar_of_isNameStart {c : Char} (h : isNameStart c = true) :
    isNameChar c = true ∧ c ≠ '-' := by
  constructor
  · simp only [isNameStart, Bool.or_eq_true] at h
    rcases h with h | h
    · simp [isNameChar, Char.isAlphanum, h]
    · simp [isNameChar, h]
  · rintro rfl
    revert h
    decide

lemma isWord_of_isNameStart {c : Char} (h : isNameStart c = true) : Text.isWord c = true := by
  obtain ⟨hchar, hhyphen⟩ := isNameChar_of_isNameStart h
  simpa [isWord_of_isNameChar hchar] using hhyphen

/-! ## Steps of a pass -/

section

variable {name value text rest : List Char} {before : Option Char} {c : Char}

lemma occursHere_iff :
    occursHere name before text = true ↔ ∃ rest, text = name ++ rest ∧
      Text.isBoundary before text.head? = true ∧ Text.isBoundary name.getLast? rest.head? = true := by
  simp only [occursHere, Bool.and_eq_true, List.isPrefixOf_iff_prefix]
  constructor
  · rintro ⟨⟨⟨rest, rfl⟩, hbefore⟩, hafter⟩
    exact ⟨rest, rfl, hbefore, by simpa using hafter⟩
  · rintro ⟨rest, rfl, hbefore, hafter⟩
    exact ⟨⟨⟨rest, rfl⟩, hbefore⟩, by simpa using hafter⟩

lemma getLast?_cons_or (c : Char) (cs : List Char) (before : Option Char) :
    (c :: cs).getLast?.or before = cs.getLast?.or (some c) := by
  cases cs with
  | nil => rfl
  | cons d cs => simp [List.getLast?_cons]

lemma replaceFrom_skip (name value rest : List Char) : ∀ (passed : List Char) (before : Option Char),
    replaceFrom name value passed.length before (passed ++ rest)
      = replaceFrom name value 0 (passed.getLast?.or before) rest
  | [], _ => rfl
  | c :: passed, before => by
      rw [List.length_cons, List.cons_append, replaceFrom, replaceFrom_skip name value rest passed,
        getLast?_cons_or]

/-- An occurrence is replaced and skipped. -/
lemma replaceFrom_of_occurs (hne : name ≠ [])
    (h : occursHere name before (name ++ rest) = true) :
    replaceFrom name value 0 before (name ++ rest)
      = value ++ replaceFrom name value 0 name.getLast? rest := by
  obtain ⟨c, cs, rfl⟩ := List.exists_cons_of_ne_nil hne
  rw [List.cons_append] at h ⊢
  rw [replaceFrom, if_pos h, List.length_cons, Nat.add_sub_cancel, replaceFrom_skip,
    ← getLast?_cons_or c cs none, Option.or_none]

/-- Any other character is kept. -/
lemma replaceFrom_of_not_occurs (h : occursHere name before (c :: text) = false) :
    replaceFrom name value 0 before (c :: text) = c :: replaceFrom name value 0 (some c) text := by
  rw [replaceFrom, if_neg (by simp [h])]

/-- So a stretch in which no occurrence begins stays as it is. -/
lemma replaceFrom_append : ∀ {stretch : List Char} {before : Option Char},
    (∀ passed left, stretch = passed ++ left → left ≠ [] →
      occursHere name (passed.getLast?.or before) (left ++ rest) = false) →
    replaceFrom name value 0 before (stretch ++ rest)
      = stretch ++ replaceFrom name value 0 (stretch.getLast?.or before) rest
  | [], _, _ => rfl
  | c :: stretch, before, h => by
      have hhere : occursHere name before (c :: (stretch ++ rest)) = false :=
        h [] (c :: stretch) rfl (by simp)
      rw [List.cons_append, replaceFrom_of_not_occurs hhere, getLast?_cons_or,
        replaceFrom_append fun passed left hsplit hne => ?_, List.cons_append]
      rw [← getLast?_cons_or c passed before]
      exact h (c :: passed) left (by rw [hsplit, List.cons_append]) hne

end

/-! ## Words -/

/-- Do two neighbouring characters belong to the same word? -/
def joined (a b : Char) : Bool :=
  Text.isWord a && Text.isWord b

/-- The text cut into its words, each as long as possible, and the single characters between them. -/
def runs (text : List Char) : List (List Char) :=
  text.splitBy joined

/-- The text with every run replaced. -/
def mapRuns (f : List Char → List Char) (text : List Char) : List Char :=
  (runs text).flatMap f

/-- The text is a word or a part of one. -/
def IsWordText (text : List Char) : Prop :=
  text ≠ [] ∧ ∀ c ∈ text, Text.isWord c = true

section

variable {f g : List Char → List Char} {text first second word rest : List Char} {c : Char}

/-- A text begins with a word exactly if its first character does. -/
abbrev startsWord (text : List Char) : Bool :=
  text.head?.any Text.isWord

/-- A text ends with a word exactly if its last character does. -/
abbrev endsWord (text : List Char) : Bool :=
  text.getLast?.any Text.isWord

/-- A text that begins with a word begins with a whole one. -/
lemma exists_word (h : startsWord text = true) :
    ∃ word rest, IsWordText word ∧ startsWord rest = false ∧ text = word ++ rest := by
  refine ⟨text.takeWhile Text.isWord, text.dropWhile Text.isWord, ⟨?_, fun c hc => ?_⟩, ?_,
    List.takeWhile_append_dropWhile.symm⟩
  · cases text with
    | nil => cases h
    | cons c cs =>
        rw [List.takeWhile_cons_of_pos (by simpa [startsWord] using h)]
        exact List.cons_ne_nil _ _
  · exact List.all_eq_true.mp List.all_takeWhile c hc
  · have hstop := List.head?_dropWhile_not Text.isWord text
    cases hrest : text.dropWhile Text.isWord with
    | nil => rfl
    | cons d ds => simpa [startsWord, hrest] using hstop

/-- A text is empty, or begins with a character outside of words, or begins with a whole word. -/
lemma word_strong_induction {P : List Char → Prop} (nil : P [])
    (other : ∀ c text, Text.isWord c = false → P text → P (c :: text))
    (word : ∀ word rest, IsWordText word → startsWord rest = false →
      (∀ shorter : List Char, shorter.length < (word ++ rest).length → P shorter) → P (word ++ rest))
    (text : List Char) : P text := by
  induction hlength : text.length using Nat.strong_induction_on generalizing text with
  | _ length ih =>
      subst hlength
      cases text with
      | nil => exact nil
      | cons c cs =>
          cases hc : Text.isWord c with
          | false => exact other c cs hc (ih cs.length (by simp) cs rfl)
          | true =>
              obtain ⟨w, rest, hword, hrest, heq⟩ := exists_word (show startsWord (c :: cs) = true from hc)
              rw [heq] at ih ⊢
              exact word w rest hword hrest fun shorter hshorter => ih _ hshorter _ rfl

lemma length_lt_append (h : first ≠ []) : rest.length < (first ++ rest).length := by
  rw [List.length_append]
  exact Nat.lt_add_of_pos_left (List.length_pos_of_ne_nil h)

lemma word_induction {P : List Char → Prop} (nil : P [])
    (other : ∀ c text, Text.isWord c = false → P text → P (c :: text))
    (word : ∀ word rest, IsWordText word → startsWord rest = false → P rest → P (word ++ rest))
    (text : List Char) : P text :=
  word_strong_induction nil other (fun w rest hword hrest ih =>
    word w rest hword hrest (ih rest (length_lt_append hword.1))) text

lemma runs_append (h : ∀ a ∈ first.getLast?, ∀ b ∈ second.head?, joined a b = false) :
    runs (first ++ second) = runs first ++ runs second :=
  List.splitBy_append h

lemma runs_word (h : IsWordText word) : runs word = [word] := by
  have hpairs : word.Pairwise fun a b => joined a b = true :=
    List.pairwise_of_forall_mem_list fun a ha b hb => by simp [joined, h.2 a ha, h.2 b hb]
  exact List.splitBy_of_isChain h.1 hpairs.isChain

lemma runs_cons (hc : Text.isWord c = false) : runs (c :: text) = [c] :: runs text := by
  have hsplit : runs ([c] ++ text) = runs [c] ++ runs text :=
    runs_append fun a ha b _ => by simp_all [joined]
  rw [← List.singleton_append, hsplit]
  simp [runs, List.splitBy_of_isChain]

/-- A text can be cut in front of a character outside of words. -/
lemma runs_append_of_not_startsWord (h : startsWord second = false) :
    runs (first ++ second) = runs first ++ runs second := by
  refine runs_append fun a _ b hb => ?_
  have hword : Text.isWord b = false := by simpa [startsWord, Option.mem_def.mp hb] using h
  simp [joined, hword]

lemma mem_of_mem_runs {run : List Char} (hrun : run ∈ runs text) (hc : c ∈ run) : c ∈ text := by
  rw [← List.flatten_splitBy joined text]
  exact List.mem_flatten_of_mem hrun hc

lemma mapRuns_append_of_not_startsWord (h : startsWord second = false) :
    mapRuns f (first ++ second) = mapRuns f first ++ mapRuns f second := by
  rw [mapRuns, runs_append_of_not_startsWord h, List.flatMap_append, ← mapRuns, ← mapRuns]

lemma mapRuns_word (h : IsWordText word) : mapRuns f word = f word := by
  rw [mapRuns, runs_word h, List.flatMap_singleton]

lemma mapRuns_cons (hc : Text.isWord c = false) :
    mapRuns f (c :: text) = f [c] ++ mapRuns f text := by
  rw [mapRuns, runs_cons hc, List.flatMap_cons, ← mapRuns]

/-- A text whose runs are kept is kept. -/
lemma mapRuns_eq_self (h : ∀ run ∈ runs text, f run = run) : mapRuns f text = text := by
  rw [mapRuns, List.flatMap_def, List.map_congr_left h, List.map_id', runs, List.flatten_splitBy]

/-- The first word of a text is determined by the text. -/
lemma eq_of_append_eq {word' rest' : List Char} (hword : IsWordText word) (hword' : IsWordText word')
    (hrest : startsWord rest = false) (hrest' : startsWord rest' = false)
    (h : word ++ rest = word' ++ rest') : word = word' := by
  have htake : ∀ {word rest : List Char}, IsWordText word → startsWord rest = false →
      (word ++ rest).takeWhile Text.isWord = word := by
    intro word rest hword hrest
    have hnil : rest.takeWhile Text.isWord = [] := by
      cases rest with
      | nil => rfl
      | cons d ds => exact List.takeWhile_cons_of_neg (by simpa [startsWord] using hrest)
    rw [List.takeWhile_append_of_pos hword.2, hnil, List.append_nil]
  rw [← htake hword hrest, h, htake hword' hrest']

end

/-! ## One pass -/

/-- The name begins and ends with a word. -/
structure Framed (name : List Char) : Prop where
  starts : startsWord name = true
  ends : endsWord name = true

/-- The text begins with an occurrence of the name. -/
def At (name text : List Char) : Prop :=
  ∃ rest, text = name ++ rest ∧ startsWord rest = false

section

variable {name value text rest word : List Char} {before : Option Char} {c : Char}

lemma IsWordText.starts (h : IsWordText word) : startsWord word = true := by
  obtain ⟨c, cs, rfl⟩ := List.exists_cons_of_ne_nil h.1
  simpa [startsWord] using h.2 c List.mem_cons_self

lemma IsWordText.framed (h : IsWordText word) : Framed word where
  starts := h.starts
  ends := by
    rw [endsWord, List.getLast?_eq_some_getLast h.1, Option.any_some]
    exact h.2 _ (List.getLast_mem _)

namespace Framed

variable (hname : Framed name)

include hname

lemma exists_cons : ∃ c cs, name = c :: cs ∧ Text.isWord c = true := by
  have hstarts := hname.starts
  cases name with
  | nil => cases hstarts
  | cons c cs => exact ⟨c, cs, rfl, hstarts⟩

lemma ne_nil : name ≠ [] := by
  obtain ⟨c, cs, rfl, -⟩ := hname.exists_cons
  exact List.cons_ne_nil c cs

/-- The name occurs at the front of a text if no word ends in front of it and none goes on behind
it. -/
lemma occursHere_iff :
    occursHere name before text = true ↔ before.any Text.isWord = false ∧ At name text := by
  have hends := hname.ends
  obtain ⟨c, cs, rfl, hfirst⟩ := hname.exists_cons
  rw [Notebook.occursHere_iff]
  constructor
  · rintro ⟨rest, rfl, hbefore, hafter⟩
    refine ⟨?_, rest, rfl, ?_⟩
    · simpa [Text.isBoundary, hfirst] using hbefore
    · simpa [Text.isBoundary, hends] using hafter
  · rintro ⟨hbefore, rest, rfl, hafter⟩
    refine ⟨rest, rfl, ?_, ?_⟩
    · simp [Text.isBoundary, hfirst, hbefore]
    · simp only [Text.isBoundary, hends]
      simpa using hafter

lemma not_at_cons (hc : Text.isWord c = false) : ¬At name (c :: text) := by
  rintro ⟨rest, heq, -⟩
  obtain ⟨d, ds, rfl, hd⟩ := hname.exists_cons
  rw [(List.cons.inj heq).1, hd] at hc
  cases hc

/-- What is in front of a text matters only for its first word. -/
lemma replaceFrom_eq (h : (before.any Text.isWord && startsWord text) = false) :
    replaceFrom name value 0 before text = replaceWord name value text := by
  cases text with
  | nil => rfl
  | cons c text =>
      have hhere : occursHere name before (c :: text) = occursHere name none (c :: text) := by
        rw [Bool.eq_iff_iff, hname.occursHere_iff, hname.occursHere_iff]
        cases hbefore : before.any Text.isWord with
        | false => rfl
        | true =>
            have hc : Text.isWord c = false := by simpa [hbefore, startsWord] using h
            simp [hname.not_at_cons hc]
      rw [replaceWord, replaceFrom, replaceFrom, hhere]

/-- A character outside of words is kept. -/
lemma replaceWord_cons (hc : Text.isWord c = false) :
    replaceWord name value (c :: text) = c :: replaceWord name value text := by
  have hhere : occursHere name none (c :: text) = false := by
    rw [Bool.eq_false_iff, Ne, hname.occursHere_iff]
    exact fun h => hname.not_at_cons hc h.2
  rw [replaceWord, replaceFrom_of_not_occurs hhere, hname.replaceFrom_eq (by simp [hc])]

/-- An occurrence at the front is replaced. -/
lemma replaceWord_name (hrest : startsWord rest = false) :
    replaceWord name value (name ++ rest) = value ++ replaceWord name value rest := by
  have hoccurs : occursHere name none (name ++ rest) = true :=
    hname.occursHere_iff.mpr ⟨rfl, rest, rfl, hrest⟩
  rw [replaceWord, replaceFrom_of_occurs hname.ne_nil hoccurs,
    hname.replaceFrom_eq (by rw [hrest, Bool.and_false])]

/-- A stretch in which no occurrence begins is kept. -/
lemma replaceWord_append {stretch : List Char} (hrest : startsWord rest = false)
    (h : ∀ passed left, stretch = passed ++ left → left ≠ [] →
      occursHere name passed.getLast? (left ++ rest) = false) :
    replaceWord name value (stretch ++ rest) = stretch ++ replaceWord name value rest := by
  rw [replaceWord, replaceFrom_append (by simpa using h),
    hname.replaceFrom_eq (by rw [hrest, Bool.and_false])]

/-- The first word is kept if no occurrence is at the front. -/
lemma replaceWord_word (hword : IsWordText word) (hrest : startsWord rest = false)
    (hnot : ¬At name (word ++ rest)) :
    replaceWord name value (word ++ rest) = word ++ replaceWord name value rest := by
  refine hname.replaceWord_append hrest fun passed left hsplit _ => ?_
  rw [Bool.eq_false_iff, Ne, hname.occursHere_iff]
  rintro ⟨hbefore, hat⟩
  rcases List.eq_nil_or_concat passed with rfl | ⟨front, d, rfl⟩
  · rw [hsplit] at hnot
    exact hnot hat
  · have hd : Text.isWord d = true := hword.2 d (by simp [hsplit])
    simp [hd] at hbefore

lemma startsWord_replaceWord (h : startsWord text = false) :
    startsWord (replaceWord name value text) = false := by
  cases text with
  | nil => rfl
  | cons c text =>
      rw [hname.replaceWord_cons (by simpa [startsWord] using h)]
      exact h

end Framed

/-- What one pass puts in the place of a run. -/
def replaceRun (name value run : List Char) : List Char :=
  if run = name then value else run

lemma replaceRun_singleton (hname : IsWordText name) (hc : Text.isWord c = false) :
    replaceRun name value [c] = [c] := by
  rw [replaceRun, if_neg]
  rintro rfl
  rw [hname.2 c List.mem_cons_self] at hc
  cases hc

/-- **The pass of a word replaces runs.** -/
lemma replaceWord_eq_mapRuns (hname : IsWordText name) (value text : List Char) :
    replaceWord name value text = mapRuns (replaceRun name value) text := by
  induction text using word_induction with
  | nil => rfl
  | other c text hc ih =>
      rw [hname.framed.replaceWord_cons hc, mapRuns_cons hc, replaceRun_singleton hname hc, ih,
        List.singleton_append]
  | word word rest hword hrest ih =>
      rw [mapRuns_append_of_not_startsWord hrest, mapRuns_word hword, ← ih, replaceRun]
      split_ifs with heq
      · rw [heq, hname.framed.replaceWord_name hrest]
      · refine hname.framed.replaceWord_word hword hrest ?_
        rintro ⟨after, hafter, hstart⟩
        exact heq (eq_of_append_eq hword hname hrest hstart hafter)

end

/-! ## All passes -/

/-- Replacing runs in what a replacement of runs has left is one replacement, if the first one keeps
everything outside of words. -/
lemma mapRuns_mapRuns {f g h : List Char → List Char}
    (hother : ∀ c, Text.isWord c = false → g [c] = [c] ∧ f [c] = h [c])
    (hword : ∀ word, IsWordText word → mapRuns f (g word) = h word) (text : List Char) :
    mapRuns f (mapRuns g text) = mapRuns h text := by
  induction text using word_induction with
  | nil => rfl
  | other c text hc ih =>
      obtain ⟨hg, hf⟩ := hother c hc
      rw [mapRuns_cons hc, mapRuns_cons hc, hg, List.singleton_append, mapRuns_cons hc, hf, ih]
  | word word rest hw hrest ih =>
      have hstart : startsWord (mapRuns g rest) = false := by
        cases rest with
        | nil => rfl
        | cons c cs =>
            have hc : Text.isWord c = false := by simpa [startsWord] using hrest
            rw [mapRuns_cons hc, (hother c hc).1]
            exact hrest
      rw [mapRuns_append_of_not_startsWord hrest, mapRuns_append_of_not_startsWord hrest,
        mapRuns_append_of_not_startsWord hstart, mapRuns_word hw, mapRuns_word hw, hword word hw, ih]

/-- No name of a variable has a hyphen in it. -/
def Variables.Unhyphenated (vars : Variables) : Prop :=
  ∀ entry ∈ vars, '-' ∉ entry.1.toList

/-- The text of a noun, if it has one. -/
def valueText (n : Noun) : List Char :=
  match n.pretty false with
  | .ok text => text.toList
  | .error _ => []

/-- What a run stands for: the text of its value if it is the name of a variable, and otherwise
itself. -/
def Variables.meaning (vars : Variables) (run : List Char) : List Char :=
  match vars.get? (String.ofList run) with
  | some value => valueText value
  | none => run

section

variable {vars : Variables} {name : String} {value : Noun} {run : List Char}

lemma isWordText_of_isName (h : isName name = true) (hhyphen : '-' ∉ name.toList) :
    IsWordText name.toList := by
  simp only [isName, Bool.and_eq_true, List.all_eq_true] at h
  refine ⟨fun hnil => by simp [hnil] at h, fun c hc => ?_⟩
  rw [isWord_of_isNameChar (h.2 c hc), bne_iff_ne]
  rintro rfl
  exact hhyphen hc

lemma valueText_of_pretty {text : String} (h : value.pretty false = .ok text) :
    valueText value = text.toList := by
  rw [valueText, h]

lemma nounText_valueText (h : value.Legible) : NounText (valueText value) := by
  obtain ⟨text, htext⟩ := h.2.pretty false
  rw [valueText_of_pretty htext]
  exact .of_pretty h.1 htext

lemma Bindings.get?_cons {ρ : Type} (vars : Bindings ρ) (name other : String) (value : ρ) :
    Bindings.get? ((name, value) :: vars) other
      = if other = name then some value else vars.get? other := by
  rw [Bindings.get?, List.lookup_cons]
  by_cases h : other = name
  · simp [h]
  · rw [if_neg h, beq_eq_false_iff_ne.mpr h]
    rfl

lemma Variables.meaning_cons (run : List Char) :
    Variables.meaning ((name, value) :: vars) run
      = if run = name.toList then valueText value else vars.meaning run := by
  have hkey : String.ofList run = name ↔ run = name.toList := by
    rw [← String.toList_inj, String.toList_ofList]
  rw [Variables.meaning, Bindings.get?_cons]
  simp only [hkey]
  split_ifs <;> rfl

/-- A run that no name begins with stands for itself. -/
lemma Variables.Proper.meaning_eq_self (hvars : vars.Proper)
    (hrun : ∀ c ∈ run.head?, isNameStart c = false) : vars.meaning run = run := by
  rw [Variables.meaning]
  cases hget : vars.get? (String.ofList run) with
  | none => rfl
  | some value =>
      obtain ⟨before, after, rfl, -⟩ := List.lookup_eq_some_iff.mp hget
      obtain ⟨hname, -⟩ := hvars (String.ofList run, value) (by simp)
      rw [isName, String.toList_ofList, Bool.and_eq_true] at hname
      cases run with
      | nil => simp at hname
      | cons c cs =>
          have hstart : isNameStart c = true := by simpa using hname.1
          rw [hrun c rfl] at hstart
          cases hstart

/-- The text of a noun is left alone. -/
lemma Variables.Proper.mapRuns_meaning {text : List Char} (hvars : vars.Proper)
    (htext : NounText text) : mapRuns vars.meaning text = text := by
  refine mapRuns_eq_self fun run hrun => hvars.meaning_eq_self fun c hc => ?_
  have hmem : c ∈ text := mem_of_mem_runs hrun (List.mem_of_mem_head? hc)
  exact isNameStart_of_isPlain (htext.plain c hmem)

/-- **All passes together are one replacement of runs.** -/
lemma Variables.substitute_eq_mapRuns (hvars : vars.Proper) (hplain : vars.Unhyphenated)
    (text : List Char) : vars.substitute text = .ok (mapRuns vars.meaning text) := by
  induction vars generalizing text with
  | nil =>
      have hself : mapRuns (Variables.meaning []) text = text := mapRuns_eq_self fun run _ => rfl
      rw [hself]
      rfl
  | cons entry vars ih =>
      obtain ⟨name, value⟩ := entry
      obtain ⟨hname, hvalue⟩ := hvars (name, value) List.mem_cons_self
      have hrest : Variables.Proper vars := fun entry hentry =>
        hvars entry (List.mem_cons_of_mem _ hentry)
      have hword := isWordText_of_isName hname (hplain (name, value) List.mem_cons_self)
      obtain ⟨written, hwritten⟩ := hvalue.2.pretty false
      rw [substitute_cons, hwritten, ok_bind, ← valueText_of_pretty hwritten,
        ih hrest (fun entry hentry => hplain entry (List.mem_cons_of_mem _ hentry)),
        replaceWord_eq_mapRuns hword, mapRuns_mapRuns (h := meaning ((name, value) :: vars))]
      · intro c hc
        have hne : [c] ≠ name.toList := by
          intro heq
          have := hword.2 c (by simp [← heq])
          rw [hc] at this
          cases this
        exact ⟨replaceRun_singleton hword hc, by rw [meaning_cons, if_neg hne]⟩
      · intro word hw
        rw [replaceRun, meaning_cons]
        split_ifs with heq
        · exact hrest.mapRuns_meaning (nounText_valueText hvalue)
        · exact mapRuns_word hw

/-- The names of the variables, each of them defined once. -/
def Variables.Distinct (vars : Variables) : Prop :=
  (vars.map Prod.fst).Nodup

lemma Variables.Distinct.get?_eq_some_iff (h : vars.Distinct) :
    vars.get? name = some value ↔ (name, value) ∈ vars := by
  refine ⟨Bindings.mem_of_get?, fun hmem => ?_⟩
  obtain ⟨before, after, rfl⟩ := List.append_of_mem hmem
  refine List.lookup_eq_some_iff.mpr ⟨before, after, rfl, fun entry hentry => ?_⟩
  rw [Variables.Distinct, List.map_append, List.nodup_append] at h
  rw [bne_iff_ne]
  exact (h.2.2 entry.1 (List.mem_map_of_mem hentry) name (by simp)).symm

/-- The order of distinct variables does not matter for their values. -/
lemma Variables.Distinct.get?_eq_of_perm {vars' : Variables} (h : vars.Distinct)
    (hperm : vars'.Perm vars) (name : String) : vars'.get? name = vars.get? name := by
  have h' : Variables.Distinct vars' := (hperm.map Prod.fst).nodup_iff.mpr h
  ext value
  rw [h'.get?_eq_some_iff, h.get?_eq_some_iff, hperm.mem_iff]

end

/-- **Passes act at once.**  Let the names of the variables be without hyphens.  Replacing the variables
never fails, and replaces every maximal run of word characters that is a defined name by the text of
its value, and nothing else.  So the order in which the variables were defined does not matter. -/
theorem substitution_acts_at_once {vars : Variables} (hvars : vars.Proper)
    (hplain : vars.Unhyphenated) :
    (∀ text, vars.substitute text = .ok ((runs text).flatMap vars.meaning)) ∧
    (∀ name value, vars.get? name = some value →
      value.pretty false = .ok (String.ofList (vars.meaning name.toList))) ∧
    (∀ run, vars.get? (String.ofList run) = none → vars.meaning run = run) ∧
    ∀ vars' : Variables, vars'.Perm vars → vars.Distinct →
      ∀ text, vars'.substitute text = vars.substitute text := by
  refine ⟨Variables.substitute_eq_mapRuns hvars hplain, fun name value hget => ?_,
    fun run hget => by rw [Variables.meaning, hget], fun vars' hperm hdistinct text => ?_⟩
  · obtain ⟨written, hwritten⟩ := (hvars _ (Bindings.mem_of_get? hget)).2.2.pretty false
    rw [Variables.meaning, String.ofList_toList, hget, hwritten]
    simp only [valueText_of_pretty hwritten, String.ofList_toList]
  · have hmeaning : Variables.meaning vars' = vars.meaning := by
      funext run
      rw [Variables.meaning, Variables.meaning, hdistinct.get?_eq_of_perm hperm]
    rw [Variables.substitute_eq_mapRuns hvars hplain, ← hmeaning]
    exact Variables.substitute_eq_mapRuns (fun entry h => hvars entry (hperm.mem_iff.mp h))
      (fun entry h => hplain entry (hperm.mem_iff.mp h)) text

/-- Two variables, one of whose names begins with the other. -/
def nestedNames : Variables :=
  [("a", .cell (.atom 1) (.atom 2)), ("ab", .atom 3)]

/-- Only whole words are replaced, in either order: not the `a` of `ab`, of `éa` and of `a1`. -/
theorem substitution_acts_at_once_nested :
    (nestedNames.Proper ∧ nestedNames.Unhyphenated ∧ nestedNames.Distinct ∧
      nestedNames.reverse.Perm nestedNames) ∧
    nestedNames.substitute "[a ab] x-a éa a1".toList = .ok "[[1 2] 3] x-[1 2] éa a1".toList ∧
    Variables.substitute nestedNames.reverse "[a ab] x-a éa a1".toList
      = .ok "[[1 2] 3] x-[1 2] éa a1".toList := by
  have hproper : nestedNames.Proper := by
    simp only [nestedNames, Variables.Proper, List.forall_mem_cons]
    exact ⟨⟨by decide, by decide, by decide +kernel⟩, ⟨by decide, by decide, by decide +kernel⟩,
      List.forall_mem_nil _⟩
  have hplain : nestedNames.Unhyphenated := by
    simp only [nestedNames, Variables.Unhyphenated, List.forall_mem_cons]
    exact ⟨by decide, by decide, List.forall_mem_nil _⟩
  have hdistinct : nestedNames.Distinct := by
    rw [Variables.Distinct]
    decide
  have hperm := List.reverse_perm nestedNames
  obtain ⟨hsubstitute, -, -, horder⟩ := substitution_acts_at_once hproper hplain
  have hruns : (runs "[a ab] x-a éa a1".toList).flatMap nestedNames.meaning
      = "[[1 2] 3] x-[1 2] éa a1".toList := by
    decide +kernel
  have hresult := (hsubstitute "[a ab] x-a éa a1".toList).trans (congrArg Except.ok hruns)
  exact ⟨⟨hproper, hplain, hdistinct, hperm⟩, hresult, (horder _ hperm hdistinct _).trans hresult⟩

end Nock.Notebook
