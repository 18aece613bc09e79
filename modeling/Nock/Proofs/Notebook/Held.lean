import Nock.Proofs.Notebook.Failure
import Nock.Proofs.Store.Refinement

/-!
# Notebooks that hold their nouns in a store

The nouns of a notebook can be held as data of one store.  The kernels and the variables then share
cells, on purpose or by accident, and evaluating changes cells: a comparison makes equal cells share
their parts, wherever these cells are used.

Nobody notices.  A held notebook **shows** a plain one if all of its data denote the plain nouns.
Whatever a kernel is asked, the held notebook gives the same answer as the plain one, and shows it
again afterwards, also at the other kernels (`Held.Shows.execute`).  `Follows` states this for any
part of a command; it goes along sequences (`Follows.bind`), and for the effects on the store it is
`Realizes`.  What a command does is the same text for both (`perform`), so one lemma for each operation
of a desk is all there is to show.
-/

namespace Nock

/-- The noun that the datum denotes now, or 0 if it denotes none. -/
def Store.nounOf (s : Store) (d : Datum) : Noun :=
  (s.noun? d).getD (.atom 0)

lemma Store.Has.nounOf {s : Store} {d : Datum} {n : Noun} (h : s.Has d n) : s.nounOf d = n := by
  rw [Store.nounOf, h]
  rfl

lemma Store.KeptIn.refl (s : Store) : s.KeptIn s :=
  fun _ _ hd => hd

lemma Store.KeptIn.trans {s s' s'' : Store} (h : s.KeptIn s') (h' : s'.KeptIn s'') :
    s.KeptIn s'' :=
  fun d n hd => h' d n (h d n hd)

/-- A noun can be held in new cells. -/
lemma hold_refines : ∀ (n : Noun) {s : Store} {ν : Reading}, s.Fits ν →
    Refines s ν (StoreM.hold n) (.ok n) Store.Denotes
  | .atom k, s, ν, hs => .pure hs rfl
  | .cell head tail, s, ν, hs => by
      refine (hold_refines head hs).bind_ok fun s₁ ν₁ d _ hs₁ hd => ?_
      refine (hold_refines tail hs₁).bind_ok fun s₂ ν₂ e h₂ hs₂ he => ?_
      exact cell_refines hs₂ (hd.later h₂) he

section

variable {α : Type} {x y : Except Fault α}

lemma Matches.refl (x : Except Fault α) : Matches (fun a b => a = b) x x := by
  cases x with
  | error e => exact .error e
  | ok a => exact .ok rfl

lemma Matches.eq (h : Matches (fun a b => a = b) x y) : x = y := by
  cases h with
  | error e => rfl
  | ok h => rw [h]

end

namespace Notebook

open StoreM hiding look same copy
open Store

/-! ## Commands on a store -/

/-- What a kernel keeps, held in a store. -/
structure HeldKernel where
  subject : Datum := .atom 0
  last : Option Datum := none

/-- The defined names and their held values. -/
abbrev HeldVariables := Bindings Datum

/-- What a command can see and change: the store, a kernel and the variables. -/
structure HeldDesk where
  store : Store
  kernel : HeldKernel
  vars : HeldVariables

/-- The desk with the nouns that its data denote now. -/
def HeldDesk.plain (h : HeldDesk) : Desk :=
  ⟨⟨h.store.nounOf h.kernel.subject, h.kernel.last.map h.store.nounOf⟩,
    h.vars.map fun entry => (entry.1, h.store.nounOf entry.2)⟩

/-- Effects of a command on a store. -/
abbrev HeldM := ExceptT Fault (StateM HeldDesk)

namespace HeldM

/-- An effect on the store. -/
def onStore {α : Type} (x : StoreM α) : HeldM α :=
  ExceptT.mk fun h => ((exec x h.store).1, { h with store := (exec x h.store).2 })

/-- Read a noun from a text after replacing the variables, and hold it in new cells. -/
def read (text : List Char) : HeldM Datum := do
  let text ← MonadExcept.ofExcept ((← get).plain.vars.substitute text)
  let n ← MonadExcept.ofExcept (Noun.parseChars text)
  onStore (hold n)

/-- The text of the noun that a datum denotes now. -/
def write (d : Datum) : HeldM String := do
  MonadExcept.ofExcept (((← get).store.nounOf d).pretty false)

/-- The two parts of a cell. -/
def parts? (d : Datum) : HeldM (Option (Datum × Datum)) := do
  match ← onStore (Memory.look d) with
  | .cell head tail => pure (some (head, tail))
  | _ => pure none

/-- Evaluate a formula against a subject, in place. -/
def evaluate (bound : Nat) (subject formula : Datum) : HeldM Datum :=
  onStore (nock bound subject formula)

/-- Keep a subject. -/
def setSubject (d : Datum) : HeldM Unit :=
  modify fun h => { h with kernel := { h.kernel with subject := d } }

/-- Keep a result, or forget the last one. -/
def setLast (d : Option Datum) : HeldM Unit :=
  modify fun h => { h with kernel := { h.kernel with last := d } }

/-- Define a variable. -/
def define (name : String) (value : Datum) : HeldM Unit :=
  modify fun h => { h with vars := h.vars.set name value }

end HeldM

/-- On a store a command does what it does everywhere, with data in the place of nouns. -/
instance : Deskwork HeldM Datum where
  read := HeldM.read
  write := HeldM.write
  parts? := HeldM.parts?
  evaluate := HeldM.evaluate
  subject := return (← get).kernel.subject
  value? name := return (← get).vars.get? name
  overview := do MonadExcept.ofExcept (overview (← get).plain)
  setSubject := HeldM.setSubject
  setLast := HeldM.setLast
  define := HeldM.define

/-! ## Showing plain nouns -/

/-- The data of the kernel denote the nouns of the plain one. -/
structure HeldKernel.Shows (s : Store) (k : HeldKernel) (plain : Kernel) : Prop where
  subject : s.Has k.subject plain.subject
  last : Option.Rel s.Has k.last plain.last

/-- The data of the variables denote the values of the plain ones. -/
def HeldVariables.Shows (s : Store) : HeldVariables → Variables → Prop :=
  List.Forall₂ fun entry plain => entry.1 = plain.1 ∧ s.Has entry.2 plain.2

/-- The store is sound, and all data of the desk denote the nouns of the plain one. -/
structure HeldDesk.Shows (h : HeldDesk) (desk : Desk) : Prop where
  sound : h.store.Sound
  kernel : HeldKernel.Shows h.store h.kernel desk.kernel
  vars : HeldVariables.Shows h.store h.vars desk.vars

section

variable {s s' : Store} {h : HeldDesk} {desk : Desk}

/-- Two tables with the same keys and related values have related entries. -/
lemma rel_lookup {κ α β : Type} [BEq κ] {R : α → β → Prop} {xs : List (κ × α)} {ys : List (κ × β)}
    (h : List.Forall₂ (fun x y => x.1 = y.1 ∧ R x.2 y.2) xs ys) (key : κ) :
    Option.Rel R (xs.lookup key) (ys.lookup key) := by
  induction h with
  | nil => exact .none
  | @cons x y _ _ hxy _ ih =>
      rw [List.lookup_cons, List.lookup_cons, ← hxy.1]
      cases key == x.1 with
      | true => exact .some hxy.2
      | false => exact ih

lemma HeldKernel.Shows.later {k : HeldKernel} {plain : Kernel} (hk : HeldKernel.Shows s k plain)
    (hkept : s.KeptIn s') : HeldKernel.Shows s' k plain := by
  obtain ⟨subject, last⟩ := k
  obtain ⟨subject', last'⟩ := plain
  obtain ⟨hsubject, hlast⟩ := hk
  refine ⟨hkept _ _ hsubject, ?_⟩
  cases hlast with
  | none => exact .none
  | some hd => exact .some (hkept _ _ hd)

lemma HeldVariables.Shows.later {vars : HeldVariables} {plain : Variables}
    (hvars : HeldVariables.Shows s vars plain) (hkept : s.KeptIn s') :
    HeldVariables.Shows s' vars plain :=
  hvars.imp fun _ _ hentry => ⟨hentry.1, hkept _ _ hentry.2⟩

lemma HeldVariables.Shows.set {vars : HeldVariables} {plain : Variables}
    (hvars : HeldVariables.Shows s vars plain) (name : String) {d : Datum} {n : Noun}
    (hd : s.Has d n) : HeldVariables.Shows s (vars.set name d) (plain.set name n) := by
  induction hvars with
  | nil => exact .cons ⟨rfl, hd⟩ .nil
  | @cons entry plain _ _ hentry hrest ih =>
      obtain ⟨other, old⟩ := entry
      obtain ⟨other', value⟩ := plain
      obtain ⟨rfl, hvalue⟩ := hentry
      simp only [Bindings.set]
      split_ifs
      · exact .cons ⟨rfl, hd⟩ hrest
      · exact .cons ⟨rfl, hvalue⟩ ih

lemma HeldVariables.Shows.plain_eq {vars : HeldVariables} {plain : Variables}
    (hvars : HeldVariables.Shows s vars plain) :
    vars.map (fun entry => (entry.1, s.nounOf entry.2)) = plain := by
  induction hvars with
  | nil => rfl
  | cons hentry _ ih => rw [List.map_cons, ih, hentry.1, hentry.2.nounOf]

lemma HeldDesk.Shows.plain_eq (hh : h.Shows desk) : h.plain = desk := by
  obtain ⟨s, ⟨subject, last⟩, vars⟩ := h
  obtain ⟨⟨subject', last'⟩, vars'⟩ := desk
  obtain ⟨-, ⟨hsubject, hlast⟩, hvars⟩ := hh
  have hlast : last.map s.nounOf = last' := by
    cases hlast with
    | none => rfl
    | some hd => exact congrArg some hd.nounOf
  rw [HeldDesk.plain, hsubject.nounOf, hlast, hvars.plain_eq]

/-- Changing the store changes nothing, as long as what it holds is kept. -/
lemma HeldDesk.Shows.later (hh : h.Shows desk) (hs' : s'.Sound) (hkept : h.store.KeptIn s') :
    HeldDesk.Shows { h with store := s' } desk :=
  ⟨hs', hh.kernel.later hkept, hh.vars.later hkept⟩

end

/-! ## Following plain commands -/

section

variable {α β γ δ : Type} {s : Store} {h : HeldDesk} {desk : Desk} {d e : Datum} {m n : Noun}

/-- The effect on the held desk does what `y` does on the plain one: it shows what `y` leaves, holds
what was held before, and ends in the same way.  The relation `R` says, for the store that is left,
which values stand for which. -/
structure Follows (h : HeldDesk) (desk : Desk) (x : HeldM α) (y : CommandM β)
    (R : Store → α → β → Prop) : Prop where
  shows : (exec x h).2.Shows (exec y desk).2
  kept : h.store.KeptIn (exec x h).2.store
  outcome : Matches (R (exec x h).2.store) (exec x h).1 (exec y desk).1

lemma Follows.of_exec {x : HeldM α} {y : CommandM β} {R : Store → α → β → Prop} {h' : HeldDesk}
    {desk' : Desk} {outcome : Except Fault α} {outcome' : Except Fault β}
    (hx : exec x h = (outcome, h')) (hy : exec y desk = (outcome', desk')) (hshows : h'.Shows desk')
    (hkept : h.store.KeptIn h'.store) (hR : Matches (R h'.store) outcome outcome') :
    Follows h desk x y R := by
  refine ⟨?_, ?_, ?_⟩ <;> rw [hx]
  · rw [hy]
    exact hshows
  · exact hkept
  · rw [hy]
    exact hR

lemma Follows.pure {R : Store → α → β → Prop} {a : α} {b : β} (hh : h.Shows desk)
    (hR : R h.store a b) : Follows h desk (pure a) (pure b) R :=
  .of_exec (exec_pure a h) (exec_pure b desk) hh (.refl _) (.ok hR)

/-- After a step that gives a value, it goes on as from there. -/
lemma Follows.step {x : HeldM α} {f : α → HeldM γ} {y z : CommandM δ} {Q : Store → γ → δ → Prop}
    {h' : HeldDesk} {desk' : Desk} {a : α} (hx : exec x h = (.ok a, h'))
    (hy : exec y desk = exec z desk') (hkept : h.store.KeptIn h'.store)
    (hf : Follows h' desk' (f a) z Q) : Follows h desk (x >>= f) y Q := by
  obtain ⟨hshows, hkept', houtcome⟩ := hf
  rw [← exec_bind_ok hx, ← hy] at hshows houtcome
  rw [← exec_bind_ok hx] at hkept'
  exact ⟨hshows, hkept.trans hkept', houtcome⟩

/-- Sequences follow sequences. -/
lemma Follows.bind {x : HeldM α} {y : CommandM β} {f : α → HeldM γ} {g : β → CommandM δ}
    {R : Store → α → β → Prop} {Q : Store → γ → δ → Prop} (hx : Follows h desk x y R)
    (hf : ∀ h' desk' a b, h'.Shows desk' → h.store.KeptIn h'.store → R h'.store a b →
      Follows h' desk' (f a) (g b) Q) :
    Follows h desk (x >>= f) (y >>= g) Q := by
  obtain ⟨hshows, hkept, houtcome⟩ := hx
  rcases hx : exec x h with ⟨outcome, h'⟩
  rcases hy : exec y desk with ⟨outcome', desk'⟩
  rw [hx, hy] at hshows houtcome
  rw [hx] at hkept
  cases houtcome with
  | error e => exact .of_exec (exec_bind_error hx) (exec_bind_error hy) hshows hkept (.error e)
  | ok hR => exact .step hx (exec_bind_ok hy) hkept (hf h' desk' _ _ hshows hkept hR)

/-- A step that only the held desk makes. -/
lemma Follows.bind_held {x : HeldM α} {b : β} {f : α → HeldM γ} {y : CommandM δ}
    {R : Store → α → β → Prop} {Q : Store → γ → δ → Prop} (hx : Follows h desk x (Pure.pure b) R)
    (hf : ∀ h' a, h'.Shows desk → h.store.KeptIn h'.store → R h'.store a b →
      Follows h' desk (f a) y Q) :
    Follows h desk (x >>= f) y Q := by
  obtain ⟨hshows, hkept, houtcome⟩ := hx
  rcases hx : exec x h with ⟨outcome, h'⟩
  rw [hx, exec_pure] at hshows houtcome
  rw [hx] at hkept
  cases houtcome with
  | ok hR => exact .step hx rfl hkept (hf h' _ hshows hkept hR)

lemma onStore_follows {x : StoreM α} {y : Except Fault β} {R : Store → α → β → Prop}
    (hh : h.Shows desk) (hx : Realizes h.store x y R) :
    Follows h desk (HeldM.onStore x) (MonadExcept.ofExcept y) R := by
  obtain ⟨hsound, -, hkept, houtcome⟩ := hx
  exact .of_exec rfl (exec_ofExcept y desk) (hh.later hsound hkept) hkept houtcome

lemma ofExcept_follows (hh : h.Shows desk) (x : Except Fault α) :
    Follows h desk (MonadExcept.ofExcept x) (MonadExcept.ofExcept x) fun _ a b => a = b :=
  .of_exec (exec_ofExcept x h) (exec_ofExcept x desk) hh (.refl _) (.refl x)

/-- Looking at the desk shows the plain desk. -/
lemma get_follows (hh : h.Shows desk) :
    Follows h desk get get fun s a b => a.store = s ∧ a.Shows b :=
  .of_exec (exec_get h) (exec_get desk) hh (.refl _) (.ok ⟨rfl, hh⟩)

/-! ## Commands follow commands -/

open Deskwork

lemma read_follows (hh : h.Shows desk) (text : List Char) :
    Follows h desk (read text) (read text) Has := by
  change Follows h desk (HeldM.read text) (CommandM.read text) Has
  refine (get_follows hh).bind fun h₁ desk₁ a b hh₁ _ hget => ?_
  rw [hget.2.plain_eq]
  refine (ofExcept_follows hh₁ _).bind fun h₂ desk₂ text _ hh₂ _ heq => ?_
  subst heq
  -- The plain command has read its noun here; the held one still puts it into the store.
  rw [← bind_pure (MonadExcept.ofExcept (Noun.parseChars text) : CommandM Noun)]
  refine (ofExcept_follows hh₂ _).bind fun h₃ desk₃ n _ hh₃ _ heq => ?_
  subst heq
  have hs := hh₃.sound.fits
  exact onStore_follows hh₃ ((hold_refines n hs).realizes_has hs)

lemma write_follows (hh : h.Shows desk) (hd : h.store.Has d n) :
    Follows h desk (write d) (write n) fun _ a b => a = b := by
  have hexec : exec (HeldM.write d) h = (n.pretty false, h) := by
    rw [HeldM.write, exec_bind_ok (exec_get h), exec_ofExcept, hd.nounOf]
  exact .of_exec hexec (exec_write n desk) hh (.refl _) (.refl _)

lemma parts?_follows (hh : h.Shows desk) (hd : h.store.Has d n) :
    Follows h desk (parts? d) (parts? n) fun s =>
      Option.Rel fun p q => s.Has p.1 q.1 ∧ s.Has p.2 q.2 := by
  have hs := hh.sound.fits
  have hlook : Realizes h.store (Memory.look d) (Memory.look n) fun s shape plain =>
      ∃ ν, s.Fits ν ∧ s.Shows ν shape plain :=
    (look_refines hs (hs.noun?_iff.mp hd)).realizes hs fun _ ν _ _ hs' hshape => ⟨ν, hs', hshape⟩
  cases n with
  | atom k =>
      refine Follows.bind_held (b := Shape.atom k) (onStore_follows hh hlook) ?_
      rintro h' _ hh' _ ⟨ν, hs', hshape⟩
      cases hshape
      exact .pure hh' .none
  | cell m n =>
      refine Follows.bind_held (b := Shape.cell m n) (onStore_follows hh hlook) ?_
      rintro h' _ hh' _ ⟨ν, hs', hshape⟩
      cases hshape with
      | cell hhead htail => exact .pure hh' (.some ⟨hs'.noun?_eq hhead, hs'.noun?_eq htail⟩)

lemma evaluate_follows (hh : h.Shows desk) (bound : Nat) (hd : h.store.Has d m)
    (he : h.store.Has e n) : Follows h desk (evaluate bound d e) (evaluate bound m n) Has := by
  have hs := hh.sound.fits
  have hnock := nock_refines bound hs (hs.noun?_iff.mp hd) (hs.noun?_iff.mp he)
  exact onStore_follows hh (hnock.realizes_has hs)

lemma subject_follows (hh : h.Shows desk) : Follows h desk subject subject Has :=
  .of_exec rfl (exec_subject desk) hh (.refl _) (.ok hh.kernel.subject)

lemma value?_follows (hh : h.Shows desk) (name : String) :
    Follows h desk (value? name) (value? name) fun s => Option.Rel s.Has :=
  .of_exec rfl (exec_value? name desk) hh (.refl _) (.ok (rel_lookup hh.vars name))

lemma overview_follows (hh : h.Shows desk) :
    Follows h desk Deskwork.overview Deskwork.overview fun _ a b => a = b := by
  refine (get_follows hh).bind fun h₁ desk₁ a b hh₁ _ hget => ?_
  rw [hget.2.plain_eq]
  exact ofExcept_follows hh₁ _

lemma setSubject_follows (hh : h.Shows desk) (hd : h.store.Has d n) :
    Follows h desk (setSubject d) (setSubject n) fun _ _ _ => True :=
  .of_exec (exec_modify _ h) (exec_setSubject n desk) ⟨hh.sound, ⟨hd, hh.kernel.last⟩, hh.vars⟩
    (.refl _) (.ok trivial)

lemma setLast_follows (hh : h.Shows desk) {last : Option Datum} {last' : Option Noun}
    (hlast : Option.Rel h.store.Has last last') :
    Follows h desk (setLast last) (setLast last') fun _ _ _ => True :=
  .of_exec (exec_modify _ h) (exec_setLast last' desk)
    ⟨hh.sound, ⟨hh.kernel.subject, hlast⟩, hh.vars⟩ (.refl _) (.ok trivial)

lemma define_follows (hh : h.Shows desk) (name : String) (hd : h.store.Has d n) :
    Follows h desk (define name d) (define name n) fun _ _ _ => True :=
  .of_exec (exec_modify _ h) (exec_define name n desk)
    ⟨hh.sound, hh.kernel, hh.vars.set name hd⟩ (.refl _) (.ok trivial)

/-- The commands that evaluate keep the result and then write it. -/
lemma evaluate_write_follows (hh : h.Shows desk) (bound : Nat) (hd : h.store.Has d m)
    (he : h.store.Has e n) :
    Follows h desk
      (do
        let result ← evaluate bound d e
        setLast (some result)
        write result)
      (do
        let result ← evaluate bound m n
        setLast (some result)
        write result) fun _ a b => a = b := by
  refine (evaluate_follows hh bound hd he).bind fun h₁ desk₁ result r hh₁ _ hresult => ?_
  refine (setLast_follows hh₁ (.some hresult)).bind fun h₂ desk₂ _ _ hh₂ hkept₂ _ => ?_
  exact write_follows hh₂ (hkept₂ _ _ hresult)

/-- **Every command on a store does what it does on plain nouns.** -/
lemma perform_follows (hh : h.Shows desk) (bound : Nat) : ∀ command : Command,
    Follows h desk (perform bound command) (perform bound command) fun _ a b => a = b
  | .apply text => by
      refine (read_follows hh text).bind fun h₁ desk₁ d n hh₁ _ hd => ?_
      refine (parts?_follows hh₁ hd).bind fun h₂ desk₂ parts plain hh₂ _ hparts => ?_
      cases hparts with
      | none => exact .pure hh₂ rfl
      | some hparts =>
          refine (evaluate_follows hh₂ bound hparts.1 hparts.2).bind
            fun h₃ desk₃ result r hh₃ hkept₃ hresult => ?_
          refine (setLast_follows hh₃ (.some hresult)).bind fun h₄ desk₄ _ _ hh₄ hkept₄ _ => ?_
          have hsubject := hkept₄ _ _ (hkept₃ _ _ hparts.1)
          refine (setSubject_follows hh₄ hsubject).bind fun h₅ desk₅ _ _ hh₅ hkept₅ _ => ?_
          exact write_follows hh₅ (hkept₅ _ _ (hkept₄ _ _ hresult))
  | .subject text => by
      refine (read_follows hh text).bind fun h₁ desk₁ d n hh₁ _ hd => ?_
      refine (setSubject_follows hh₁ hd).bind fun h₂ desk₂ _ _ hh₂ hkept₂ _ => ?_
      refine (write_follows hh₂ (hkept₂ _ _ hd)).bind fun h₃ desk₃ _ _ hh₃ _ heq => ?_
      exact .pure hh₃ (congrArg _ heq)
  | .formula text => by
      refine (read_follows hh text).bind fun h₁ desk₁ formula n hh₁ _ hformula => ?_
      refine (subject_follows hh₁).bind fun h₂ desk₂ subject m hh₂ hkept₂ hsubject => ?_
      exact evaluate_write_follows hh₂ bound hsubject (hkept₂ _ _ hformula)
  | .nock text => by
      refine (read_follows hh text).bind fun h₁ desk₁ d n hh₁ _ hd => ?_
      refine (parts?_follows hh₁ hd).bind fun h₂ desk₂ parts plain hh₂ _ hparts => ?_
      cases hparts with
      | none => exact .pure hh₂ rfl
      | some hparts => exact evaluate_write_follows hh₂ bound hparts.1 hparts.2
  | .showAll => overview_follows hh
  | .showVariable name => by
      refine (value?_follows hh name).bind fun h₁ desk₁ held value hh₁ _ hvalue => ?_
      cases hvalue with
      | none => exact .pure hh₁ rfl
      | some hd =>
          refine (write_follows hh₁ hd).bind fun h₂ desk₂ _ _ hh₂ _ heq => ?_
          exact .pure hh₂ (congrArg _ heq)
  | .help => .pure hh rfl
  | .assign name text => by
      refine (read_follows hh text).bind fun h₁ desk₁ d n hh₁ _ hd => ?_
      refine (define_follows hh₁ name hd).bind fun h₂ desk₂ _ _ hh₂ hkept₂ _ => ?_
      refine (write_follows hh₂ (hkept₂ _ _ hd)).bind fun h₃ desk₃ _ _ hh₃ _ heq => ?_
      exact .pure hh₃ (congrArg _ heq)
  | .malformed => by
      refine (setLast_follows hh .none).bind fun h₁ desk₁ _ _ hh₁ _ _ => ?_
      exact .pure hh₁ rfl

end

/-! ## Notebooks -/

/-- The kernels used so far and the variables they share, all in one store. -/
structure Held where
  store : Store := {}
  kernels : List (Int × HeldKernel) := []
  vars : HeldVariables := []

namespace Held

/-- The kernel with the given number, new if the number was not used before. -/
def kernel (held : Held) (number : Int) : HeldKernel :=
  (held.kernels.lookup number).getD {}

/-- What the kernel with the given number works on. -/
def desk (held : Held) (number : Int) : HeldDesk :=
  ⟨held.store, held.kernel number, held.vars⟩

/-- Put back what the kernel with the given number has worked on. -/
def putBack (held : Held) (number : Int) (desk : HeldDesk) : Held :=
  ⟨desk.store, (number, desk.kernel) :: held.kernels.filter (·.1 ≠ number), desk.vars⟩

/-- Let the kernel with the given number answer a text. -/
def execute (bound : Nat) (held : Held) (number : Int) (silent : Bool) (code : String) :
    Reply × Held :=
  match Command.ofText? code.toList with
  | none => ({}, held.putBack number (held.desk number))
  | some command =>
      let (outcome, desk) := exec (perform bound command : HeldM String) (held.desk number)
      (Reply.ofOutcome silent outcome, held.putBack number desk)

/-- The store is sound, and all data of the notebook denote the nouns of the plain one. -/
structure Shows (held : Held) (nb : Notebook) : Prop where
  sound : held.store.Sound
  kernels : List.Forall₂ (fun entry plain => entry.1 = plain.1 ∧
    HeldKernel.Shows held.store entry.2 plain.2) held.kernels nb.kernels
  vars : HeldVariables.Shows held.store held.vars nb.vars

variable {held : Held} {nb : Notebook}

lemma Shows.kernel (h : held.Shows nb) (number : Int) :
    HeldKernel.Shows held.store (held.kernel number) (nb.kernel number) := by
  have hlookup := rel_lookup h.kernels number
  rw [Held.kernel, Notebook.kernel]
  generalize held.kernels.lookup number = kernel at hlookup ⊢
  generalize nb.kernels.lookup number = plain at hlookup ⊢
  cases hlookup with
  | none => exact ⟨rfl, .none⟩
  | some hkernel => exact hkernel

lemma Shows.desk (h : held.Shows nb) (number : Int) : (held.desk number).Shows (nb.desk number) :=
  ⟨h.sound, h.kernel number, h.vars⟩

/-- What one kernel has done to the store does not show at the others. -/
lemma Shows.putBack (h : held.Shows nb) (number : Int) {d : HeldDesk} {desk : Desk}
    (hd : d.Shows desk) (hkept : held.store.KeptIn d.store) :
    (held.putBack number d).Shows (nb.putBack number desk) := by
  refine ⟨hd.sound, .cons ⟨rfl, hd.kernel⟩ ?_, hd.vars⟩
  have hkernels := h.kernels.imp fun _ _ hentry =>
    And.intro hentry.1 (hentry.2.later hkept)
  refine List.rel_filter ?_ hkernels
  rintro entry plain ⟨hnumber, -⟩
  simp only [hnumber]

/-- **A held notebook answers as the plain one that it shows**, and goes on showing it. -/
lemma Shows.execute (h : held.Shows nb) (bound : Nat) (number : Int) (silent : Bool)
    (code : String) :
    (held.execute bound number silent code).1 = (nb.execute bound number silent code).1 ∧
      (held.execute bound number silent code).2.Shows (nb.execute bound number silent code).2 := by
  rw [Held.execute, Notebook.execute]
  cases hcode : Command.ofText? code.toList with
  | none =>
      rw [Desk.execute_of_none hcode]
      exact ⟨rfl, h.putBack number (h.desk number) (.refl _)⟩
  | some command =>
      rw [Desk.execute_of_some hcode]
      obtain ⟨hshows, hkept, houtcome⟩ := perform_follows (h.desk number) bound command
      exact ⟨congrArg (Reply.ofOutcome silent) houtcome.eq, h.putBack number hshows hkept⟩

end Held

end Notebook

end Nock
