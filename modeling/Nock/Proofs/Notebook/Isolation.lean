import Nock.Proofs.Notebook.Held
import Nock.Proofs.Notebook.Variables

/-!
# Kernels do not see each other

The kernels of a notebook share its variables and nothing else.  What another kernel is asked to do
can therefore be left out without anybody at kernel `k` noticing, as long as it defines no variable.

This compares **two runs**, one with the requests that are left out and one without.  The two
notebooks differ along the way, in the other kernels, but they have the same desk for `k`: the same
kernel and the same variables.  Three facts keep it so.

* What `k` itself is asked to do depends on its desk only (`answer_of_desk`).
* What a request leaves as the variables depends on the variables only (`answer_vars_of_vars`), also
  if it is made at another kernel, whose subject may differ between the runs.
* A request to another kernel that defines nothing leaves the desk of `k` as it is
  (`desk_answer_of_not_defines`).

Where the nouns are held in a store, a request to another kernel may also change cells that `k` uses.
It does not change what they denote, so a run there looks like the run on plain nouns
(`Held.Shows.same_sightings`).
-/

namespace Nock.Notebook

open Deskwork

/-! ## Requests -/

/-- A text for a kernel, whether its answer is silent, and the bound for what it evaluates. -/
structure Request where
  number : Int
  code : String
  silent : Bool := false
  bound : Nat := defaultBound
  deriving DecidableEq, Repr

/-- Does the text define a variable?  It does not matter whether its value can be read. -/
def Request.defines (r : Request) : Bool :=
  match Command.ofText? r.code.toList with
  | some (.assign _ _) => true
  | _ => false

/-- The answer to a request, and the notebook after it. -/
def answer (nb : Notebook) (r : Request) : Reply × Notebook :=
  nb.execute r.bound r.number r.silent r.code

/-- The notebook after a sequence of requests. -/
def run (nb : Notebook) : List Request → Notebook
  | [] => nb
  | r :: rest => (nb.answer r).2.run rest

/-- What is seen at a kernel when it is asked something: its subject, its last result and the
variables before and after, and the answer. -/
structure Sighting where
  before : Desk
  reply : Reply
  after : Desk
  deriving DecidableEq, Repr

/-- What is seen at the kernel `k` during a sequence of requests. -/
def sightings (nb : Notebook) (k : Int) : List Request → List Sighting
  | [] => []
  | r :: rest =>
      let (reply, nb') := nb.answer r
      if r.number = k then
        ⟨nb.desk k, reply, nb'.desk k⟩ :: nb'.sightings k rest
      else
        nb'.sightings k rest

/-- The second sequence is the first one without some of the requests to other kernels than `k`,
none of which defines a variable. -/
inductive Thinned (k : Int) : List Request → List Request → Prop
  | nil : Thinned k [] []
  | keep (r : Request) {requests kept : List Request} (h : Thinned k requests kept) :
      Thinned k (r :: requests) (r :: kept)
  | drop (r : Request) (hother : r.number ≠ k) (hdefines : r.defines = false)
      {requests kept : List Request} (h : Thinned k requests kept) :
      Thinned k (r :: requests) kept

variable {nb nb' : Notebook} {k : Int} {r : Request}

/-! ## One request -/

@[simp] lemma desk_putBack (number : Int) (desk : Desk) :
    (nb.putBack number desk).desk number = desk := by
  rw [Notebook.desk, kernel_putBack]
  rfl

/-- The answer of a kernel, and the desk that it leaves, depend on its desk only. -/
lemma answer_of_desk (h : nb.desk r.number = nb'.desk r.number) :
    (nb.answer r).1 = (nb'.answer r).1 ∧
      (nb.answer r).2.desk r.number = (nb'.answer r).2.desk r.number := by
  simp only [answer, Notebook.execute, desk_putBack, h, and_self]

/-- The other kernels are left alone. -/
lemma kernel_answer_of_ne (h : k ≠ r.number) : (nb.answer r).2.kernel k = nb.kernel k :=
  kernel_putBack_of_ne h _

/-- The variables after a request: those before, unless the text defines one that is read. -/
lemma answer_vars (nb : Notebook) (r : Request) :
    (nb.answer r).2.vars =
      match Command.ofText? r.code.toList with
      | some (.assign name text) =>
          match (nb.desk r.number).read text with
          | .ok value => nb.vars.set name value
          | .error _ => nb.vars
      | _ => nb.vars := by
  rw [answer, Notebook.execute]
  cases hcode : Command.ofText? r.code.toList with
  | none => rw [Desk.execute_of_none hcode]; rfl
  | some command =>
      rw [Desk.execute_of_some hcode]
      cases command with
      | assign name text => exact perform_assign_vars r.bound (nb.desk r.number) name text
      | _ => exact perform_keeps_vars r.bound (by simp) (nb.desk r.number)

/-- What a request leaves as the variables depends on the variables only. -/
lemma answer_vars_of_vars (h : nb.vars = nb'.vars) :
    (nb.answer r).2.vars = (nb'.answer r).2.vars := by
  have hread : ∀ text, (nb.desk r.number).read text = (nb'.desk r.number).read text := by
    intro text
    simp only [Desk.read, Notebook.desk, h]
  simp only [answer_vars, hread, h]

/-- A request to another kernel leaves what it did to the variables and nothing else. -/
lemma desk_answer_of_ne (hother : r.number ≠ k) :
    (nb.answer r).2.desk k = ⟨nb.kernel k, (nb.answer r).2.vars⟩ := by
  rw [Notebook.desk, kernel_answer_of_ne hother.symm]

/-- So if it defines nothing, it leaves nothing. -/
lemma desk_answer_of_not_defines (hother : r.number ≠ k) (hdefines : r.defines = false) :
    (nb.answer r).2.desk k = nb.desk k := by
  have hvars : (nb.answer r).2.vars = nb.vars := by
    rw [answer_vars]
    rw [Request.defines] at hdefines
    split <;> simp_all
  rw [desk_answer_of_ne hother, hvars]
  rfl

/-- Notebooks with the same desk for `k` have the same desk for `k` after any request. -/
lemma desk_answer_congr (h : nb.desk k = nb'.desk k) :
    (nb.answer r).2.desk k = (nb'.answer r).2.desk k := by
  by_cases hown : r.number = k
  · subst hown
    exact (answer_of_desk h).2
  · have hkernel : nb.kernel k = nb'.kernel k := congrArg Desk.kernel h
    have hvars : nb.vars = nb'.vars := congrArg Desk.vars h
    rw [desk_answer_of_ne hown, desk_answer_of_ne hown, hkernel, answer_vars_of_vars hvars]

/-! ## Two runs -/

lemma sightings_cons_own (hown : r.number = k) (rest : List Request) :
    nb.sightings k (r :: rest) =
      ⟨nb.desk k, (nb.answer r).1, (nb.answer r).2.desk k⟩ :: (nb.answer r).2.sightings k rest := by
  simp only [sightings, hown, if_true]

lemma sightings_cons_other (hother : r.number ≠ k) (rest : List Request) :
    nb.sightings k (r :: rest) = (nb.answer r).2.sightings k rest := by
  simp only [sightings, hother, if_false]

/-- Two runs from notebooks with the same desk for `k`, one of them thinned, look the same at `k` and
end with the same desk for it. -/
lemma Thinned.same_sightings {requests kept : List Request} (h : Thinned k requests kept) :
    ∀ {nb nb' : Notebook}, nb.desk k = nb'.desk k →
      nb.sightings k requests = nb'.sightings k kept ∧
        (nb.run requests).desk k = (nb'.run kept).desk k := by
  induction h with
  | nil =>
      intro nb nb' hdesk
      exact ⟨rfl, hdesk⟩
  | keep r h ih =>
      intro nb nb' hdesk
      obtain ⟨hrest, hend⟩ := ih (desk_answer_congr (r := r) hdesk)
      refine ⟨?_, hend⟩
      by_cases hown : r.number = k
      · subst hown
        obtain ⟨hreply, hafter⟩ := answer_of_desk hdesk
        rw [sightings_cons_own rfl, sightings_cons_own rfl, hdesk, hreply, hafter, hrest]
      · rw [sightings_cons_other hown, sightings_cons_other hown, hrest]
  | drop r hother hdefines h ih =>
      intro nb nb' hdesk
      obtain ⟨hrest, hend⟩ := ih ((desk_answer_of_not_defines hother hdefines).trans hdesk)
      exact ⟨(sightings_cons_other hother _).trans hrest, hend⟩

/-- The request is made at the kernel `k` or defines a variable. -/
def Request.concerns (k : Int) (r : Request) : Bool :=
  r.number = k || r.defines

/-- Everything that does not concern `k` can be left out. -/
lemma thinned_filter (k : Int) : ∀ requests : List Request,
    Thinned k requests (requests.filter (Request.concerns k))
  | [] => .nil
  | r :: rest => by
      by_cases hconcerns : r.concerns k = true
      · rw [List.filter_cons_of_pos hconcerns]
        exact .keep r (thinned_filter k rest)
      · rw [List.filter_cons_of_neg hconcerns]
        simp only [Request.concerns, Bool.or_eq_true, decide_eq_true_eq, not_or,
          Bool.not_eq_true] at hconcerns
        exact .drop r hconcerns.1 hconcerns.2 (thinned_filter k rest)

/-! ## In a store -/

namespace Held

/-- The answer to a request, and the notebook after it. -/
def answer (held : Held) (r : Request) : Reply × Held :=
  held.execute r.bound r.number r.silent r.code

/-- The notebook after a sequence of requests. -/
def run (held : Held) : List Request → Held
  | [] => held
  | r :: rest => (held.answer r).2.run rest

/-- What is seen at the kernel `k` during a sequence of requests: the nouns that its data denote at
that moment. -/
def sightings (held : Held) (k : Int) : List Request → List Sighting
  | [] => []
  | r :: rest =>
      let (reply, held') := held.answer r
      if r.number = k then
        ⟨(held.desk k).plain, reply, (held'.desk k).plain⟩ :: held'.sightings k rest
      else
        held'.sightings k rest

/-- In a store the same is seen, whatever the kernels share. -/
lemma Shows.same_sightings (k : Int) : ∀ (requests : List Request) {held : Held} {nb : Notebook},
    held.Shows nb → held.sightings k requests = nb.sightings k requests ∧
      (held.run requests).Shows (nb.run requests)
  | [], held, nb, h => ⟨rfl, h⟩
  | r :: rest, held, nb, h => by
      obtain ⟨hreply, hshows⟩ := h.execute r.bound r.number r.silent r.code
      obtain ⟨hrest, hend⟩ := same_sightings k rest hshows
      refine ⟨?_, hend⟩
      have hbefore := (h.desk k).plain_eq
      have hafter := (hshows.desk k).plain_eq
      simp only [sightings, Notebook.sightings, answer, Notebook.answer, hreply, hrest, hbefore,
        hafter]

end Held

/-! ## Isolation -/

/-- **Kernels influence each other through definitions only.**  Requests to other kernels that define
no variable can be left out, and at `k` nothing changes: neither its answers nor, at each of its
requests, its subject, its last result and the variables.  So two sequences look the same at `k` if
they agree in the requests to `k` and in the definitions.  All of this is also true if the nouns are
held in a store, where the kernels may share cells that evaluating changes. -/
theorem sightings_eq_of_thinned (nb : Notebook) (k : Int) (requests : List Request) :
    (∀ kept, Thinned k requests kept →
      nb.sightings k kept = nb.sightings k requests ∧
      (nb.run kept).desk k = (nb.run requests).desk k) ∧
    (∀ others : List Request,
      others.filter (Request.concerns k) = requests.filter (Request.concerns k) →
      nb.sightings k others = nb.sightings k requests ∧
      (nb.run others).desk k = (nb.run requests).desk k) ∧
    ∀ held held' : Held, held.Shows nb → held'.Shows nb → ∀ kept, Thinned k requests kept →
      held.sightings k kept = held'.sightings k requests ∧
      held'.sightings k requests = nb.sightings k requests ∧
      ((held.run kept).desk k).plain = ((held'.run requests).desk k).plain := by
  have hthin : ∀ {requests kept}, Thinned k requests kept →
      nb.sightings k requests = nb.sightings k kept ∧
        (nb.run requests).desk k = (nb.run kept).desk k :=
    fun h => h.same_sightings rfl
  refine ⟨fun kept h => ?_, fun others hsame => ?_, fun held held' hheld hheld' kept h => ?_⟩
  · obtain ⟨hseen, hdesk⟩ := hthin h
    exact ⟨hseen.symm, hdesk.symm⟩
  · obtain ⟨hseen, hdesk⟩ := hthin (thinned_filter k requests)
    obtain ⟨hseen', hdesk'⟩ := hthin (thinned_filter k others)
    rw [hseen, hdesk, hseen', hdesk', hsame]
    exact ⟨rfl, rfl⟩
  · obtain ⟨hseen, hdesk⟩ := hthin h
    obtain ⟨hkept, hshows⟩ := hheld.same_sightings k kept
    obtain ⟨hall, hshows'⟩ := hheld'.same_sightings k requests
    rw [hkept, hall, (hshows.desk k).plain_eq, (hshows'.desk k).plain_eq, hseen, hdesk]
    exact ⟨rfl, rfl, rfl⟩

/-- Two kernels with one cell as their subject, which holds `[[[1 2] 3] [1 2] 3]`.  Its parts are
equal, but two cells, and one of them is also the value of a variable. -/
def sharingKernels : Held :=
  ⟨⟨#[⟨.atom 1, .atom 2, 0, 1⟩, ⟨.atom 1, .atom 2, 0, 1⟩, ⟨.cell 0, .atom 3, 0, 2⟩,
      ⟨.cell 1, .atom 3, 0, 2⟩, ⟨.cell 2, .cell 3, 0, 3⟩], #[]⟩,
    [(0, ⟨.cell 4, none⟩), (1, ⟨.cell 4, none⟩)], [("part", .cell 3)]⟩

/-- The nouns of `sharingKernels`. -/
def plainKernels : Notebook :=
  let part := Noun.cell (.cell (.atom 1) (.atom 2)) (.atom 3)
  ⟨[(0, ⟨.cell part part, none⟩), (1, ⟨.cell part part, none⟩)], [("part", part)]⟩

/-- Kernel 1 compares the parts of its subject. -/
def comparing : Request :=
  ⟨1, ":formula [5 [0 2] 0 3]", false, 9⟩

/-- Kernel 1 sets its subject. -/
def settingSubject : Request :=
  ⟨1, ":subject [part part]", false, 9⟩

/-- Kernel 0 uses its subject and the variable, and kernel 1 defines the variable. -/
def keptRequests : List Request :=
  [⟨0, ":formula [0 3]", false, 9⟩, ⟨1, ":part 7", false, 9⟩, ⟨0, ":formula [1 part]", false, 9⟩]

/-- The cell that is the head of the given one. -/
def headCell? (s : Store) (c : CellId) : Option CellId :=
  match s.cells[c]? with
  | some ⟨.cell head, _, _, _⟩ => some head
  | _ => none

/-- What kernel 1 does besides does not show at kernel 0, though comparing changes a cell of their
subject and of the variable. -/
theorem sightings_eq_of_thinned_shared :
    (sharingKernels.Shows plainKernels ∧
      Thinned 0 (comparing :: settingSubject :: keptRequests) keptRequests ∧
      (plainKernels.run keptRequests).kernel 0 =
        ⟨(plainKernels.kernel 0).subject, some (.atom 7)⟩ ∧
      headCell? sharingKernels.store 3 = some 1 ∧
      headCell? (sharingKernels.answer comparing).2.store 3 = some 0) ∧
    plainKernels.sightings 0 keptRequests =
      plainKernels.sightings 0 (comparing :: settingSubject :: keptRequests) ∧
    sharingKernels.sightings 0 keptRequests =
      sharingKernels.sightings 0 (comparing :: settingSubject :: keptRequests) := by
  have hshows : sharingKernels.Shows plainKernels :=
    ⟨by decide +kernel, .cons ⟨rfl, rfl, .none⟩ (.cons ⟨rfl, rfl, .none⟩ .nil),
      .cons ⟨rfl, rfl⟩ .nil⟩
  have hthinned : Thinned 0 (comparing :: settingSubject :: keptRequests) keptRequests :=
    .drop _ (by decide) (by decide +kernel) (.drop _ (by decide) (by decide +kernel)
      (.keep _ (.keep _ (.keep _ .nil))))
  have hend : (plainKernels.run keptRequests).kernel 0 =
      ⟨(plainKernels.kernel 0).subject, some (.atom 7)⟩ := by decide +kernel
  have hcell : headCell? (sharingKernels.answer comparing).2.store 3 = some 0 := by decide +kernel
  obtain ⟨hplain, -, hheld⟩ := sightings_eq_of_thinned plainKernels 0
    (comparing :: settingSubject :: keptRequests)
  exact ⟨⟨hshows, hthinned, hend, rfl, hcell⟩, (hplain _ hthinned).1,
    (hheld _ _ hshows hshows _ hthinned).1⟩

end Nock.Notebook
