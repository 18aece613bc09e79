import Nock.Proofs.Natural
import Nock.Proofs.Store.Jam
import Nock.Proofs.Store.Refinement
import Nock.Session

/-!
# Sessions keep what their cells denote

A session makes cells, hashes them, compares them, serialises them and evaluates them, in any order
and on any operands that earlier steps have left.  All of this works on one store, and most of it
changes cells that are in use elsewhere.

**Plain sessions.**  `Action.onNouns` says what a call gives on plain nouns, where nothing can change.
Each call on a store refines it (`perform_refines`): its operands are made first, from the left to the
right, and then the call finds them as they denote.

**The invariant.**  `Session.Keeps` says of a moment of a session that the store fits a reading and
that every result is a natural noun under it or nothing.  A call leads to a later moment of the same
kind (`Keeps.step`), and so does a whole session (`Keeps.run`).
-/

namespace Nock

open StoreM hiding look same copy
open Store Memory Reduction

/-! ## Calls and what they mean -/

/-- The noun that an operand stands for at a moment of a session. -/
def Operand.noun? (σ : Session) : Operand → Option Noun
  | .atom k => some (.atom k)
  | .flag b => some (.atom (flagNumber b))
  | .cell h t => do return .cell (← noun? σ h) (← noun? σ t)
  | .result i => do σ.store.noun? (← σ.results[i]?)
  | _ => none

/-- No atom that is written out is negative. -/
def Operand.isNatural : Operand → Bool
  | .atom k => 0 ≤ k
  | .cell h t => h.isNatural && t.isNatural
  | _ => true

/-- The calls that a session is made of, with the numbers of their operands. -/
def Session.calls : List (Action × Nat) :=
  [(.makeCell, 2), (.rememberedMug, 1), (.equal, 2), (.same, 2), (.jam, 1), (.copy, 1), (.slot, 2),
    (.edit, 3), (.nock, 2)]

/-- The step is one of the calls, on operands that are nouns. -/
def Session.Admits (σ : Session) (step : Step) : Prop :=
  (step.action, step.operands.length) ∈ calls ∧
    ∀ x ∈ step.operands, x.isNatural = true ∧ (x.noun? σ).isSome = true

instance (σ : Session) (step : Step) : Decidable (σ.Admits step) :=
  inferInstanceAs (Decidable (_ ∧ _))

/-- Take steps one after the other, each under its own bound. -/
def Session.run (σ : Session) : List (Nat × Step) → Session
  | [] => σ
  | (bound, step) :: rest => (σ.step bound step).2.run rest

/-- Every step of the session is a call on nouns. -/
def Session.Admissible (σ : Session) : List (Nat × Step) → Prop
  | [] => True
  | (bound, step) :: rest => σ.Admits step ∧ (σ.step bound step).2.Admissible rest

instance Session.decidableAdmissible (σ : Session) :
    (steps : List (Nat × Step)) → Decidable (σ.Admissible steps)
  | [] => inferInstanceAs (Decidable True)
  | (bound, step) :: rest =>
      @instDecidableAnd _ _ inferInstance (decidableAdmissible (σ.step bound step).2 rest)

/-- What a call gives on plain nouns. -/
def Action.onNouns (bound : Nat) : Action → List Noun → Except Fault Noun
  | .makeCell, [h, t] => .ok (.cell h t)
  | .rememberedMug, [.atom k] => .ok (.atom (Mug.residue k))
  | .rememberedMug, [.cell h t] => do return .atom (← (Noun.cell h t).mug)
  | .equal, [a, b] => .ok (.atom (flagNumber (a == b)))
  | .same, [a, b] => .ok (truth (Except Fault) (a == b))
  | .jam, [n] => .ok (.atom n.jam)
  | .copy, [n] => .ok n
  | .slot, [axis, n] => slotAt bound axis n
  | .edit, [axis, part, n] => editAt bound axis part n
  | .nock, [subject, formula] => Noun.nock bound subject formula
  | _, _ => .error .wrongOperands

lemma Session.admissible_append (σ : Session) : ∀ before after : List (Nat × Step),
    σ.Admissible (before ++ after) ↔ σ.Admissible before ∧ (σ.run before).Admissible after
  | [], _ => by simp [Admissible, run]
  | (bound, step) :: before, after => by
      simp only [List.cons_append, Admissible, run, admissible_append _ before after, and_assoc]

/-! ## Making operands -/

/-- The store fits the reading, and every result is a natural noun or nothing. -/
structure Session.Keeps (σ : Session) (ν : Reading) : Prop where
  fits : σ.store.Fits ν
  results : ∀ d ∈ σ.results, d = .nothing ∨ ∃ n, σ.store.Denotes ν d n ∧ n.Natural

/-- The data denote the nouns, one by one. -/
def Store.DenotesAll (s : Store) (ν : Reading) : List Datum → List Noun → Prop :=
  List.Forall₂ (s.Denotes ν)

/-- The datum of a result denotes the noun. -/
def Store.Gives (s : Store) (ν : Reading) (result : Result) (n : Noun) : Prop :=
  s.Denotes ν result.datum n

variable {σ : Session} {s : Store} {ν ν₀ : Reading}

lemma Session.Keeps.natural (hσ : σ.Keeps ν) : ∀ {x : Operand} {n : Noun}, x.noun? σ = some n →
    x.isNatural = true → n.Natural
  | .atom k, n, hx, hk => by
      cases hx
      exact of_decide_eq_true hk
  | .flag b, n, hx, _ => by
      cases hx
      cases b <;> decide
  | .cell h t, n, hx, hnat => by
      simp only [Operand.noun?, Option.bind_eq_bind, Option.bind_eq_some_iff] at hx
      obtain ⟨m, hm, k, hk, hn⟩ := hx
      cases hn
      rw [Operand.isNatural, Bool.and_eq_true] at hnat
      exact ⟨hσ.natural hm hnat.1, hσ.natural hk hnat.2⟩
  | .result i, n, hx, _ => by
      simp only [Operand.noun?, Option.bind_eq_bind, Option.bind_eq_some_iff] at hx
      obtain ⟨d, hd, hn⟩ := hx
      rcases hσ.results d (Array.mem_of_getElem? hd) with rfl | ⟨m, hm, hnat⟩
      · cases hn
      · rw [hσ.fits.noun?_eq hm] at hn
        cases hn
        exact hnat

/-- An operand is made into a datum that denotes the noun it stands for, at any later moment. -/
lemma load_refines (hσ : σ.Keeps ν₀) : ∀ {x : Operand} {n : Noun} {s : Store} {ν : Reading},
    σ.store.Extends ν₀ s ν → s.Fits ν → x.noun? σ = some n →
      Refines s ν (x.load σ.results) (.ok n) Denotes
  | .atom k, n, s, ν, _, hs, hx => by
      cases hx
      exact .pure hs rfl
  | .flag b, n, s, ν, _, hs, hx => by
      cases hx
      exact .pure hs rfl
  | .cell h t, n, s, ν, hlater, hs, hx => by
      simp only [Operand.noun?, Option.bind_eq_bind, Option.bind_eq_some_iff] at hx
      obtain ⟨m, hm, k, hk, hn⟩ := hx
      cases hn
      rw [Operand.load]
      refine (load_refines hσ hlater hs hm).bind_ok fun s₁ ν₁ _ h₁ hs₁ hd₁ => ?_
      refine (load_refines hσ (hlater.trans h₁) hs₁ hk).bind_ok fun s₂ ν₂ _ h₂ hs₂ hd₂ => ?_
      exact cell_refines hs₂ (hd₁.later h₂) hd₂
  | .result i, n, s, ν, hlater, hs, hx => by
      simp only [Operand.noun?, Option.bind_eq_bind, Option.bind_eq_some_iff] at hx
      obtain ⟨d, hd, hn⟩ := hx
      rw [Operand.load, hd]
      exact .pure hs ((hσ.fits.noun?_iff.mp hn).later hlater)

/-- Operands are made from the left to the right. -/
lemma loadAll_refines (hσ : σ.Keeps ν₀) : ∀ {xs : List Operand} {ns : List Noun} {s : Store}
    {ν : Reading}, σ.store.Extends ν₀ s ν → s.Fits ν →
    List.Forall₂ (fun x n => x.noun? σ = some n) xs ns →
      Refines s ν (xs.mapM (Operand.load σ.results)) (.ok ns) DenotesAll
  | [], _, s, ν, _, hs, .nil => .pure hs .nil
  | x :: xs, _, s, ν, hlater, hs, .cons hx hxs => by
      rw [List.mapM_cons]
      refine (load_refines hσ hlater hs hx).bind_ok fun s₁ ν₁ _ h₁ hs₁ hd => ?_
      refine (loadAll_refines hσ (hlater.trans h₁) hs₁ hxs).bind_ok fun s₂ ν₂ _ h₂ hs₂ hds => ?_
      exact .pure hs₂ (.cons (hd.later h₂) hds)

/-! ## Calls on held nouns -/

section

variable {ds : List Datum} {ns : List Noun}

lemma Store.DenotesAll.one (h : s.DenotesAll ν ds ns) (hlength : ds.length = 1) :
    ∃ d n, ds = [d] ∧ ns = [n] ∧ s.Denotes ν d n := by
  match ds, ns, h with
  | [_], [_], .cons hd .nil => exact ⟨_, _, rfl, rfl, hd⟩

lemma Store.DenotesAll.two (h : s.DenotesAll ν ds ns) (hlength : ds.length = 2) :
    ∃ d e m n, ds = [d, e] ∧ ns = [m, n] ∧ s.Denotes ν d m ∧ s.Denotes ν e n := by
  match ds, ns, h with
  | [_, _], [_, _], .cons hd (.cons he .nil) => exact ⟨_, _, _, _, rfl, rfl, hd, he⟩

lemma Store.DenotesAll.three (h : s.DenotesAll ν ds ns) (hlength : ds.length = 3) :
    ∃ d e f m n k, ds = [d, e, f] ∧ ns = [m, n, k] ∧ s.Denotes ν d m ∧ s.Denotes ν e n ∧
      s.Denotes ν f k := by
  match ds, ns, h with
  | [_, _, _], [_, _, _], .cons hd (.cons he (.cons hf .nil)) =>
      exact ⟨_, _, _, _, _, _, rfl, rfl, hd, he, hf⟩

end

variable {d e : Datum} {m n : Noun}

/-- An effect whose datum is the result of a call. -/
lemma Refines.value {x : StoreM Datum} {y : Except Fault Noun} (h : Refines s ν x y Denotes) :
    Refines s ν (do return .value (← x)) y Gives := by
  have hplain : y = (y >>= fun n => .ok n) := by cases y <;> rfl
  rw [hplain]
  exact h.bind fun _ _ _ _ _ hs' hd => .pure hs' hd

lemma mug_refines (hs : s.Fits ν) (hd : s.Denotes ν d n) :
    Refines s ν (StoreM.mug d) n.mug Equal := by
  obtain ⟨s', hexec, hs', hsize⟩ := mug_exec hs hd
  refine .of_exec hexec (.of_size hsize) hs' ?_
  cases n.mug with
  | error e => exact .error e
  | ok k => exact .ok rfl

lemma jam_refines (hs : s.Fits ν) (hd : s.Denotes ν d n) (hn : n.Natural) :
    Refines s ν (StoreM.jam d) (.ok n.jam) Equal := by
  obtain ⟨s', hexec, hs', hsize⟩ := jam_exec hs hd hn
  exact .of_exec hexec (.of_size hsize) hs' (.ok rfl)

lemma rememberedMug_refines (bound : Nat) (hs : s.Fits ν) (hd : s.Denotes ν d n) :
    Refines s ν (do return .number (← StoreM.hash d)) (Action.onNouns bound .rememberedMug [n])
      Gives := by
  cases d with
  | atom k =>
      cases hd
      exact .pure hs rfl
  | flag b =>
      cases hd
      exact .pure hs rfl
  | cell c =>
      have hmug := mug_refines hs hd
      obtain ⟨_, rfl⟩ := hd
      obtain ⟨_, h, t, _, hν, _⟩ := hs.get ‹_›
      rw [hν] at hmug ⊢
      refine hmug.bind fun s₁ ν₁ _ _ _ hs₁ heq => ?_
      cases heq
      exact .pure hs₁ rfl
  | _ => exact hd.elim

/-- A call on held nouns gives what it gives on the plain nouns that they denote. -/
lemma perform_refines (bound : Nat) {action : Action} {ds : List Datum} {ns : List Noun}
    (hcall : (action, ds.length) ∈ Session.calls) (hs : s.Fits ν) (hds : s.DenotesAll ν ds ns)
    (hns : ∀ n ∈ ns, n.Natural) :
    Refines s ν (Session.perform bound action ds) (action.onNouns bound ns) Gives := by
  simp only [Session.calls, List.mem_cons, Prod.mk.injEq, List.not_mem_nil, or_false] at hcall
  rcases hcall with ⟨rfl, hlength⟩ | ⟨rfl, hlength⟩ | ⟨rfl, hlength⟩ | ⟨rfl, hlength⟩ |
    ⟨rfl, hlength⟩ | ⟨rfl, hlength⟩ | ⟨rfl, hlength⟩ | ⟨rfl, hlength⟩ | ⟨rfl, hlength⟩
  · obtain ⟨d, e, m, n, rfl, rfl, hd, he⟩ := hds.two hlength
    exact (cell_refines hs hd he).value
  · obtain ⟨d, n, rfl, rfl, hd⟩ := hds.one hlength
    exact rememberedMug_refines bound hs hd
  · obtain ⟨d, e, m, n, rfl, rfl, hd, he⟩ := hds.two hlength
    refine (same_refines hs hd he).bind_ok fun s₁ ν₁ _ _ hs₁ heq => ?_
    cases heq
    exact .pure hs₁ rfl
  · obtain ⟨d, e, m, n, rfl, rfl, hd, he⟩ := hds.two hlength
    refine (equal_refines hs hd he).bind_ok fun s₁ ν₁ _ _ hs₁ heq => ?_
    cases heq
    exact .pure hs₁ (atom_denotes s₁ ν₁ _)
  · obtain ⟨d, n, rfl, rfl, hd⟩ := hds.one hlength
    refine (jam_refines hs hd (hns n List.mem_cons_self)).bind_ok fun s₁ ν₁ _ _ hs₁ heq => ?_
    cases heq
    exact .pure hs₁ rfl
  · obtain ⟨d, n, rfl, rfl, hd⟩ := hds.one hlength
    exact (copy_refines hs hd).value
  · obtain ⟨d, e, m, n, rfl, rfl, hd, he⟩ := hds.two hlength
    exact (slotAt_refines bound hs hd he).value
  · obtain ⟨d, e, f, m, n, k, rfl, rfl, hd, he, hf⟩ := hds.three hlength
    exact (editAt_refines bound hs hd he hf).value
  · obtain ⟨d, e, m, n, rfl, rfl, hd, he⟩ := hds.two hlength
    exact (nock_refines bound hs hd he).value

/-- A comparison says whether the nouns are equal. -/
lemma performEqual_refines (bound : Nat) (hs : s.Fits ν) (hd : s.Denotes ν d m)
    (he : s.Denotes ν e n) :
    Refines s ν (Session.perform bound .equal [d, e]) (.ok (m == n))
      (fun _ _ result b => result = .flag b) := by
  refine (same_refines hs hd he).bind_ok fun s₁ ν₁ _ _ hs₁ heq => ?_
  cases heq
  exact .pure hs₁ rfl

lemma flagNumber_natural (b : Bool) : (Noun.atom (flagNumber b)).Natural := by
  cases b <;> decide

lemma truth_natural (b : Bool) : (truth (Except Fault) b : Noun).Natural := by
  cases b <;> decide

lemma Mug.residue_natural {k : Int} (hk : 0 ≤ k) : 0 ≤ residue k := by
  have hsign : ¬ k < 0 := by omega
  simp only [residue, hsign, if_false, avoidMinusOne]
  rw [if_neg (by omega)]
  exact Int.natCast_nonneg _

lemma onNouns_natural {bound : Nat} {action : Action} {ns : List Noun} {r : Noun}
    (hns : ∀ n ∈ ns, n.Natural) (h : action.onNouns bound ns = .ok r) : r.Natural := by
  unfold Action.onNouns at h
  split at h
  · cases h
    exact ⟨hns _ (by simp), hns _ (by simp)⟩
  · cases h
    exact Mug.residue_natural (hns _ (by simp) : (Noun.atom _).Natural)
  · obtain ⟨k, hk, hr⟩ := bind_eq_ok.mp h
    cases hr
    exact (Noun.mug_range hk).1
  · cases h
    exact flagNumber_natural _
  · cases h
    exact truth_natural _
  · cases h
    exact Int.natCast_nonneg _
  · cases h
    exact hns _ (by simp)
  · rename_i axis n
    cases axis with
    | atom x => exact .of_slot (slot_of_ok bound h) (hns _ (by simp))
    | cell _ _ => cases h
  · rename_i axis part n
    cases axis with
    | atom x => exact .of_edit (edit_of_ok bound h) (hns _ (by simp)) (hns _ (by simp))
    | cell _ _ => cases h
  · exact .of_reduces (reduces_of_nock bound h) (hns _ (by simp)) (hns _ (by simp))
  · cases h

/-! ## Steps and sessions -/

section

variable {bound : Nat} {step : Step} {s' : Store}

/-- A step that gives a result leaves its datum. -/
lemma step_ok {result : Result}
    (h : exec (Session.execute bound σ.results step) σ.store = (.ok result, s')) :
    σ.step bound step = (.ok result, ⟨s', σ.results.push result.datum⟩) := by
  rw [exec] at h
  rw [Session.step, h]

/-- A step that fails leaves nothing, but what it changed stays changed. -/
lemma step_error {fault : Fault}
    (h : exec (Session.execute bound σ.results step) σ.store = (.error fault, s')) :
    σ.step bound step = (.error fault, ⟨s', σ.results.push .nothing⟩) := by
  rw [exec] at h
  rw [Session.step, h]

end

lemma exists_nouns : ∀ {xs : List Operand}, (∀ x ∈ xs, (x.noun? σ).isSome = true) →
    ∃ ns, List.Forall₂ (fun x n => x.noun? σ = some n) xs ns
  | [], _ => ⟨[], .nil⟩
  | x :: xs, h => by
      obtain ⟨n, hn⟩ := Option.isSome_iff_exists.mp (h x List.mem_cons_self)
      obtain ⟨ns, hns⟩ := exists_nouns fun y hy => h y (List.mem_cons_of_mem _ hy)
      exact ⟨n :: ns, .cons hn hns⟩

lemma Session.Keeps.natural_all (hσ : σ.Keeps ν) {xs : List Operand} {ns : List Noun}
    (h : List.Forall₂ (fun x n => x.noun? σ = some n) xs ns)
    (hxs : ∀ x ∈ xs, x.isNatural = true) : ∀ n ∈ ns, n.Natural := by
  intro n hn
  induction h with
  | nil => cases hn
  | cons hx _ ih =>
      rcases List.mem_cons.mp hn with rfl | hn
      · exact hσ.natural hx (hxs _ List.mem_cons_self)
      · exact ih (fun y hy => hxs y (List.mem_cons_of_mem _ hy)) hn

/-- A call executes as it does on plain nouns. -/
lemma execute_refines (bound : Nat) (hσ : σ.Keeps ν) {step : Step} (hstep : σ.Admits step)
    {ns : List Noun} (hns : List.Forall₂ (fun x n => x.noun? σ = some n) step.operands ns) :
    Refines σ.store ν (Session.execute bound σ.results step) (step.action.onNouns bound ns) Gives := by
  rw [Session.execute]
  refine (loadAll_refines hσ (.refl _ _) hσ.fits hns).bind_ok fun s₁ ν₁ ds h₁ hs₁ hds => ?_
  have hcall : (step.action, ds.length) ∈ Session.calls := by
    rw [hds.length_eq, ← hns.length_eq]
    exact hstep.1
  exact perform_refines bound hcall hs₁ hds (hσ.natural_all hns fun x hx => (hstep.2 x hx).1)

/-- A call leads to a later moment of the same kind. -/
lemma Session.Keeps.step (hσ : σ.Keeps ν) (bound : Nat) {step : Step} (hstep : σ.Admits step) :
    ∃ ν', σ.store.Extends ν (σ.step bound step).2.store ν' ∧ (σ.step bound step).2.Keeps ν' := by
  obtain ⟨ns, hns⟩ := exists_nouns fun x hx => (hstep.2 x hx).2
  obtain ⟨ν', hlater, hs', hmatch⟩ := execute_refines bound hσ hstep hns
  rcases hrun : exec (Session.execute bound σ.results step) σ.store with ⟨outcome, s'⟩
  rw [hrun] at hlater hs' hmatch
  have hold : ∀ d ∈ σ.results, d = .nothing ∨ ∃ n, s'.Denotes ν' d n ∧ n.Natural := fun d hd =>
    (hσ.results d hd).imp_right fun ⟨n, hn, hnat⟩ => ⟨n, hn.later hlater, hnat⟩
  refine ⟨ν', ?_⟩
  cases houtcome : outcome with
  | error fault =>
      rw [houtcome] at hrun
      rw [step_error hrun]
      refine ⟨hlater, hs', fun d hd => ?_⟩
      rcases Array.mem_push.mp hd with hd | rfl
      · exact hold d hd
      · exact Or.inl rfl
  | ok result =>
      rw [houtcome] at hrun hmatch
      rw [step_ok hrun]
      refine ⟨hlater, hs', fun d hd => ?_⟩
      rcases Array.mem_push.mp hd with hd | rfl
      · exact hold d hd
      · generalize hy : step.action.onNouns bound ns = y at hmatch
        cases hmatch with
        | ok hgives =>
            exact Or.inr ⟨_, hgives, onNouns_natural
              (hσ.natural_all hns fun x hx => (hstep.2 x hx).1) hy⟩

/-- A whole session leads to a later moment of the same kind. -/
lemma Session.Keeps.run : ∀ {steps : List (Nat × Step)} {σ : Session} {ν : Reading}, σ.Keeps ν →
    σ.Admissible steps → ∃ ν', σ.store.Extends ν (σ.run steps).store ν' ∧ (σ.run steps).Keeps ν'
  | [], σ, ν, hσ, _ => ⟨ν, .refl _ _, hσ⟩
  | (bound, step) :: rest, σ, ν, hσ, hsteps => by
      obtain ⟨ν₁, hlater, hkeeps⟩ := hσ.step bound hsteps.1
      obtain ⟨ν₂, hlater', hkeeps'⟩ := hkeeps.run hsteps.2
      exact ⟨ν₂, hlater.trans hlater', hkeeps'⟩

lemma Session.Keeps.empty (ν : Reading) : Session.Keeps {} ν :=
  ⟨fun c cell hget => by simp at hget, fun d hd => by simp at hd⟩

/-- A call answers what it answers on plain nouns. -/
lemma Session.Keeps.step_answer (hσ : σ.Keeps ν) (bound : Nat) {step : Step}
    (hstep : σ.Admits step) {ns : List Noun}
    (hns : List.Forall₂ (fun x n => x.noun? σ = some n) step.operands ns) :
    (σ.step bound step).1.map (fun result => (σ.step bound step).2.store.noun? result.datum) =
      (step.action.onNouns bound ns).map some := by
  obtain ⟨ν', _, hs', hmatch⟩ := execute_refines bound hσ hstep hns
  rcases hrun : exec (Session.execute bound σ.results step) σ.store with ⟨outcome, s'⟩
  rw [hrun] at hs' hmatch
  generalize step.action.onNouns bound ns = plain at hmatch ⊢
  cases hmatch with
  | error fault =>
      rw [step_error hrun]
      rfl
  | ok hgives =>
      rw [step_ok hrun]
      exact congrArg Except.ok (hs'.noun?_eq hgives)

/-- A comparison of operands says whether they stand for the same noun. -/
lemma Session.Keeps.step_equal (hσ : σ.Keeps ν) (bound : Nat) {a b : Operand} {m n : Noun}
    (ha : a.noun? σ = some m) (hb : b.noun? σ = some n) :
    (σ.step bound ⟨.equal, [a, b]⟩).1 = .ok (.flag (decide (m = n))) := by
  have hexecute : Refines σ.store ν (Session.execute bound σ.results ⟨.equal, [a, b]⟩)
      (.ok (m == n)) (fun _ _ result b => result = .flag b) := by
    rw [Session.execute]
    refine (loadAll_refines hσ (.refl _ _) hσ.fits (.cons ha (.cons hb .nil))).bind_ok
      fun s₁ ν₁ ds _ hs₁ hds => ?_
    obtain ⟨d, e, _, _, rfl, hns, hd, he⟩ := hds.two hds.length_eq
    cases hns
    exact performEqual_refines bound hs₁ hd he
  obtain ⟨_, _, _, hmatch⟩ := hexecute
  rcases hrun : exec (Session.execute bound σ.results ⟨.equal, [a, b]⟩) σ.store with ⟨outcome, s'⟩
  rw [hrun] at hmatch
  cases hmatch with
  | ok hresult =>
      rw [step_ok hrun, hresult]
      rfl

/-- **Sessions keep what their cells denote.**  Take any session of calls on natural nouns, and any
moment in it.  Every cell that is there at that moment denotes a noun, and denotes it at every later
moment.  At the later moment no cell lies inside itself, every remembered mug is the mug of the noun
that its cell denotes, a comparison answers yes exactly if its operands denote equal nouns, and in
general a call answers what it answers on plain nouns. -/
theorem session_keeps_denotations (before after : List (Nat × Step))
    (h : Session.Admissible {} (before ++ after)) :
    let σ := Session.run {} before
    let τ := σ.run after
    (∀ c < σ.store.cells.size, ∃ n, σ.store.noun? (.cell c) = some n ∧
      τ.store.noun? (.cell c) = some n) ∧
    τ.store.Acyclic ∧
    (∀ c cell, τ.store.cells[c]? = some cell → cell.mug = 0 ∨
      ∃ n, τ.store.noun? (.cell c) = some n ∧ n.mug = .ok cell.mug) ∧
    (∀ bound a b m n, a.noun? τ = some m → b.noun? τ = some n →
      (τ.step bound ⟨.equal, [a, b]⟩).1 = .ok (.flag (decide (m = n)))) ∧
    (∀ bound step ns, τ.Admits step →
      List.Forall₂ (fun x n => x.noun? τ = some n) step.operands ns →
        (τ.step bound step).1.map (fun result => (τ.step bound step).2.store.noun? result.datum) =
          (step.action.onNouns bound ns).map some) := by
  intro σ τ
  obtain ⟨hbefore, hafter⟩ := (Session.admissible_append {} before after).mp h
  obtain ⟨ν, -, hσ⟩ := (Session.Keeps.empty fun _ => .atom 0).run hbefore
  obtain ⟨ν', hlater, hτ⟩ := hσ.run hafter
  refine ⟨fun c hc => ?_, hτ.fits.acyclic, fun c cell hget => ?_, fun bound a b m n ha hb => ?_,
    fun bound step ns hstep hns => ?_⟩
  · have hdenotes : σ.store.Denotes ν (.cell c) (ν c) := ⟨hc, rfl⟩
    exact ⟨ν c, hσ.fits.noun?_eq hdenotes, hτ.fits.noun?_eq (hdenotes.later hlater)⟩
  · obtain ⟨h, t, hν, hcell⟩ := hτ.fits c cell hget
    have hc : c < τ.store.cells.size := (Array.getElem?_eq_some_iff.mp hget).1
    exact hcell.mug.imp_right fun hmug => ⟨.cell h t, hτ.fits.noun?_eq ⟨hc, hν.symm⟩, hmug⟩
  · exact hτ.step_equal bound ha hb
  · exact hτ.step_answer bound hstep hns

/-- The noun `[1 2 3]`. -/
def triple : Noun :=
  .cell (.atom 1) (.cell (.atom 2) (.atom 3))

/-- Make two cells of `triple` and a cell of both, and hash the first. -/
def makeTriples : List (Nat × Step) :=
  let make : Step := ⟨.makeCell, [.atom 1, .cell (.atom 2) (.atom 3)]⟩
  [(1, make), (1, make), (1, ⟨.makeCell, [.result 0, .result 1]⟩),
    (1, ⟨.rememberedMug, [.result 0]⟩)]

/-- Compare the two, which gives the second one the mug and the parts of the first, then serialise
and evaluate the cell of both. -/
def useTriples : List (Nat × Step) :=
  [(1, ⟨.equal, [.result 0, .result 1]⟩), (1, ⟨.jam, [.result 2]⟩),
    (9, ⟨.nock, [.result 2, .cell (.atom 5)
      (.cell (.cell (.atom 0) (.atom 2)) (.cell (.atom 0) (.atom 3)))]⟩)]

theorem session_keeps_denotations_triples :
    let σ := Session.run {} makeTriples
    let τ := σ.run useTriples
    Session.Admissible {} (makeTriples ++ useTriples) ∧ σ.store.cells.size = 5 ∧
    (∀ c < σ.store.cells.size, ∃ n, σ.store.noun? (.cell c) = some n ∧
      τ.store.noun? (.cell c) = some n) ∧
    τ.store.Acyclic ∧
    (τ.step 1 ⟨.equal, [.result 1, .result 0]⟩).1 = .ok (.flag true) ∧
    (τ.step 1 ⟨.equal, [.result 1, .result 2]⟩).1 = .ok (.flag false) := by
  intro σ τ
  have hadmissible : Session.Admissible {} (makeTriples ++ useTriples) := by decide +kernel
  obtain ⟨hkeeps, hacyclic, -, hequal, -⟩ :=
    session_keeps_denotations makeTriples useTriples hadmissible
  refine ⟨hadmissible, by decide +kernel, hkeeps, hacyclic, ?_, ?_⟩
  · exact hequal 1 (.result 1) (.result 0) triple triple (by decide +kernel) (by decide +kernel)
  · exact hequal 1 (.result 1) (.result 2) triple (.cell triple triple) (by decide +kernel)
      (by decide +kernel)

end Nock
