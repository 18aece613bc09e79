import Nock.Store.Basic
import Mathlib.Tactic.Common

/-!
# Running effects

Stores and kernels change under effects that may fail, and what was changed before a failure stays
changed.  `exec` runs an effect and gives its outcome together with the state it leaves.  The
equations here say what each way to build effects does, so that proofs about effects go step by step
and never open the transformers they are made of.  `Keeps` says that an effect leaves a part of the
state alone, and is closed under the same ways.
-/

namespace Nock

variable {σ α β : Type}

/-- The outcome of an effect and the state that it leaves. -/
def exec (x : ExceptT Fault (StateM σ) α) (s : σ) : Except Fault α × σ :=
  x.run.run s

@[simp] lemma exec_pure (a : α) (s : σ) : exec (pure a) s = (.ok a, s) := rfl

@[simp] lemma exec_throw (e : Fault) (s : σ) :
    exec (throw e : ExceptT Fault (StateM σ) α) s = (.error e, s) := rfl

@[simp] lemma exec_get (s : σ) : exec (get : ExceptT Fault (StateM σ) σ) s = (.ok s, s) := rfl

@[simp] lemma exec_modify (f : σ → σ) (s : σ) :
    exec (modify f : ExceptT Fault (StateM σ) PUnit) s = (.ok ⟨⟩, f s) := rfl

@[simp] lemma exec_modifyGet (f : σ → α × σ) (s : σ) :
    exec (modifyGet f : ExceptT Fault (StateM σ) α) s = (.ok (f s).1, (f s).2) := rfl

@[simp] lemma exec_lift (x : StateM σ α) (s : σ) :
    exec (x : ExceptT Fault (StateM σ) α) s = (.ok (x.run s).1, (x.run s).2) := rfl

@[simp] lemma exec_ofExcept (x : Except Fault α) (s : σ) :
    exec (MonadExcept.ofExcept x : ExceptT Fault (StateM σ) α) s = (x, s) := by
  cases x <;> rfl

lemma exec_bind (x : ExceptT Fault (StateM σ) α) (f : α → ExceptT Fault (StateM σ) β) (s : σ) :
    exec (x >>= f) s
      = match exec x s with
        | (.ok a, s') => exec (f a) s'
        | (.error e, s') => (.error e, s') := by
  simp only [exec, ExceptT.run_bind, StateT.run_bind]
  rcases h : StateT.run (ExceptT.run x) s with ⟨outcome, s'⟩
  cases outcome <;> rfl

@[simp] lemma exec_map (f : α → β) (x : ExceptT Fault (StateM σ) α) (s : σ) :
    exec (f <$> x) s = ((exec x s).1.map f, (exec x s).2) := by
  rw [map_eq_pure_bind, exec_bind]
  rcases exec x s with ⟨outcome, s'⟩
  cases outcome <;> rfl

variable {x : ExceptT Fault (StateM σ) α} {f : α → ExceptT Fault (StateM σ) β} {s s' : σ}

/-- An effect that gives a value goes on with it. -/
lemma exec_bind_ok {a : α} (h : exec x s = (.ok a, s')) : exec (x >>= f) s = exec (f a) s' := by
  rw [exec_bind, h]

/-- An effect that fails ends there. -/
lemma exec_bind_error {e : Fault} (h : exec x s = (.error e, s')) :
    exec (x >>= f) s = (.error e, s') := by
  rw [exec_bind, h]

/-! ## What effects leave alone -/

/-- The effect leaves alone what `part` gives of a state, also if it fails. -/
def Keeps {γ : Type} (part : σ → γ) (x : ExceptT Fault (StateM σ) α) : Prop :=
  ∀ s, part (exec x s).2 = part s

namespace Keeps

variable {γ : Type} {part : σ → γ}

lemma pure (a : α) : Keeps part (pure a) := by
  intro s
  rfl

lemma throw (e : Fault) : Keeps part (throw e : ExceptT Fault (StateM σ) α) := by
  intro s
  rfl

lemma get : Keeps part (get : ExceptT Fault (StateM σ) σ) := by
  intro s
  rfl

lemma ofExcept (x : Except Fault α) :
    Keeps part (MonadExcept.ofExcept x : ExceptT Fault (StateM σ) α) := by
  intro s
  rw [exec_ofExcept]

lemma modify {f : σ → σ} (h : ∀ s, part (f s) = part s) :
    Keeps part (modify f : ExceptT Fault (StateM σ) PUnit) := by
  intro s
  exact h s

lemma modifyGet {f : σ → α × σ} (h : ∀ s, part (f s).2 = part s) :
    Keeps part (modifyGet f : ExceptT Fault (StateM σ) α) := by
  intro s
  exact h s

lemma bind (hx : Keeps part x) (hf : ∀ a, Keeps part (f a)) : Keeps part (x >>= f) := by
  intro s
  have hkept := hx s
  rcases hrun : exec x s with ⟨outcome, s'⟩
  rw [hrun] at hkept
  rw [exec_bind, hrun]
  cases outcome with
  | error e => exact hkept
  | ok a => exact (hf a s').trans hkept

end Keeps

/-! ## Stores -/

namespace StoreM

@[simp] lemma exec_newCell (head tail : Datum) (mug : Int) (s : Store) :
    exec (newCell head tail mug) s
      = (.ok (.cell (s.push head tail mug).2), (s.push head tail mug).1) := rfl

@[simp] lemma exec_cell? (c : CellId) (s : Store) : exec (cell? c) s = (.ok s.cells[c]?, s) := rfl

end StoreM

end Nock
