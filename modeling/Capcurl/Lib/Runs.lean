import Mathlib.Data.List.Induction

/-! # Runs of stateful code -/

namespace Capcurl.Lib

variable {ε σ α β : Type}

def result : EStateM.Result ε σ α → Except ε α
  | .ok a _ => .ok a
  | .error e _ => .error e

def finalState : EStateM.Result ε σ α → σ
  | .ok _ s => s
  | .error _ s => s

theorem run_of_result (r : EStateM.Result ε σ α) (a : α) (s : σ) (hr : result r = .ok a)
    (hs : finalState r = s) : r = .ok a s := by
  subst hs
  cases r with
  | ok b s' =>
    rw [← Except.ok.inj hr]
    rfl
  | error e s' => cases hr

theorem run_bind_ok (m : EStateM ε σ α) (f : α → EStateM ε σ β) (s s' : σ) (a : α)
    (h : m s = .ok a s') : (m >>= f) s = f a s' := by
  simp only [bind, EStateM.bind, h]

theorem run_bind_error (m : EStateM ε σ α) (f : α → EStateM ε σ β) (s s' : σ) (e : ε)
    (h : m s = .error e s') : (m >>= f) s = .error e s' := by
  simp only [bind, EStateM.bind, h]

theorem result_map (m : EStateM ε σ α) (g : α → β) (s : σ) :
    result ((m >>= fun a => pure (g a)) s) = (result (m s)).map g := by
  cases hrun : m s with
  | ok a s' =>
    rw [run_bind_ok _ _ _ _ _ hrun]
    rfl
  | error e s' =>
    rw [run_bind_error _ _ _ _ _ hrun]
    rfl

/-! ## Steps folded over a list -/

theorem foldl_snoc (step : σ → α → σ) (s : σ) (steps : List α) (a : α) :
    (steps ++ [a]).foldl step s = step (steps.foldl step s) a := by
  rw [List.foldl_append]
  rfl

theorem foldl_frame (step : σ → α → σ) (read : σ → β)
    (hlocal : ∀ s s' a, read s = read s' → read (step s a) = read (step s' a))
    (a : α) (hkeeps : ∀ s, read (step s a) = read s) (before after : List α) (s : σ) :
    read ((before ++ a :: after).foldl step s) = read ((before ++ after).foldl step s) := by
  induction after using List.reverseRecOn with
  | nil =>
    rw [foldl_snoc, List.append_nil]
    exact hkeeps _
  | append_singleton after b ih =>
    rw [← List.cons_append, ← List.append_assoc, ← List.append_assoc, foldl_snoc, foldl_snoc]
    exact hlocal _ _ b ih

/-! ## Code that does not look at a part of its state -/

def mapState (f : σ → σ) : EStateM.Result ε σ α → EStateM.Result ε σ α
  | .ok a s => .ok a (f s)
  | .error e s => .error e (f s)

/-- The code does the same whether or not `f` changes the state before it. -/
def Blind (f : σ → σ) (m : EStateM ε σ α) : Prop := ∀ s, m (f s) = mapState f (m s)

variable {f : σ → σ}

theorem blind_pure (a : α) : Blind f (pure a : EStateM ε σ α) := fun _ => rfl

theorem blind_throw (e : ε) : Blind f (throw e : EStateM ε σ α) := fun _ => rfl

theorem blind_bind (m : EStateM ε σ α) (g : α → EStateM ε σ β) (hm : Blind f m)
    (hg : ∀ a, Blind f (g a)) : Blind f (m >>= g) := by
  intro s
  have hs := hm s
  cases hrun : m s with
  | ok a s' =>
    rw [hrun] at hs
    rw [run_bind_ok m g (f s) (f s') a hs, run_bind_ok m g s s' a hrun]
    exact hg a s'
  | error e s' =>
    rw [hrun] at hs
    rw [run_bind_error m g (f s) (f s') e hs, run_bind_error m g s s' e hrun]
    rfl

end Capcurl.Lib
