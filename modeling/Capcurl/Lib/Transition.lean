import Mathlib.Data.List.Basic
import Mathlib.Data.Prod.Lex
import Mathlib.Logic.Hydra
import Mathlib.Order.WellFounded

/-!
# Transition systems: runs, invariants, termination

A run is kept with the steps it takes, so that a result can ask something of each of them.
-/

namespace Capcurl.Lib

variable {σ : Type} (step : σ → σ → Prop)

/-- A run between two states. A step is the state before it and the state after it. -/
inductive Path (s : σ) : List (σ × σ) → σ → Prop where
  | nil : Path s [] s
  | snoc {t u : σ} {steps : List (σ × σ)} : Path s steps t → step t u → Path s (steps ++ [(t, u)]) u

/-- No step leads on. -/
def Stuck (s : σ) : Prop := ∀ t, ¬ step s t

variable {step}

theorem path_invariant (Inv : σ → Prop) (Good : σ → σ → Prop)
    (hstep : ∀ t u, Inv t → step t u → Good t u → Inv u) {s t : σ} {steps : List (σ × σ)}
    (hpath : Path step s steps t) (hgood : ∀ p ∈ steps, Good p.1 p.2) (hinv : Inv s) : Inv t := by
  induction hpath with
  | nil => exact hinv
  | @snoc t u steps _ hlast ih =>
    have ht := ih fun p hp => hgood p (List.mem_append_left _ hp)
    exact hstep t u ht hlast (hgood (t, u) (List.mem_append_right _ (List.mem_singleton_self _)))

theorem path_preserves (Inv : σ → Prop) (hstep : ∀ t u, Inv t → step t u → Inv u) {s t : σ}
    {steps : List (σ × σ)} (hpath : Path step s steps t) (hinv : Inv s) : Inv t :=
  path_invariant Inv (fun _ _ => True) (fun t u ht hlast _ => hstep t u ht hlast) hpath
    (fun _ _ => trivial) hinv

theorem path_append {s t u : σ} {before after : List (σ × σ)} (hbefore : Path step s before t)
    (hafter : Path step t after u) : Path step s (before ++ after) u := by
  induction hafter with
  | nil => rwa [List.append_nil]
  | snoc _ hlast ih =>
    rw [← List.append_assoc]
    exact .snoc ih hlast

theorem path_mono {step' : σ → σ → Prop} (hsub : ∀ s t, step' s t → step s t) {s t : σ}
    {steps : List (σ × σ)} (hpath : Path step' s steps t) : Path step s steps t := by
  induction hpath with
  | nil => exact .nil
  | snoc _ hlast ih => exact .snoc ih (hsub _ _ hlast)

theorem path_single {s t : σ} (h : step s t) : Path step s [(s, t)] t := .snoc .nil h

theorem path_split {s t : σ} {steps : List (σ × σ)} (hpath : Path step s steps t) (p : σ × σ)
    (hp : p ∈ steps) :
    ∃ before after, Path step s before p.1 ∧ step p.1 p.2 ∧ Path step p.2 after t ∧
      before ⊆ steps ∧ after ⊆ steps := by
  induction hpath with
  | nil => simp at hp
  | @snoc t u steps hfirst hlast ih =>
    rcases List.mem_append.mp hp with hp | hp
    · obtain ⟨before, after, hbefore, hstep, hafter, hsub, hsub'⟩ := ih hp
      refine ⟨before, after ++ [(t, u)], hbefore, hstep, .snoc hafter hlast, ?_, ?_⟩
      · exact List.subset_append_of_subset_left _ hsub
      · exact List.append_subset.mpr ⟨List.subset_append_of_subset_left _ hsub',
          List.subset_append_right _ _⟩
    · rw [List.mem_singleton.mp hp]
      exact ⟨steps, [], hfirst, hlast, .nil, List.subset_append_left _ _, List.nil_subset _⟩

section Termination

theorem terminates_lex (μ : σ → ℕ) (inner : σ → σ → Prop) (hinner : WellFounded fun t s => inner s t)
    (hμ : ∀ s t, step s t → μ t < μ s ∨ μ t = μ s ∧ inner s t) : WellFounded fun t s => step s t := by
  have hwf : WellFounded (Prod.Lex (· < ·) (fun t s => inner s t) : ℕ × σ → ℕ × σ → Prop) :=
    WellFounded.prod_lex Nat.lt_wfRel.wf hinner
  refine Subrelation.wf ?_ (InvImage.wf (fun s => (μ s, s)) hwf)
  intro t s hstep
  rw [InvImage, Prod.lex_def]
  exact hμ s t hstep

theorem no_infinite_run_of (hwf : WellFounded fun t s => step s t) :
    ¬ ∃ f : ℕ → σ, ∀ n, step (f n) (f (n + 1)) := by
  rintro ⟨f, hf⟩
  exact (wellFounded_iff_isEmpty_descending_chain.mp hwf).false ⟨f, hf⟩

theorem exists_complete_of (hwf : WellFounded fun t s => step s t) (s : σ) :
    ∃ steps t, Path step s steps t ∧ Stuck step t := by
  induction s using hwf.induction with
  | _ s ih =>
    by_cases hstuck : Stuck step s
    · exact ⟨[], s, .nil, hstuck⟩
    · unfold Stuck at hstuck
      push Not at hstuck
      obtain ⟨t, hstep⟩ := hstuck
      obtain ⟨steps, u, hpath, hlast⟩ := ih t hstep
      exact ⟨[(s, t)] ++ steps, u, path_append (path_single hstep) hpath, hlast⟩

variable (μ : σ → ℕ × ℕ)
  (hμ : ∀ s t, step s t → (μ t).1 < (μ s).1 ∨ (μ t).1 = (μ s).1 ∧ (μ t).2 < (μ s).2)
include hμ

theorem terminates : WellFounded fun t s => step s t :=
  terminates_lex (fun s => (μ s).1) (fun s t => (μ t).2 < (μ s).2) (measure fun s => (μ s).2).wf hμ

theorem no_infinite_run : ¬ ∃ f : ℕ → σ, ∀ n, step (f n) (f (n + 1)) :=
  no_infinite_run_of (terminates μ hμ)

theorem exists_complete (s : σ) : ∃ steps t, Path step s steps t ∧ Stuck step t :=
  exists_complete_of (terminates μ hμ) s

end Termination

/-! ## Many systems side by side -/

/-- One of the systems takes a step, and the others stay where they are. -/
def OneSteps (step : σ → σ → Prop) (l l' : List σ) : Prop :=
  ∃ i s t, l[i]? = some s ∧ step s t ∧ l' = l.set i t

theorem oneSteps_terminates (hwf : WellFounded fun t s => step s t) :
    WellFounded fun l' l => OneSteps step l l' := by
  refine Subrelation.wf ?_ (InvImage.wf (fun l : List σ => (l : Multiset σ)) hwf.cutExpand)
  rintro l' l ⟨i, s, t, hs, hstep, rfl⟩
  obtain ⟨hi, rfl⟩ := List.getElem?_eq_some_iff.mp hs
  refine ⟨{t}, l[i], fun u hu => Multiset.mem_singleton.mp hu ▸ hstep, ?_⟩
  have hset : (l.set i t ++ [l[i]]).Perm (l ++ [t]) := by
    have hsplit : l.take i ++ l[i] :: l.drop (i + 1) = l := by simp
    have hbefore : (l.take i ++ l[i] :: l.drop (i + 1)).Perm (l[i] :: (l.take i ++ l.drop (i + 1))) :=
      List.perm_middle
    rw [hsplit] at hbefore
    rw [List.set_eq_take_append_cons_drop, if_pos hi]
    have hnew : (l.take i ++ t :: l.drop (i + 1)).Perm (t :: (l.take i ++ l.drop (i + 1))) :=
      List.perm_middle
    have hold : (t :: (l.take i ++ l.drop (i + 1)) ++ [l[i]]).Perm (t :: l) :=
      ((List.perm_append_singleton l[i] _).trans hbefore.symm).cons t
    exact ((hnew.append_right [l[i]]).trans hold).trans (List.perm_append_singleton t l).symm
  exact Multiset.coe_eq_coe.mpr hset

end Capcurl.Lib
