import Capcurl.Core.Daemon
import Capcurl.Spec.Head
import Capcurl.Target

/-! # What `resolve` has checked -/

namespace Capcurl.Resolve

open Lib Policy Capcurl.Core Spec

theorem canonicalize_token (method canonical : Text) (h : canonicalize method = some canonical) :
    Token canonical ∧ canonical = uppercase method := by
  unfold canonicalize at h
  split at h
  · cases h
  · rename_i hlen
    split at h
    · cases h
    · rename_i htoken
      have hcanonical := Option.some.inj h
      subst hcanonical
      simp only [Bool.or_eq_true, List.isEmpty_iff, not_or] at hlen
      simp only [Bool.not_eq_true', Bool.not_eq_false, List.all_eq_true] at htoken
      refine ⟨⟨by simp [uppercase, hlen.1], ?_⟩, rfl⟩
      simp only [uppercase, List.all_map, List.all_eq_true, Function.comp_apply, tchar_toUpper]
      exact htoken

/-- The pair that `resolve` returns comes from the effective request, which passed every check. -/
structure Approved (parseUrl : Text → Option Url) (grant : Grant) (effective : Text × Text)
    (method : Text) (url : Url) : Prop where
  canonical : canonicalize effective.1 = some method
  permitted : method ∈ grant.methods.methods
  target : ∃ normalized, normalizeTarget effective.2 grant.allowEncodedSeparators = .ok normalized ∧
    (normalized.query.isSome → grant.allowQuery = true) ∧
    (grant.scope = .exact → normalized.path = []) ∧ grant.join parseUrl normalized = .ok url

theorem resolve_approved (parseUrl : Text → Option Url) (grant : Grant) (m t method : Text) (url : Url)
    (h : grant.resolve parseUrl m t = .ok (method, url)) :
    Approved parseUrl grant (grant.effective m t) method url := by
  unfold Grant.resolve at h
  generalize grant.effective m t = effective at h ⊢
  obtain ⟨effMethod, effTarget⟩ := effective
  simp only at h
  cases hcanonical : canonicalize effMethod with
  | none => simp [hcanonical] at h
  | some canonical =>
    simp only [hcanonical, throw_bind_else_eq_ok, Bool.not_eq_true', Bool.not_eq_false, bind_eq_ok,
      mapError_eq_ok, Bool.and_eq_true, not_and, List.isEmpty_iff, pure_eq_ok,
      Prod.mk.injEq] at h
    obtain ⟨hpermitted, n, htarget, hquery, hscope, url', hjoin, rfl, rfl⟩ := h
    refine ⟨hcanonical, by simpa [MethodSet.contains] using hpermitted, n, htarget, ?_, ?_, hjoin⟩
    · simpa using hquery
    · simpa using hscope

theorem boundTargetOf_effective (grant : Grant) (m t : Text) :
    boundTargetOf grant t = (grant.effective m t).2 := by
  unfold boundTargetOf Grant.effective
  cases grant.fixed <;> rfl

theorem approved_target_graphic (parseUrl : Text → Option Url) (grant : Grant) (effective : Text × Text)
    (method : Text) (url : Url) (h : Approved parseUrl grant effective method url) :
    effective.2 ≠ [] ∧ effective.2.all isGraphic = true := by
  obtain ⟨n, hn, -⟩ := h.target
  have haccepted := Target.normalizeTarget_accepted _ _ _ hn
  exact ⟨by rw [haccepted.parts]; simp, haccepted.graphic⟩

end Capcurl.Resolve
