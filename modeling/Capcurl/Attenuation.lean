import Capcurl.Authority
import Capcurl.Pinned
import Capcurl.TargetGrammar

/-! # Restricting a grant takes authority away -/

namespace Capcurl.Attenuation

open Lib Http Policy Capcurl.Core Resolve Pinned OneRequest Authority TargetGrammar Relay

/-! ## Narrower grants -/

/-- `narrow` lets through no more than `grant` does. -/
structure Narrower (narrow grant : Grant) : Prop where
  base : narrow.base = grant.base
  injections : narrow.injections = grant.injections
  methods : narrow.methods.methods ⊆ grant.methods.methods
  headers : ∀ name, narrow.headers.permits name = true → grant.headers.permits name = true
  fixed : grant.fixed = none ∨ narrow.fixed = grant.fixed
  query : narrow.allowQuery = true → grant.allowQuery = true
  separators : narrow.allowEncodedSeparators = true → grant.allowEncodedSeparators = true
  requestBody : narrow.maxRequestBody ≤ grant.maxRequestBody

theorem normalizeTarget_mono (target : Text) (allow allow' : Bool) (h : allow = true → allow' = true)
    (n : NormalizedTarget) (hn : normalizeTarget target allow = .ok n) :
    normalizeTarget target allow' = .ok n := by
  have htarget := isTarget_of_normalize target allow n hn
  refine normalize_of_isTarget target allow' n { htarget with children := fun s hs => ?_ }
  obtain ⟨hdot, hdotDot, hsep⟩ := htarget.children s hs
  refine ⟨hdot, hdotDot, fun hno => hsep ?_⟩
  cases allow with
  | false => rfl
  | true => rw [h rfl] at hno; cases hno

theorem join_base (parseUrl : Text → Option Url) (grant grant' : Grant) (h : grant.base = grant'.base)
    (normalized : NormalizedTarget) : grant.join parseUrl normalized = grant'.join parseUrl normalized := by
  unfold Grant.join
  rw [h]

theorem resolve_of_approved (parseUrl : Text → Option Url) (grant : Grant) (m t method : Text) (url : Url)
    (h : Approved parseUrl grant (grant.effective m t) method url) :
    grant.resolve parseUrl m t = .ok (method, url) := by
  obtain ⟨hcanonical, hpermitted, n, htarget, hquery, hexact, hjoin⟩ := h
  unfold Grant.resolve
  simp only [hcanonical, throw_bind_else_eq_ok, Bool.not_eq_true', Bool.not_eq_false, bind_eq_ok,
    mapError_eq_ok, Bool.and_eq_true, not_and, List.isEmpty_iff, pure_eq_ok, MethodSet.contains,
    decide_eq_true_eq]
  exact ⟨hpermitted, n, htarget, hquery, hexact, url, hjoin, rfl⟩

theorem framed_mono (limit limit' : UInt64) (h : limit ≤ limit') (framing : Framing) (taken body : Bytes)
    (hframed : Framed limit framing taken body) : Framed limit' framing taken body := by
  have hle : limit.toNat ≤ limit'.toNat := UInt64.le_iff_toNat_le.mp h
  cases framing with
  | none => exact hframed
  | length n => exact ⟨hframed.1, hframed.2.1, UInt64.le_trans hframed.2.2 h⟩
  | chunked =>
    obtain ⟨hencodes, hbody, hroom⟩ := hframed
    refine ⟨hencodes, Nat.le_trans hbody hle, Nat.le_trans hroom ?_⟩
    unfold rawBound saturatingAdd saturatingMul
    omega

theorem admitHeaders_mono (narrow grant : Grant) (hinjections : narrow.injections = grant.injections)
    (hheaders : ∀ name, narrow.headers.permits name = true → grant.headers.permits name = true)
    (client out admitted : List (Text × Text)) (h : client.foldlM narrow.admitHeader out = .ok admitted) :
    client.foldlM grant.admitHeader out = .ok admitted := by
  induction client generalizing out with
  | nil => exact h
  | cons field client ih =>
    rw [List.foldlM_cons, bind_eq_ok] at h ⊢
    obtain ⟨out', hfield, hrest⟩ := h
    refine ⟨out', ?_, ih out' hrest⟩
    simp only [Grant.admitHeader, hinjections] at hfield ⊢
    split at hfield
    · cases hfield
    · rename_i hnotInjected
      split at hfield
      · cases hfield
      · rename_i hpermits
        have hpermitted := hheaders _ (by simpa using hpermits)
        rw [if_neg hnotInjected, if_neg (by simp [hpermitted])]
        exact hfield

section Narrower

variable (parseUrl : Text → Option Url) (narrow grant : Grant) (hnarrow : Narrower narrow grant)
include hnarrow

theorem effective_narrower (method target : Text) :
    grant.effective (narrow.effective method target).1 (narrow.effective method target).2 =
      narrow.effective method target := by
  unfold Grant.effective
  rcases hnarrow.fixed with hnone | hsame
  · rw [hnone]
  · rw [hsame]
    cases grant.fixed <;> rfl

theorem scope_narrower : narrow.scope = grant.scope := by
  rw [narrow.scope_eq, grant.scope_eq, hnarrow.base]

theorem resolve_narrower (method target canonical : Text) (url : Url)
    (h : narrow.resolve parseUrl method target = .ok (canonical, url)) :
    grant.resolve parseUrl (narrow.effective method target).1 (narrow.effective method target).2 =
      .ok (canonical, url) := by
  obtain ⟨hcanonical, hpermitted, n, hn, hquery, hexact, hjoin⟩ := resolve_approved _ _ _ _ _ _ h
  apply resolve_of_approved
  rw [effective_narrower narrow grant hnarrow]
  rw [scope_narrower narrow grant hnarrow] at hexact
  rw [join_base parseUrl narrow grant hnarrow.base] at hjoin
  exact ⟨hcanonical, hnarrow.methods hpermitted, n, normalizeTarget_mono _ _ _ hnarrow.separators n hn,
    fun h => hnarrow.query (hquery h), hexact, hjoin⟩

theorem permits_narrower (call : FetchCall) (h : Permits parseUrl narrow call) :
    Permits parseUrl grant call := by
  obtain ⟨method, target, text, taken, head, hresolve, hwhole, hlen, hmethod, htarget, hheaders⟩ := h
  refine ⟨_, _, text, taken, head, resolve_narrower parseUrl narrow grant hnarrow _ _ _ _ hresolve,
    ⟨hwhole.parses, hwhole.ends, framed_mono _ _ hnarrow.requestBody _ _ _ hwhole.framed⟩, hlen, hmethod,
    ?_, ?_⟩
  · rw [htarget, boundTargetOf_effective, boundTargetOf_effective, effective_narrower narrow grant hnarrow]
  · unfold Grant.applyHeaders at hheaders ⊢
    rw [bind_eq_ok] at hheaders ⊢
    obtain ⟨out, hout, hdone⟩ := hheaders
    rw [hnarrow.injections] at hdone
    exact ⟨out, admitHeaders_mono narrow grant hnarrow.injections hnarrow.headers _ _ _ hout, hdone⟩

end Narrower

/-! ## Builder calls that restrict -/

/-- The call takes something away from the grant, or leaves it as it is. -/
def Restricts (grant : Grant) : BuilderCall → Prop
  | .methods methods => methods.methods ⊆ grant.methods.methods
  | .injection _ => False
  | .headerPolicy policy => ∀ name, policy.permits name = true → grant.headers.permits name = true
  | .fixedRequest fixed =>
    grant.fixed = none ∧ ∀ method, canonicalize fixed.method = some method → method ∈ grant.methods.methods
  | .queryAllowed allow => allow = true → grant.allowQuery = true
  | .encodedSeparators allow => allow = true → grant.allowEncodedSeparators = true
  | .bodyLimits request _ => request ≤ grant.maxRequestBody

/-- Each call restricts the grant that the calls before it have made. -/
def AllRestrict (grant : Grant) : List BuilderCall → Prop
  | [] => True
  | call :: calls => Restricts grant call ∧ AllRestrict (applyCall grant call) calls

theorem narrower_of_restricts (grant : Grant) (call : BuilderCall) (h : Restricts grant call) :
    Narrower (applyCall grant call) grant := by
  have hrefl : Narrower grant grant :=
    ⟨rfl, rfl, Finset.Subset.refl _, fun _ => id, .inr rfl, id, id, UInt64.le_refl _⟩
  cases call with
  | methods methods => exact { hrefl with methods := h }
  | injection injection => exact h.elim
  | headerPolicy policy => exact { hrefl with headers := h }
  | fixedRequest fixed =>
    refine { hrefl with methods := ?_, fixed := .inl h.1 }
    cases hcanonical : canonicalize fixed.method with
    | none =>
      have hsame : (grant.withFixedRequest fixed).methods = grant.methods := by
        simp only [Grant.withFixedRequest, hcanonical]
      exact hsame ▸ Finset.Subset.refl _
    | some canonical =>
      have hone := withFixedRequest_methods grant fixed canonical hcanonical
      simp only [applyCall, hone, Finset.singleton_subset_iff]
      exact h.2 canonical hcanonical
  | queryAllowed allow => exact { hrefl with query := h }
  | encodedSeparators allow => exact { hrefl with separators := h }
  | bodyLimits request response => exact { hrefl with requestBody := h }

theorem permits_build (parseUrl : Text → Option Url) (grant : Grant) (calls : List BuilderCall)
    (hcalls : AllRestrict grant calls) (call : FetchCall) (h : Permits parseUrl (build grant calls) call) :
    Permits parseUrl grant call := by
  induction calls generalizing grant with
  | nil => exact h
  | cons c calls ih =>
    exact permits_narrower parseUrl _ grant (narrower_of_restricts grant c hcalls.1) call
      (ih (applyCall grant c) hcalls.2 h)

/-- **Attenuation**: after builder calls that each restrict the grant, in any order, an endpoint makes no
call of the origin that it did not make before them, whatever its clients do. -/
theorem restricted_calls_less (config : Config) (calls : List BuilderCall)
    (hcalls : AllRestrict config.grant calls) (call : FetchCall)
    (h : CanCall { config with grant := build config.grant calls } call) : CanCall config call :=
  canCall_of_permits config call
    (permits_build config.parseUrl config.grant calls hcalls call (permits_of_canCall _ call h))

def restrictions : List BuilderCall :=
  [.queryAllowed false, .methods ⟨{ascii "GET"}⟩, .encodedSeparators false,
    .fixedRequest ⟨ascii "get", ascii "/x"⟩, .bodyLimits 0 0]

theorem restricted_calls_less_pinned : CanCall (configFor (answerWith plainName (ascii "v"))) bareCall := by
  have hcalls : AllRestrict Join.grantBelow restrictions := by
    have hmethods : ({ascii "GET"} : Finset Text) ⊆ MethodSet.safeDefault.methods := by decide
    have hbody : (0 : UInt64) ≤ defaultMaxBody := by decide
    refine ⟨nofun, hmethods, nofun, ⟨rfl, ?_⟩, hbody, trivial⟩
    intro method hmethod
    have hget : canonicalize (ascii "get") = some (ascii "GET") := by decide
    rw [Option.some.inj (hmethod.symm.trans hget)]
    exact Finset.mem_singleton_self _
  have hphysical : Physical bareWorld := by
    refine ⟨fun r hr => ?_, by decide⟩
    rw [List.mem_singleton.mp hr]
    decide
  have hcalled : (finalState (serveConnection
      { configFor (answerWith plainName (ascii "v")) with grant := build Join.grantBelow restrictions }
      bareWorld)).fetches = [bareCall] := by
    decide +kernel
  exact restricted_calls_less _ restrictions hcalls bareCall ⟨bareWorld, hphysical, hcalled⟩

end Capcurl.Attenuation
