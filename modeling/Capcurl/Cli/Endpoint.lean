import Capcurl.Attenuation
import Capcurl.Cli.Grant
import Capcurl.Cli.Line
import Capcurl.OriginHeaders

/-! # From the daemon's command line to the origin -/

namespace Capcurl.Cli.Capcurld

open Lib Http Policy Capcurl.Core Resolve Pinned OneRequest Authority OriginHeaders TargetGrammar Relay

/-- The URL is the base, the path and the query of a target that the options allow, as parsed. -/
def UrlOf (parseUrl : Text → Option Url) (options : Options) (fixed : Option FixedRequest) (url : Url) :
    Prop :=
  ∃ text fresh target n, options.base = some text ∧ Grant.new parseUrl text = .ok fresh ∧
    IsTarget options.allowEncodedSeparators target n ∧ (∀ pin, fixed = some pin → target = pin.target) ∧
    (n.query.isSome = true → options.allowQuery = true) ∧
    (fresh.base.path.getLast? ≠ some (ch '/') → n.path = []) ∧
    parseUrl (fresh.base.scheme ++ ascii "://" ++ fresh.base.authority ++ fresh.base.path ++ n.path ++
      n.query.elim [] fun query => ascii "?" ++ query) = some url ∧
    url.scheme = fresh.base.scheme ∧ url.authority = fresh.base.authority ∧ fresh.base.path <+: url.path

/-- The headers are the client's own, which are permitted and none of them injected, and the injections. -/
def HeadersOf (readFile : Text → Option Text) (options : Options) (headers : List (Text × Text)) : Prop :=
  ∃ client injections policy, Injects readFile options injections ∧ PolicyOf options policy ∧
    headers = client ++ injections.map (fun i => (i.name, i.value)) ∧
    ∀ field ∈ client, policy.permits (lowercase field.1) = true ∧
      ∀ i ∈ injections, eqIgnoreCase i.name field.1 = false

theorem join_ok (parseUrl : Text → Option Url) (grant : Grant) (n : NormalizedTarget) (url : Url)
    (h : grant.join parseUrl n = .ok url) :
    parseUrl (grant.base.scheme ++ ascii "://" ++ grant.base.authority ++ grant.base.path ++ n.path ++
      n.query.elim [] fun query => ascii "?" ++ query) = some url ∧
    url.scheme = grant.base.scheme ∧ url.authority = grant.base.authority ∧ grant.base.path <+: url.path := by
  obtain ⟨path, query⟩ := n
  unfold Grant.join at h
  simp only at h
  split at h
  · cases h
  · rename_i parsed hparse
    simp only [throw_else_eq_ok, pure_eq_ok, not_or, ne_eq, not_not, Bool.not_eq_true', Bool.not_eq_false,
      List.isPrefixOf_iff_prefix] at h
    obtain ⟨⟨hscheme, hauthority, hprefix⟩, rfl⟩ := h
    refine ⟨?_, hscheme, hauthority, hprefix⟩
    cases query with
    | none => exact hparse
    | some query => exact hparse

theorem headers_of_apply (grant : Grant) (client headers : List Header)
    (h : grant.applyHeaders client = .ok headers) :
    headers = client ++ grant.injections.map (fun i => (i.name, i.value)) ∧
      ∀ field ∈ client, grant.headers.permits (lowercase field.1) = true ∧
        ∀ i ∈ grant.injections, eqIgnoreCase i.name field.1 = false := by
  rw [applyHeaders_eq] at h
  cases hfound : client.find? (offends grant) with
  | some field =>
    rw [hfound] at h
    cases h
  | none =>
    rw [hfound] at h
    refine ⟨(Except.ok.inj h).symm, fun field hfield => ?_⟩
    have hfine := List.find?_eq_none.mp hfound field hfield
    simp only [offends, Bool.or_eq_true, not_or, Bool.not_eq_true, Bool.not_eq_true',
      List.any_eq_false] at hfine
    obtain ⟨⟨hinjected, hdenied⟩, hadmitted⟩ := hfine
    refine ⟨?_, hinjected⟩
    rw [permits_eq, hdenied, Bool.not_false, Bool.true_and]
    exact Bool.of_not_eq_false hadmitted

theorem framed_length (limit : UInt64) (framing : Framing) (taken body : Bytes)
    (h : Framed limit framing taken body) : body.length ≤ limit.toNat := by
  cases framing with
  | none =>
    rw [h.2]
    exact Nat.zero_le _
  | length n =>
    rw [h.2.1]
    exact UInt64.le_iff_toNat_le.mp h.2.2
  | chunked => exact h.2.1

/-- **From the command line to the origin**: whatever clients do, and whatever the origin answers, the
calls that an endpoint makes are those that its command line speaks of. Their method is the pinned one, or
a listed one; their URL is the base with an allowed target; their headers are permitted ones of the client,
and the injections; their body is within its limit. -/
theorem endpoint_confined (parseUrl : Text → Option Url) (readFile : Text → Option Text) (net : Net)
    (profile : Profile) (args : List Text) (options : Options) (grant : Grant)
    (h : configure parseUrl readFile args = .ok (options, grant)) (call : FetchCall)
    (hcall : CanCall ⟨grant, parseUrl, net, profile⟩ call) :
    (∃ items, args = wordsOf items ∧ (∀ item ∈ items, commandLine.Fits item) ∧ options = optionsOf items) ∧
    ∃ fixed listed, PinnedTo options fixed ∧ Listed options listed ∧
      call.method ∈ (methodsOf fixed listed).methods ∧ UrlOf parseUrl options fixed call.url ∧
      HeadersOf readFile options call.headers ∧
      call.body.length ≤ (options.maxRequestBody.getD defaultMaxBody).toNat := by
  unfold configure at h
  simp only [bind_eq_ok, mapError_eq_ok, pure_eq_ok, Prod.mk.injEq] at h
  obtain ⟨options', hparse, grant', hbuild, rfl, rfl⟩ := h
  obtain ⟨items, hargs, hfits, -, hoptions⟩ := (parseArgs_ok_iff args options').mp hparse
  obtain ⟨⟨text, fresh, hbase, hnew, hsame⟩, hinjections, hheaders, hfixed, ⟨listed, hlisted, hmethods⟩, hquery,
    hseparators, hrequest, -⟩ := buildGrant_configured parseUrl readFile options' grant' hbuild
  obtain ⟨m, t, wire, taken, head, hresolve, hwhole, -, -, -, happly⟩ := permits_of_canCall _ call hcall
  obtain ⟨hcanonical, hpermitted, n, htarget, hqueried, hexact, hjoin⟩ := resolve_approved _ _ _ _ _ _ hresolve
  refine ⟨⟨items, hargs, hfits, hoptions⟩, grant'.fixed, listed, hfixed, hlisted, hmethods ▸ hpermitted, ?_, ?_, ?_⟩
  · have hjoined := join_ok parseUrl grant' n call.url hjoin
    rw [hsame] at hjoined
    refine ⟨text, fresh, _, n, hbase, hnew, hseparators ▸ isTarget_of_normalize _ _ _ htarget, ?_, ?_, ?_,
      hjoined⟩
    · intro pin hpin
      rw [Grant.effective, hpin]
    · intro hsome
      rw [← hquery]
      exact hqueried hsome
    · intro hslash
      apply hexact
      rw [grant'.scope_eq, hsame, Scope.ofPath, if_neg hslash]
  · obtain ⟨hsplit, hclient⟩ := headers_of_apply grant' _ _ happly
    exact ⟨_, _, _, hinjections, hheaders, hsplit, hclient⟩
  · rw [← hrequest]
    exact framed_length _ _ _ _ hwhole.framed

def injectingArgs : List Text :=
  [ascii "-X", ascii "get", ascii "-H", ascii "A: b", ascii "-q", ascii "-U", ascii "http://h/a/",
    ascii "--max-request-body", ascii "10"]

/-- What a daemon with these arguments calls for the one client of `bareWorld`. -/
def callsOf (args : List Text) : Option (List FetchCall) :=
  match configure Join.parseAtHost (fun _ => none) args with
  | .ok (_, grant) =>
    some (finalState (serveConnection
      { configFor (answerWith plainName (ascii "v")) with grant } bareWorld)).fetches
  | .error _ => none

theorem endpoint_confined_injecting :
    ∃ options grant fixed, configure Join.parseAtHost (fun _ => none) injectingArgs = .ok (options, grant) ∧
      PinnedTo options fixed ∧ UrlOf Join.parseAtHost options fixed bareCall.url ∧
      HeadersOf (fun _ => none) options [(ascii "A", ascii "b")] := by
  have hcalls : callsOf injectingArgs = some [{ bareCall with headers := [(ascii "A", ascii "b")] }] := by
    decide +kernel
  have hphysical : Physical bareWorld := by
    refine ⟨fun r hr => ?_, by decide⟩
    rw [List.mem_singleton.mp hr]
    decide
  unfold callsOf at hcalls
  split at hcalls
  · rename_i options grant hconfigure
    obtain ⟨-, fixed, -, hfixed, -, -, hurl, hheaders, -⟩ := endpoint_confined Join.parseAtHost
      (fun _ => none) _ .dev injectingArgs options grant hconfigure _
      ⟨bareWorld, hphysical, Option.some.inj hcalls⟩
    exact ⟨options, grant, fixed, hconfigure, hfixed, hurl, hheaders⟩
  · cases hcalls

end Capcurl.Cli.Capcurld
