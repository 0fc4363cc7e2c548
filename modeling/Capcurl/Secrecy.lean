import Capcurl.Expansion
import Capcurl.OriginHeaders
import Capcurl.Relay

/-! # What a client learns of the injected values -/

namespace Capcurl.Secrecy

open Lib Http Policy Capcurl.Core Session Relay OriginHeaders

/-! ## Two daemons -/

/-- The grants differ in the values of their injections, and the origins in what they answer. -/
structure SecretsApart (config config' : Config) : Prop where
  grant : config'.grant = { config.grant with injections := config'.grant.injections }
  names : config.grant.injections.map (·.name) = config'.grant.injections.map (·.name)
  parsed : ∀ i ∈ config.grant.injections ++ config'.grant.injections,
    ∃ readFile spec, Injection.parse readFile spec = .ok i
  parseUrl : config'.parseUrl = config.parseUrl
  profile : config'.profile = config.profile
  net : config'.net = { config.net with send := config'.net.send }

/-- The HTTP client takes every token as a name, and every field text as a value. -/
structure AcceptsFields (net : Net) : Prop where
  names : ∀ name : Text, name ≠ [] → name.all isTchar = true → (net.headerName name).isSome = true
  values : ∀ value : Text, value.all isFieldByte = true → (net.headerValue value).isSome = true

/-- What the two connections ask for is answered alike. -/
def AnsweredAlike (config config' : Config) (w : World) : Prop :=
  ∀ call call' request request', AsksFor config w call → AsksFor config' w call' →
    requestOf config.net call = .ok request → requestOf config'.net call' = .ok request' →
      config'.net.send request' = config.net.send request

/-- Two calls that differ in the values of the injections. -/
structure CallsAlike (config config' : Config) (call call' : FetchCall) : Prop where
  method : call'.method = call.method
  url : call'.url = call.url
  body : call'.body = call.body
  headers : ∃ client, call.headers = client ++ injected config.grant ∧
    call'.headers = client ++ injected config'.grant

/-- Two runs that differ in the calls alone that they add to those before. -/
structure RunsAlike (config config' : Config) (before : List FetchCall)
    (r r' : EStateM.Result (Halt CoreError) World Unit) : Prop where
  result : result r' = result r
  transport : (finalState r').transport = (finalState r).transport
  stream : (finalState r').stream = (finalState r).stream
  calls : ∃ calls calls', (finalState r).fetches = before ++ calls ∧
    (finalState r').fetches = before ++ calls' ∧ List.Forall₂ (CallsAlike config config') calls calls'

theorem runsAlike_refl (config config' : Config) (before : List FetchCall)
    (r : EStateM.Result (Halt CoreError) World Unit) (h : (finalState r).fetches = before) :
    RunsAlike config config' before r r :=
  ⟨rfl, rfl, rfl, [], [], by rw [h, List.append_nil], by rw [h, List.append_nil], .nil⟩

/-! ## The headers -/

theorem parsed_injection (readFile : Text → Option Text) (spec : Text) (i : Injection)
    (h : Injection.parse readFile spec = .ok i) :
    i.name ≠ [] ∧ i.name.all isTchar = true ∧ i.value.all isFieldByte = true := by
  obtain ⟨_, _, -, ⟨-, hne, htoken⟩, -, hfield⟩ := (Expansion.parse_eq_ok_iff readFile spec i).mp h
  exact ⟨hne, List.all_eq_true.mpr htoken, List.all_eq_true.mpr hfield⟩

section Headers

variable (config config' : Config) (h : SecretsApart config config')
include h

theorem offends_alike : offends config'.grant = offends config.grant := by
  have hany : ∀ (injections : List Injection) (name : Text),
      injections.any (fun i => eqIgnoreCase i.name name) =
        (injections.map (·.name)).any fun n => eqIgnoreCase n name := by
    intro injections name
    rw [List.any_map]
    rfl
  have hpolicy : config'.grant.headers = config.grant.headers := by rw [h.grant]
  funext field
  unfold offends
  rw [hany, hany, h.names, hpolicy]

theorem headers_alike (client : List Header) :
    (∃ why, config.grant.applyHeaders client = .error why ∧ config'.grant.applyHeaders client = .error why) ∨
      (config.grant.applyHeaders client = .ok (client ++ injected config.grant) ∧
        config'.grant.applyHeaders client = .ok (client ++ injected config'.grant)) := by
  rw [applyHeaders_eq, applyHeaders_eq, offends_alike config config' h]
  cases client.find? (offends config.grant) with
  | none => exact .inr ⟨rfl, rfl⟩
  | some field => exact .inl ⟨_, rfl, rfl⟩

end Headers

theorem appendHeaders_ok (net : Net) (haccepts : AcceptsFields net) (fields map : List Header)
    (h : ∀ f ∈ fields, f.1 ≠ [] ∧ f.1.all isTchar = true ∧ f.2.all isFieldByte = true) :
    ∃ map', fields.foldlM (appendHeader net) map = .ok map' := by
  induction fields generalizing map with
  | nil => exact ⟨map, rfl⟩
  | cons f fields ih =>
    obtain ⟨hne, htoken, hvalue⟩ := h f List.mem_cons_self
    obtain ⟨name, hname⟩ := Option.isSome_iff_exists.mp (haccepts.names f.1 hne htoken)
    obtain ⟨value, hvalue⟩ := Option.isSome_iff_exists.mp (haccepts.values f.2 hvalue)
    have hturn : appendHeader net map f = .ok (map ++ [(name, value)]) := by
      unfold appendHeader
      rw [hname]
      simp only [hvalue]
      rfl
    rw [List.foldlM_cons, hturn]
    exact ih _ fun g hg => h g (List.mem_cons_of_mem f hg)

theorem injected_fields (grant : Grant)
    (h : ∀ i ∈ grant.injections, ∃ readFile spec, Injection.parse readFile spec = .ok i) :
    ∀ f ∈ injected grant, f.1 ≠ [] ∧ f.1.all isTchar = true ∧ f.2.all isFieldByte = true := by
  intro f hf
  obtain ⟨i, hi, rfl⟩ := List.mem_map.mp hf
  obtain ⟨readFile, spec, hparse⟩ := h i hi
  exact parsed_injection readFile spec i hparse

/-! ## The answer -/

section Fetch

variable (config config' : Config) (h : SecretsApart config config') (haccepts : AcceptsFields config.net)
  (call call' : FetchCall) (hcalls : CallsAlike config config' call call')
include h haccepts hcalls

theorem requests_alike :
    (∃ e, requestOf config.net call = .error e ∧ requestOf config'.net call' = .error e) ∨
      ∃ request request', requestOf config.net call = .ok request ∧
        requestOf config'.net call' = .ok request' := by
  obtain ⟨client, hheaders, hheaders'⟩ := hcalls.headers
  have happend : appendHeader config'.net = appendHeader config.net := by
    rw [h.net]
    rfl
  have hmethod : config'.net.methodFromBytes = config.net.methodFromBytes := by rw [h.net]
  unfold requestOf
  rw [hmethod, happend, hcalls.method, hheaders, hheaders', List.foldlM_append, List.foldlM_append]
  cases config.net.methodFromBytes call.method with
  | none => exact .inl ⟨_, rfl, rfl⟩
  | some method =>
    simp only
    cases client.foldlM (appendHeader config.net) [] with
    | error e => exact .inl ⟨e, rfl, rfl⟩
    | ok map =>
      obtain ⟨out, hout⟩ := appendHeaders_ok config.net haccepts (injected config.grant) map
        (injected_fields _ fun i hi => h.parsed i (List.mem_append_left _ hi))
      obtain ⟨out', hout'⟩ := appendHeaders_ok config.net haccepts (injected config'.grant) map
        (injected_fields _ fun i hi => h.parsed i (List.mem_append_right _ hi))
      simp only [ok_bind, hout, hout']
      exact .inr ⟨_, _, rfl, rfl⟩

theorem fetch_alike (hsend : ∀ request request', requestOf config.net call = .ok request →
      requestOf config'.net call' = .ok request' → config'.net.send request' = config.net.send request) :
    fetchOf config' call' = fetchOf config call := by
  have hresponse : responseTo config'.net config'.grant.maxResponseBody =
      responseTo config.net config.grant.maxResponseBody := by
    rw [h.net, h.grant]
    rfl
  rw [fetchOf_eq, fetchOf_eq, hresponse]
  rcases requests_alike config config' h haccepts call call' hcalls with
    ⟨e, hrequest, hrequest'⟩ | ⟨request, request', hrequest, hrequest'⟩
  · rw [hrequest, hrequest']
    rfl
  · rw [hrequest, hrequest', ok_bind, ok_bind, hsend request request' hrequest hrequest']

end Fetch

theorem relay_alike (config config' : Config) (call call' : FetchCall) (w : World)
    (hcalls : CallsAlike config config' call call')
    (hfetch : fetchOf config' call' = fetchOf config call) :
    RunsAlike config config' w.fetches
      ((callFetch config call >>= fun response =>
        onStream (writeResponse (relayHead response) response.body)) w)
      ((callFetch config' call' >>= fun response =>
        onStream (writeResponse (relayHead response) response.body)) w) := by
  have hone : List.Forall₂ (CallsAlike config config') [call] [call'] := .cons hcalls .nil
  have hrun : callFetch config call w =
      (Core.ofExcept (fetchOf config call)) { w with fetches := w.fetches ++ [call] } := rfl
  have hrun' : callFetch config' call' w =
      (Core.ofExcept (fetchOf config' call')) { w with fetches := w.fetches ++ [call'] } := rfl
  rw [hfetch] at hrun'
  cases hresponse : fetchOf config call with
  | error e =>
    rw [hresponse] at hrun hrun'
    rw [run_bind_error _ _ _ _ _ hrun, run_bind_error _ _ _ _ _ hrun']
    exact ⟨rfl, rfl, rfl, [call], [call'], rfl, rfl, hone⟩
  | ok response =>
    rw [hresponse] at hrun hrun'
    rw [run_bind_ok _ _ _ _ _ hrun, run_bind_ok _ _ _ _ _ hrun']
    unfold onStream
    simp only
    cases writeResponse (relayHead response) response.body w.stream <;>
      exact ⟨rfl, rfl, rfl, [call], [call'], rfl, rfl, hone⟩

/-! ## The request -/

section Request

variable (config config' : Config) (h : SecretsApart config config') (haccepts : AcceptsFields config.net)
include h haccepts

theorem serveRequest_alike (boundMethod boundTarget : Text) (url : Url) (w : World)
    (hsend : ∀ call call' unread unread' request request',
      Admitted config boundMethod boundTarget url w.stream call unread →
      Admitted config' boundMethod boundTarget url w.stream call' unread' →
      requestOf config.net call = .ok request → requestOf config'.net call' = .ok request' →
        config'.net.send request' = config.net.send request) :
    RunsAlike config config' w.fetches (serveRequest config boundMethod boundTarget url w)
      (serveRequest config' boundMethod boundTarget url w) := by
  have hrefl := runsAlike_refl config config' w.fetches
  have hlimit : config'.grant.maxRequestBody = config.grant.maxRequestBody := by rw [h.grant]
  unfold serveRequest
  rcases readLoop_frame headCheck _ [] w.stream with ⟨⟨head, leftover⟩, rest, hhead⟩ | ⟨e, rest, hhead⟩
  case inr =>
    rw [run_bind_error _ _ _ _ _ (onStream_error readHead w _ _ hhead),
      run_bind_error _ _ _ _ _ (onStream_error readHead w _ _ hhead)]
    exact hrefl _ rfl
  rw [run_bind_ok _ _ _ _ _ (onStream_ok readHead w _ _ hhead),
    run_bind_ok _ _ _ _ _ (onStream_ok readHead w _ _ hhead), h.profile, hlimit]
  simp only
  by_cases hbinding : (!eqIgnoreCase head.method boundMethod || head.target != boundTarget) = true
  case pos =>
    rw [if_pos hbinding, if_pos hbinding]
    exact hrefl _ rfl
  rw [if_neg hbinding, if_neg hbinding]
  rcases readBody_frame config.profile head.framing leftover config.grant.maxRequestBody
    { w.stream with reads := rest } with ⟨body, unread, hbody⟩ | ⟨e, unread, hbody⟩
  case inr =>
    rw [run_bind_error _ _ _ _ _ (onStream_error _ _ _ _ hbody),
      run_bind_error _ _ _ _ _ (onStream_error _ _ _ _ hbody)]
    exact hrefl _ rfl
  rw [run_bind_ok _ _ _ _ _ (onStream_ok _ _ _ _ hbody), run_bind_ok _ _ _ _ _ (onStream_ok _ _ _ _ hbody)]
  rcases headers_alike config config' h (clientHeaders head.headers) with
    ⟨why, hheaders, hheaders'⟩ | ⟨hheaders, hheaders'⟩
  · rw [hheaders, hheaders']
    exact hrefl _ rfl
  · rw [hheaders, hheaders', Except.mapError, Except.mapError, ofExcept_ok_bind, ofExcept_ok_bind]
    have hbound : eqIgnoreCase head.method boundMethod = true ∧ head.target = boundTarget := by
      simpa using hbinding
    have hcalls : CallsAlike config config'
        { method := boundMethod, url, headers := clientHeaders head.headers ++ injected config.grant, body }
        { method := boundMethod, url, headers := clientHeaders head.headers ++ injected config'.grant, body } :=
      ⟨rfl, rfl, rfl, clientHeaders head.headers, rfl, rfl⟩
    refine relay_alike config config' _ _ { w with stream := { w.stream with reads := unread } } hcalls (fetch_alike config config' h haccepts _ _ hcalls ?_)
    have hbody' : readBody config'.profile head.framing leftover config'.grant.maxRequestBody
        { w.stream with reads := rest } = .ok body { w.stream with reads := unread } := by
      rw [h.profile, hlimit]
      exact hbody
    exact fun request request' => hsend _ _ unread unread request request'
      ⟨rfl, rfl, head, leftover, rest, hhead, hbound.1, hbound.2, hbody, hheaders⟩
      ⟨rfl, rfl, head, leftover, rest, hhead, hbound.1, hbound.2, hbody', hheaders'⟩

end Request

/-! ## The connection -/

theorem reported_alike (e : CoreError) (w w' : World) (htransport : w'.transport = w.transport)
    (hstream : w'.stream = w.stream) :
    (reported e w').transport = (reported e w).transport ∧ (reported e w').stream = (reported e w).stream ∧
      (reported e w').fetches = w'.fetches := by
  unfold reported onStream
  rw [hstream]
  cases writeResponse (refusalFor e).1 (refusalFor e).2 w.stream <;> exact ⟨htransport, rfl, rfl⟩

theorem answered_alike (config config' : Config) (before : List FetchCall)
    (r r' : EStateM.Result (Halt CoreError) World Unit) (h : RunsAlike config config' before r r') :
    RunsAlike config config' before (answered r) (answered r') := by
  obtain ⟨hresult, htransport, hstream, hcalls⟩ := h
  cases r with
  | ok a w =>
    cases r' with
    | ok a' w' => exact ⟨hresult, htransport, hstream, hcalls⟩
    | error e' w' => cases hresult
  | error e w =>
    cases r' with
    | ok a' w' => cases hresult
    | error e' w' =>
      have he : e' = e := Except.error.inj hresult
      subst he
      cases e' with
      | panic => exact ⟨rfl, htransport, hstream, hcalls⟩
      | fuel => exact ⟨rfl, htransport, hstream, hcalls⟩
      | err e =>
        obtain ⟨htransport', hstream', hfetches'⟩ := reported_alike e w w' htransport hstream
        have hfetches := (reported_alike e w w rfl rfl).2.2
        refine ⟨rfl, htransport', hstream', ?_⟩
        simp only [answered, finalState, hfetches, hfetches'] at hcalls ⊢
        exact hcalls

/-- **Credentials stay unseen**: two connections whose grants differ in the values of their injections,
and whose origins answer alike, end alike, send the same messages and write the same bytes. -/
theorem credentials_unseen (config config' : Config) (h : SecretsApart config config')
    (haccepts : AcceptsFields config.net) (w : World) (hanswers : AnsweredAlike config config' w) :
    RunsAlike config config' w.fetches (serveConnection config w) (serveConnection config' w) := by
  have hresolve : ∀ m t, config'.grant.resolve config'.parseUrl m t =
      config.grant.resolve config.parseUrl m t := by
    rw [h.parseUrl, h.grant]
    exact fun m t => rfl
  have htarget : boundTargetOf config'.grant = boundTargetOf config.grant := by
    rw [h.grant]
    rfl
  unfold serveConnection
  rcases mintRequest_cases w with ⟨e, t₀, -, hmint⟩ | ⟨m, target, t₀, hbegins, -, hmint⟩
  · rw [run_bind_ok _ _ _ _ _ hmint, run_bind_ok _ _ _ _ _ hmint]
    refine runsAlike_refl config config' w.fetches _ ?_
    simp only
    rcases send_cases (.error e.text) { w with transport := t₀ } with ⟨t, -, hsend⟩ | ⟨e', t, -, hsend⟩
    · rw [run_bind_ok _ _ _ _ _ (attempt_ok _ _ _ _ hsend)]
      rfl
    · rw [run_bind_ok _ _ _ _ _ (attempt_err _ _ _ _ hsend)]
      rfl
  · rw [run_bind_ok _ _ _ _ _ hmint, run_bind_ok _ _ _ _ _ hmint]
    simp only
    rw [hresolve]
    cases hfound : config.grant.resolve config.parseUrl m target with
    | error why =>
      refine runsAlike_refl config config' w.fetches _ ?_
      simp only
      rcases send_cases (.error why.text) { w with transport := t₀ } with ⟨t, -, hsend⟩ | ⟨e', t, -, hsend⟩
      · rw [run_bind_ok _ _ _ _ _ hsend]
        rfl
      · rw [run_bind_error _ _ _ _ _ hsend]
        rfl
    | ok found =>
      obtain ⟨boundMethod, url⟩ := found
      simp only
      rw [serveMinted_eq, serveMinted_eq, htarget]
      rcases handOver_cases boundMethod (boundTargetOf config.grant target) { w with transport := t₀ } with
        ⟨e, t, -, hrun⟩ | ⟨t, -, ⟨e, hrun⟩ | hrun⟩
      · rw [hrun]
        exact runsAlike_refl config config' w.fetches _ rfl
      · rw [hrun]
        exact runsAlike_refl config config' w.fetches _ rfl
      · rw [hrun]
        refine answered_alike config config' w.fetches _ _ (serveRequest_alike config config' h haccepts boundMethod
          (boundTargetOf config.grant target) url { w with transport := t } ?_)
        intro call call' unread unread' request request' hcall hcall'
        refine hanswers call call' request request'
          ⟨m, target, boundMethod, url, unread, hbegins, hfound, hcall⟩
          ⟨m, target, boundMethod, url, unread', hbegins, (hresolve m target).trans hfound, ?_⟩
        rw [htarget]
        exact hcall'

def withSecret (value : Text) : Config :=
  { configFor (answerWith plainName (ascii "v")) with
    grant := { Join.grantBelow with injections := [⟨ascii "Authorization", value⟩] } }

theorem withSecret_apart (a b : Text) (readFile : Text → Option Text) (specA specB : Text)
    (ha : Injection.parse readFile specA = .ok ⟨ascii "Authorization", a⟩)
    (hb : Injection.parse readFile specB = .ok ⟨ascii "Authorization", b⟩) :
    SecretsApart (withSecret a) (withSecret b) := by
  refine ⟨rfl, rfl, fun i hi => ?_, rfl, rfl, rfl⟩
  rcases List.mem_pair.mp hi with rfl | rfl
  · exact ⟨readFile, specA, ha⟩
  · exact ⟨readFile, specB, hb⟩

theorem withSecret_answered (a b : Text) (w : World) : AnsweredAlike (withSecret a) (withSecret b) w :=
  fun _ _ _ _ _ _ _ _ => rfl

theorem credentials_unseen_bearer :
    RunsAlike (withSecret (ascii "Bearer a")) (withSecret (ascii "Bearer b")) bareWorld.fetches
      (serveConnection (withSecret (ascii "Bearer a")) bareWorld)
      (serveConnection (withSecret (ascii "Bearer b")) bareWorld) :=
  credentials_unseen _ _
    (withSecret_apart _ _ some (ascii "Authorization: Bearer a") (ascii "Authorization: Bearer @b")
      (by decide) (by decide))
    ⟨fun _ _ _ => rfl, fun _ _ => rfl⟩ bareWorld (withSecret_answered _ _ _)

end Capcurl.Secrecy
