import Capcurl.Delivery.Answers

/-! # One connection of the daemon, for an honest call -/

namespace Capcurl.Calls

open Lib Http Policy Capcurl.Core Spec ResponseCodec Agreement Session Delivery

theorem reported_written (e : CoreError) (w : World) (hroom : w.stream.room = none) :
    (reported e w).stream.written = w.stream.written ++ answerBytes (refusalFor e) := by
  rw [reported_open e w hroom]
  rfl

variable (config : Config) (method target boundMethod : Text) (url : Url) (headers : List Header)
  (body : Bytes)

theorem refused_served (why : Denied) (reads : List Bytes)
    (hresolve : config.grant.resolve config.parseUrl method target = .error why) :
    (finalState (serveConnection config (minting method target reads))).transport.sent = [.error why.text] ∧
      (finalState (serveConnection config (minting method target reads))).stream.written = [] := by
  have hasked : attempt (onTransport readMintRequest) (minting method target reads) =
      .ok (.ok (method, target))
        { minting method target reads with transport := { inbox := [], sendErrors := [], sent := [] } } := rfl
  unfold serveConnection
  rw [run_bind_ok _ _ _ _ _ hasked]
  simp only [hresolve]
  exact ⟨rfl, rfl⟩

theorem answer_read (answer : ResponseHead × Bytes) (hgood : Good answer) (hfits : Fits answer) (s : Stream)
    (hopen : s.room = none) (hs : Segmented maxRead (answerBytes answer) s.reads) :
    ∃ s', requestOverFd method target headers body s = .ok (responseOf answer.1 answer.2) s' := by
  have hfirst := writeAll_open (requestHead method target headers body.length) s hopen
  have hnext := writeAll_open body
    { s with written := s.written ++ requestHead method target headers body.length } hopen
  unfold requestOverFd
  rw [run_bind_ok _ _ _ _ _ hfirst, run_bind_ok _ _ _ _ _ hnext]
  exact readResponse_ok answer.1 answer.2 hgood.encodable hgood.noLength hgood.length hfits _ hs.nonempty
    hs.flatten

/-- The world of a connection that has handed over its descriptor. -/
def handed (reads : List Bytes) : World :=
  { minting method target reads with transport := {
      inbox := []
      sendErrors := []
      sent := [.arg boundMethod, .arg (boundTargetOf config.grant target), .fds 1] } }

variable (hresolve : config.grant.resolve config.parseUrl method target = .ok (boundMethod, url))
include hresolve

theorem granted_run (reads : List Bytes) :
    serveConnection config (minting method target reads) =
      answered (serveRequest config boundMethod (boundTargetOf config.grant target) url
        (handed config method target boundMethod reads)) := by
  have hasked : attempt (onTransport readMintRequest) (minting method target reads) =
      .ok (.ok (method, target))
        { minting method target reads with transport := { inbox := [], sendErrors := [], sent := [] } } := rfl
  have hhanded : handOver boundMethod (boundTargetOf config.grant target)
      { minting method target reads with transport := { inbox := [], sendErrors := [], sent := [] } } =
        .ok () (handed config method target boundMethod reads) := rfl
  unfold serveConnection
  rw [run_bind_ok _ _ _ _ _ hasked]
  simp only [hresolve]
  rw [serveMinted_eq, hhanded]

theorem granted_sent (reads : List Bytes) :
    (finalState (serveConnection config (minting method target reads))).transport.sent =
      [.arg boundMethod, .arg (boundTargetOf config.grant target), .fds 1] := by
  have hserved := served_calls config boundMethod (boundTargetOf config.grant target) url
    (handed config method target boundMethod reads) _ (serveRequest_cases config _ _ url _)
  rw [granted_run config method target boundMethod url hresolve reads, (answered_frame _).2, hserved.1]
  rfl

variable (hheaders : Sendable headers) (hbody : body.length ≤ config.grant.maxRequestBody.toNat)
  (hfits : (requestHead boundMethod (boundTargetOf config.grant target) headers body.length).length ≤
    maxHeadLen)
include hheaders hbody hfits

theorem serveRequest_answers (w : World) (hroom : w.stream.room = none)
    (hs : Segmented maxRead (requestBytes boundMethod (boundTargetOf config.grant target) headers body)
      w.stream.reads) :
    (finalState (answered
      (serveRequest config boundMethod (boundTargetOf config.grant target) url w))).stream.written =
      w.stream.written ++
        answerBytes (respond ⟨config, boundMethod, boundTargetOf config.grant target, url⟩ headers body) := by
  obtain ⟨head, leftover, rest, unread, hhead, hmethod, htarget, hfields, hread⟩ :=
    request_read config method target boundMethod url headers body hresolve hheaders hbody hfits w.stream hs
  have hclient : clientHeaders head.headers = clientHeaders headers := by rw [hfields, clientHeaders_sent]
  have hone : ∀ head' leftover' rest',
      readHead w.stream = .ok (head', leftover') { w.stream with reads := rest' } →
        head = head' ∧ leftover = leftover' ∧ rest = rest' := by
    intro head' leftover' rest' hhead'
    rw [hhead, EStateM.Result.ok.injEq, Prod.mk.injEq] at hhead'
    exact ⟨hhead'.1.1, hhead'.1.2, congrArg Stream.reads hhead'.2⟩
  have hcalled : ∀ call unread',
      Admitted config boundMethod (boundTargetOf config.grant target) url w.stream call unread' →
        call.method = boundMethod ∧ call.url = url ∧ call.body = body ∧
          config.grant.applyHeaders (clientHeaders headers) = .ok call.headers := by
    rintro call unread' ⟨hmethod', hurl, head', leftover', rest', hhead', -, -, hread', happly⟩
    obtain ⟨rfl, rfl, rfl⟩ := hone _ _ _ hhead'
    rw [hread, EStateM.Result.ok.injEq] at hread'
    rw [hclient] at happly
    exact ⟨hmethod', hurl, hread'.1.symm, happly⟩
  have hserved := serveRequest_cases config boundMethod (boundTargetOf config.grant target) url w
  generalize hrun : serveRequest config boundMethod (boundTargetOf config.grant target) url w = r at hserved ⊢
  unfold respond
  cases hserved with
  | stopped e unread' hwhy =>
    cases hwhy with
    | head _ _ herror =>
      rw [hhead] at herror
      cases herror
    | binding head' leftover' rest' hhead' hno =>
      obtain ⟨rfl, rfl, rfl⟩ := hone _ _ _ hhead'
      exact absurd ⟨by rw [hmethod, eqIgnoreCase_self], htarget⟩ hno
    | body head' leftover' rest' _ _ hhead' herror =>
      obtain ⟨rfl, rfl, rfl⟩ := hone _ _ _ hhead'
      rw [hread] at herror
      cases herror
    | header head' leftover' rest' why _ hhead' happly =>
      obtain ⟨rfl, rfl, rfl⟩ := hone _ _ _ hhead'
      rw [hclient] at happly
      simp only [happly]
      exact reported_written (.denied why) _ hroom
  | failed call unread' e hcall hfetch =>
    obtain ⟨hcallMethod, hurl, hcallBody, happly⟩ := hcalled call unread' hcall
    rw [fetchOf, hcallMethod, hurl, hcallBody] at hfetch
    simp only [happly, hfetch]
    exact reported_written e _ hroom
  | relayed call unread' response room hcall hfetch =>
    obtain ⟨hcallMethod, hurl, hcallBody, happly⟩ := hcalled call unread' hcall
    rw [fetchOf, hcallMethod, hurl, hcallBody] at hfetch
    simp only [happly, hfetch]
    rfl
  | cut call unread' response e part x hcall hfetch hpart hx =>
    rw [serveRequest_relays config _ _ url w call unread' response hcall hfetch hroom] at hrun
    cases hrun

theorem granted_written (reads : List Bytes)
    (hs : Segmented maxRead (requestBytes boundMethod (boundTargetOf config.grant target) headers body) reads) :
    (finalState (serveConnection config (minting method target reads))).stream.written =
      answerBytes (respond ⟨config, boundMethod, boundTargetOf config.grant target, url⟩ headers body) := by
  rw [granted_run config method target boundMethod url hresolve reads]
  exact serveRequest_answers config method target boundMethod url headers body hresolve hheaders hbody hfits
    (handed config method target boundMethod reads) rfl hs

end Capcurl.Calls
