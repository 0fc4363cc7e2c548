import Capcurl.Join
import Capcurl.ResponseCodec
import Capcurl.Session

/-! # The origin's answer, relayed and read -/

namespace Capcurl.Relay

open Lib Http Policy Capcurl.Core Spec ResponseCodec Session

/-! ## What is relayed -/

theorem readCapped_ok (limit : UInt64) (body full : Bytes) (chunks : List (Except ReqwestError Bytes))
    (h : readCapped limit body chunks = .ok full) (hbody : body.length ≤ limit.toNat) :
    ∃ pieces : List Bytes, chunks = pieces.map .ok ∧ full = body ++ pieces.flatten ∧ full.length ≤ limit.toNat := by
  induction chunks generalizing body with
  | nil =>
    unfold readCapped at h
    rw [pure_eq_ok] at h
    subst h
    exact ⟨[], rfl, by simp, hbody⟩
  | cons chunk chunks ih =>
    cases chunk with
    | error e => cases h
    | ok chunk =>
      unfold readCapped at h
      rw [throw_else_eq_ok] at h
      obtain ⟨pieces, rfl, rfl, hlen⟩ := ih (body ++ chunk) h.2 (by rw [List.length_append]; omega)
      exact ⟨chunk :: pieces, rfl, by simp, hlen⟩

def responseFrom (net : Net) (answer : OriginResponse) (body : Bytes) : UpstreamResponse where
  status := answer.status
  reason := (net.canonicalReason answer.status.code).getD (ascii "Unknown")
  headers := answer.headers
  body := body

/-- The request that `fetch` sends for a call, if it can make one. -/
def requestOf (net : Net) (call : FetchCall) : Except CoreError OriginRequest :=
  match net.methodFromBytes call.method with
  | none => throw (.upstream (ascii "unusable method"))
  | some method => do
    let headers ← call.headers.foldlM (appendHeader net) []
    return { method, url := call.url, headers, body := call.body }

/-- What `fetch` makes of the origin's answer. -/
def responseTo (net : Net) (limit : UInt64) (answer : Except ReqwestError OriginResponse) :
    Except CoreError UpstreamResponse := do
  let response ← answer.mapError fun e => .upstream (describe e)
  if let some len := response.contentLength then
    if len > limit then throw (.denied (.tooLarge .response limit))
  let body ← readCapped limit [] response.chunks
  return responseFrom net response body

theorem fetchOf_eq (config : Config) (call : FetchCall) :
    fetchOf config call = requestOf config.net call >>= fun request =>
      responseTo config.net config.grant.maxResponseBody (config.net.send request) := by
  unfold fetchOf fetch requestOf
  cases config.net.methodFromBytes call.method with
  | none => rfl
  | some method =>
    simp only [bind_assoc, pure_bind]
    rfl

theorem fetch_ok (config : Config) (call : FetchCall) (response : UpstreamResponse)
    (h : fetchOf config call = .ok response) :
    ∃ request answer, ∃ pieces : List Bytes, requestOf config.net call = .ok request ∧
      config.net.send request = .ok answer ∧ answer.chunks = pieces.map .ok ∧
      response = responseFrom config.net answer pieces.flatten ∧
      pieces.flatten.length ≤ config.grant.maxResponseBody.toNat := by
  rw [fetchOf_eq, bind_eq_ok] at h
  obtain ⟨request, hrequest, h⟩ := h
  unfold responseTo at h
  simp only [bind_eq_ok, mapError_eq_ok] at h
  obtain ⟨answer, hsend, h⟩ := h
  have hrest : (readCapped config.grant.maxResponseBody [] answer.chunks >>= fun body =>
      pure (responseFrom config.net answer body)) = .ok response := by
    split at h
    · rw [throw_bind_else_eq_ok] at h
      exact h.2
    · exact h
  obtain ⟨body, hbody, h⟩ := (bind_eq_ok _ _ _).mp hrest
  rw [pure_eq_ok] at h
  obtain ⟨pieces, hpieces, hflat, hlen⟩ := readCapped_ok _ _ _ _ hbody (Nat.zero_le _)
  rw [List.nil_append] at hflat
  subst hflat
  exact ⟨request, answer, pieces, hrequest, hsend, hpieces, h.symm, hlen⟩

/-! ## How a fetch fails -/

/-- An error of the origin leg: a text of its own, or a body over the cap. -/
def OriginFault (e : CoreError) : Prop :=
  (∃ detail, e = .upstream detail ∧ detail.length ≤ 200) ∨
    ∃ limit, e = .denied (.tooLarge .response limit)

theorem describe_fault (e : ReqwestError) : OriginFault (.upstream (describe e)) := by
  refine .inl ⟨_, rfl, ?_⟩
  unfold describe
  split
  · decide
  · split
    · decide
    · split <;> decide

theorem readCapped_fault (limit : UInt64) (body : Bytes) (chunks : List (Except ReqwestError Bytes))
    (e : CoreError) (h : readCapped limit body chunks = .error e) : OriginFault e := by
  induction chunks generalizing body with
  | nil => cases h
  | cons chunk chunks ih =>
    cases chunk with
    | error e' =>
      cases h
      exact describe_fault e'
    | ok chunk =>
      unfold readCapped at h
      split at h
      · cases h
        exact .inr ⟨_, rfl⟩
      · exact ih (body ++ chunk) h

theorem appendHeaders_fault (net : Net) (fields map : List Header) (e : CoreError)
    (h : fields.foldlM (appendHeader net) map = .error e) : OriginFault e := by
  induction fields generalizing map with
  | nil => cases h
  | cons field fields ih =>
    rw [List.foldlM_cons, bind_eq_error] at h
    rcases h with h | ⟨map', -, h⟩
    · unfold appendHeader at h
      split at h
      · cases h
        exact .inl ⟨_, rfl, by decide⟩
      · split at h
        · cases h
          exact .inl ⟨_, rfl, by decide⟩
        · cases h
    · exact ih map' h

theorem requestOf_fault (net : Net) (call : FetchCall) (e : CoreError) (h : requestOf net call = .error e) :
    OriginFault e := by
  unfold requestOf at h
  split at h
  · cases h
    exact .inl ⟨_, rfl, by decide⟩
  · rw [bind_eq_error] at h
    rcases h with h | ⟨headers, -, h⟩
    · exact appendHeaders_fault _ _ _ e h
    · cases h

theorem fetch_fault (config : Config) (call : FetchCall) (e : CoreError)
    (h : fetchOf config call = .error e) : OriginFault e := by
  rw [fetchOf_eq, bind_eq_error] at h
  rcases h with h | ⟨request, -, h⟩
  · exact requestOf_fault _ call e h
  · unfold responseTo at h
    rw [bind_eq_error, mapError_eq_error] at h
    rcases h with ⟨e', -, rfl⟩ | ⟨answer, -, h⟩
    · exact describe_fault e'
    · have hrest : ∀ e, (readCapped config.grant.maxResponseBody [] answer.chunks >>= fun body =>
          pure (responseFrom config.net answer body)) = .error e → OriginFault e := by
        intro e h
        rw [bind_eq_error] at h
        rcases h with h | ⟨body, -, h⟩
        · exact readCapped_fault _ _ _ e h
        · cases h
      split at h
      · split at h
        · cases h
          exact .inr ⟨_, rfl⟩
        · exact hrest e h
      · exact hrest e h

/-! ## The relayed head -/

theorem relayHeaders_mem (headers : List (HeaderName × Bytes)) (f : Header) (h : f ∈ relayHeaders headers) :
    Token f.1 ∧ isHopByHop f.1 (connectionOf headers) = false ∧ f.2.all isFieldByte = true := by
  obtain ⟨field, -, h⟩ := List.mem_filterMap.mp h
  split at h
  · cases h
  · rename_i hkept
    obtain ⟨value, hvalue, rfl⟩ := Option.map_eq_some_iff.mp h
    unfold toStr at hvalue
    split at hvalue
    · rename_i htext
      rw [← Option.some.inj hvalue]
      exact ⟨⟨field.1.nonempty, field.1.token⟩, by simpa using hkept, htext⟩
    · cases hvalue

theorem relayHead_encodable (response : UpstreamResponse) : Encodable (relayHead response) :=
  ⟨⟨response.status.lower, response.status.upper⟩, fun f hf =>
    ⟨(relayHeaders_mem _ f hf).1, (relayHeaders_mem _ f hf).2.2⟩⟩

theorem relayHead_noLength (response : UpstreamResponse) : NoLength (relayHead response) :=
  fun f hf => not_length_of_relayed _ _ (relayHeaders_mem _ f hf).2.1

/-! ## Reading it back -/

/-- **What was relayed can be read**, with the origin's status and body, in whatever reads it comes:
this holds of the answers whose head is within the reader's limit, and of no others. -/
theorem relayed_readable_iff (config : Config) (boundMethod boundTarget : Text) (url : Url)
    (w w' : World) (hrun : serveRequest config boundMethod boundTarget url w = .ok () w') :
    ∃ request answer, ∃ pieces : List Bytes,
      config.net.send request = .ok answer ∧ answer.chunks = pieces.map .ok ∧
      let response := responseFrom config.net answer pieces.flatten
      w'.stream.written = w.stream.written ++ relayBytes response ∧
      ((∀ s : Stream, Segmented maxRead (relayBytes response) s.reads →
          ∃ r s', readResponse s = .ok r s' ∧ r.status = answer.status.code ∧ r.body = pieces.flatten) ↔
        ((relayHead response).encode pieces.flatten.length).length ≤ maxHeadLen + 1) := by
  have hserved := serveRequest_cases config boundMethod boundTarget url w
  rw [hrun] at hserved
  cases hserved with
  | relayed call unread response room hcall hfetch =>
    obtain ⟨request, answer, pieces, -, hsend, hpieces, rfl, hlimit⟩ := fetch_ok config call response hfetch
    have hlen : pieces.flatten.length < u64Bound :=
      Nat.lt_of_le_of_lt hlimit config.grant.maxResponseBody.toNat_lt
    have henc := relayHead_encodable (responseFrom config.net answer pieces.flatten)
    have hno := relayHead_noLength (responseFrom config.net answer pieces.flatten)
    refine ⟨request, answer, pieces, hsend, hpieces, rfl, ?_, ?_⟩
    · intro hall
      by_contra hlarge
      obtain ⟨reads, hreads, e, s', herror⟩ :=
        readResponse_fails _ pieces.flatten henc (by omega) w.stream
      obtain ⟨r, s'', hok, -⟩ := hall { w.stream with reads } hreads
      rw [herror] at hok
      cases hok
    · intro hfits s hs
      obtain ⟨s', hok⟩ := readResponse_ok _ pieces.flatten henc hno hlen hfits s hs.nonempty hs.flatten
      exact ⟨_, s', hok, rfl, rfl⟩

/-! ## A run that relays -/

def bareRequest : Bytes := ascii "GET /x HTTP/1.1\r\n\r\n"

def bareHead : RequestHead where
  method := ascii "GET"
  target := ascii "/x"
  version := .http11
  headers := []
  framing := .none

def bareCall : FetchCall where
  method := ascii "GET"
  url := { Join.grantBelow.base with path := ascii "/a/x" }
  headers := []
  body := []

def configFor (answer : OriginResponse) : Config :=
  ⟨Join.grantBelow, Join.parseAtHost, answering answer, .dev⟩

def bareWorld : World := minting (ascii "GET") (ascii "/x") [bareRequest]

theorem bare_read : readHead bareWorld.stream = .ok (bareHead, []) { bareWorld.stream with reads := [] } := by
  have hparse : RequestHead.parse bareRequest = .ok bareHead := by decide +kernel
  have hend : findHeadEnd bareRequest = some bareRequest.length := by decide
  have hcheck : headCheck bareRequest = some (.ok (bareHead, [])) := by
    unfold headCheck
    rw [hend]
    simp only [List.take_length, List.drop_length, hparse]
  have hfeed : feed headCheck [] [bareRequest] = .stopped (.ok (bareHead, [])) bareRequest [] := by
    rw [feed_read _ _ _ _ rfl (by decide), List.nil_append, feed_stop _ _ _ _ hcheck]
  unfold readHead readLoop
  simp only [bareWorld, minting, hfeed]

theorem bare_admitted (answer : OriginResponse) :
    Admitted (configFor answer) (ascii "GET") (ascii "/x") bareCall.url bareWorld.stream bareCall [] :=
  ⟨rfl, rfl, bareHead, [], [], bare_read, by decide, rfl, rfl, rfl⟩

def answerWith (name : HeaderName) (value : Bytes) : OriginResponse where
  status := ⟨200, Nat.le_of_ble_eq_true rfl, Nat.le_of_ble_eq_true rfl⟩
  headers := [(name, value)]
  contentLength := none
  chunks := [.ok (ascii "hi")]

theorem answerWith_relayed (name : HeaderName) (value : Bytes) :
    serveRequest (configFor (answerWith name value)) (ascii "GET") (ascii "/x") bareCall.url bareWorld =
      .ok () (wrote (called bareWorld [] bareCall)
        (relayBytes (responseFrom (answering (answerWith name value)) (answerWith name value)
          (ascii "hi"))) none) :=
  serveRequest_relays _ _ _ _ _ bareCall [] _ (bare_admitted _) rfl rfl

def plainName : HeaderName := ⟨ascii "x-a", by decide, by decide, by decide⟩

theorem answerWith_fields (value : Bytes) (h : value.all isFieldByte = true) :
    relayHeaders (answerWith plainName value).headers = [(ascii "x-a", value)] := by
  have hname : plainName.text = ascii "x-a" := rfl
  have hkept : isHopByHop (ascii "x-a") none = false := by decide
  have hnone : connectionOf [(plainName, value)] = none := by
    simp [connectionOf, plainName, ascii]
  have htext : toStr value = some value := by rw [toStr, if_pos h]
  simp only [relayHeaders, answerWith, hnone, List.filterMap_cons, List.filterMap_nil, hname, hkept, htext,
    Bool.false_eq_true, if_false, Option.map_some]

theorem relayed_readable_iff_short :
    ∃ w', serveRequest (configFor (answerWith plainName (ascii "v"))) (ascii "GET") (ascii "/x")
        bareCall.url bareWorld = .ok () w' ∧
      ∀ s : Stream, Segmented maxRead w'.stream.written s.reads →
        ∃ r s', readResponse s = .ok r s' ∧ r.status = 200 ∧ r.body = ascii "hi" := by
  have hrun := answerWith_relayed plainName (ascii "v")
  obtain ⟨request, answer, pieces, hsend, hpieces, hwritten, hiff⟩ := relayed_readable_iff _ _ _ _ _ _ hrun
  have hanswer : answerWith plainName (ascii "v") = answer := Except.ok.inj hsend
  subst hanswer
  have hbody : pieces = [ascii "hi"] := by
    apply List.map_injective_iff.mpr (fun a b hab => Except.ok.inj hab)
    exact hpieces.symm
  subst hbody
  refine ⟨_, hrun, fun s hs => hiff.mpr (by decide +kernel) s ?_⟩
  rw [hwritten] at hs
  exact hs

theorem long_value_unread (value : Bytes) (hvalue : value.all isFieldByte = true)
    (hlong : maxHeadLen + 1 < value.length) :
    ∃ w' reads, serveRequest (configFor (answerWith plainName value)) (ascii "GET") (ascii "/x")
        bareCall.url bareWorld = .ok () w' ∧ Segmented maxRead w'.stream.written reads ∧
      ¬ ∃ r s', readResponse { bareWorld.stream with reads } = .ok r s' := by
  have hfield : (ascii "x-a", value) ∈ (relayHead (responseFrom (answering (answerWith plainName value))
      (answerWith plainName value) (ascii "hi"))).headers := by
    have hmem : (ascii "x-a", value) ∈ relayHeaders (answerWith plainName value).headers := by
      rw [answerWith_fields value hvalue]
      exact List.mem_singleton_self _
    exact hmem
  have hlarge := Nat.lt_of_lt_of_le hlong (encode_length _ (ascii "hi").length _ hfield)
  obtain ⟨reads, hreads, e, s', herror⟩ :=
    readResponse_fails _ (ascii "hi") (relayHead_encodable _) hlarge bareWorld.stream
  refine ⟨_, reads, answerWith_relayed plainName value, hreads, ?_⟩
  rintro ⟨r, s'', hok⟩
  rw [herror] at hok
  cases hok

/-- An answer that the daemon relays and the client, reading it so, does not get. -/
theorem large_head_unread :
    ∃ w' reads, serveRequest (configFor (answerWith plainName (List.replicate (maxHeadLen + 2) (ch 'a'))))
        (ascii "GET") (ascii "/x") bareCall.url bareWorld = .ok () w' ∧
      Segmented maxRead w'.stream.written reads ∧
      ¬ ∃ r s', readResponse { bareWorld.stream with reads } = .ok r s' := by
  apply long_value_unread
  · rw [List.all_eq_true]
    intro b hb
    rw [List.eq_of_mem_replicate hb]
    decide
  · rw [List.length_replicate]
    omega

end Capcurl.Relay
