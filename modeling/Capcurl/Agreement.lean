import Capcurl.Core.Exchange
import Capcurl.Join
import Capcurl.Relay
import Capcurl.RequestHead
import Capcurl.Resolve
import Capcurl.Session

/-! # Client and daemon agree on every honest request -/

namespace Capcurl.Agreement

open Lib Http Policy Capcurl.Core Spec ReadLoop Session Resolve

/-! ## The head that the client writes -/

structure Sendable (headers : List Header) : Prop where
  count : headers.length ≤ 126
  fields : ∀ h ∈ headers, Token h.1 ∧ FieldValue h.2
  length : ∀ h ∈ headers, eqIgnoreCase h.1 (ascii "content-length") = false
  encoding : ∀ h ∈ headers, eqIgnoreCase h.1 (ascii "transfer-encoding") = false
  upgrade : ∀ h ∈ headers, eqIgnoreCase h.1 (ascii "upgrade") = false

def hostField : Header := (ascii "Host", ascii "capability.invalid")

def sentHead (method target : Text) (headers : List Header) (bodyLen : Nat) : RequestHead where
  method := method
  target := target
  version := .http11
  headers := hostField :: headers ++ [lengthField bodyLen]
  framing := lengthFraming (UInt64.ofNat bodyLen)

theorem requestHead_serialize (method target : Text) (headers : List Header) (bodyLen : Nat) :
    requestHead method target headers bodyLen = serialize (sentHead method target headers bodyLen) := by
  simp [requestHead, serialize, sentHead, terminated, versionText, hostField, lengthField, headerLine,
    List.flatMap_map, ascii, ch]

theorem sentHead_wellFormed (method target : Text) (headers : List Header) (bodyLen : Nat)
    (hmethod : Token method) (htarget : target ≠ [] ∧ target.all isGraphic = true)
    (hheaders : Sendable headers) (hlen : bodyLen < u64Bound) :
    WellFormed (sentHead method target headers bodyLen) := by
  have hmem : ∀ h ∈ (sentHead method target headers bodyLen).headers,
      h = hostField ∨ h ∈ headers ∨ h = lengthField bodyLen := by
    intro h hh
    simpa [sentHead] using hh
  have hlength : isContentLength (lengthField bodyLen) = true := by
    simp only [isContentLength, lengthField]
    decide
  refine ⟨hmethod, htarget, ?_, ?_, ?_, ?_⟩
  · intro h hh
    rcases hmem h hh with rfl | hh | rfl
    · exact ⟨⟨by decide, by decide⟩, fieldValue_of_graphic _ (by decide)⟩
    · exact hheaders.fields h hh
    · exact ⟨lengthField_token bodyLen, lengthField_value bodyLen⟩
  · have := hheaders.count
    simp only [sentHead, List.length_append, List.length_cons, List.length_nil, maxHeaders]
    omega
  · intro h hh
    rcases hmem h hh with rfl | hh | rfl
    · decide
    · exact hheaders.upgrade h hh
    · simp only [lengthField]
      decide
  · refine .inl ⟨UInt64.ofNat bodyLen, ⟨lengthField bodyLen, by simp [sentHead], hlength⟩, ?_, ?_, rfl⟩
    · intro h hh hc
      rcases hmem h hh with rfl | hh | rfl
      · exact absurd hc (by decide)
      · unfold isContentLength at hc
        rw [hheaders.length h hh] at hc
        cases hc
      · exact lengthField_denotes bodyLen hlen
    · intro h hh
      rcases hmem h hh with rfl | hh | rfl
      · decide
      · exact hheaders.encoding h hh
      · exact content_length_not_transfer_encoding _ hlength

/-! ## Reading it -/

theorem readHead_of_isHead (text body : Bytes) (head : RequestHead) (s : Stream)
    (hhead : IsHead text head) (hfits : text.length ≤ maxHeadLen)
    (hs : Segmented maxRead (text ++ body) s.reads) :
    ∃ leftover unread, readHead s = .ok (head, leftover) { s with reads := unread } ∧
      leftover ++ unread.flatten = body ∧ unread <:+ s.reads := by
  have hend := fun q x => findHeadEnd_part _ q x _ (findHeadEnd_isHead text body head hhead)
  have hparse := RequestHead.parse_of_isHead text head hhead hfits
  have hcheck : ∀ q x, q ++ x = text ++ body → ∀ v, headCheck q = some v →
      text.length ≤ q.length ∧ v = .ok (head, q.drop text.length) := by
    intro q x hq v hv
    unfold headCheck at hv
    rw [hend q x hq] at hv
    by_cases hle : text.length ≤ q.length
    · have htake : q.take text.length = text := by
        rw [(part_of_head text body q x hq hle).1, List.take_left]
      simp only [if_pos hle, htake, hparse] at hv
      exact ⟨hle, (Option.some.inj hv).symm⟩
    · have hsmall : ¬ q.length > maxHeadLen := by omega
      simp [if_neg hle, hsmall] at hv
  have hflat := hs.flatten
  have hwhole : headCheck ([] ++ s.reads.flatten) ≠ none := by
    rw [List.nil_append, hflat, headCheck, findHeadEnd_isHead text body head hhead]
    simp [hparse]
  obtain ⟨seen, unread, hrun, hseen, hsplit, hsuf⟩ := readLoop_decides headCheck
    (fun _ => .handshake (ascii "capability closed before a complete request head")) [] s
    (fun q => (head, q.drop text.length)) hs.nonempty hwhole
    fun seen rest hsplit v hv => (hcheck seen rest (by rw [hsplit, hflat]) v hv).2
  rw [List.nil_append] at hrun hseen
  rw [hflat] at hsplit
  have hlen := (hcheck seen _ hsplit _ hseen).1
  exact ⟨_, unread, hrun, (part_of_head text body seen _ hsplit hlen).2, hsuf⟩

theorem readBody_of_length (profile : Profile) (leftover body : Bytes) (limit : UInt64) (s : Stream)
    (hne : ∀ r ∈ s.reads, r ≠ []) (hbody : leftover ++ s.reads.flatten = body)
    (hlimit : body.length ≤ limit.toNat) :
    ∃ unread, readBody profile (lengthFraming (UInt64.ofNat body.length)) leftover limit s =
      .ok body { s with reads := unread } := by
  have hlen : body.length < u64Bound := Nat.lt_of_le_of_lt hlimit limit.toNat_lt
  have hnat : (UInt64.ofNat body.length).toNat = body.length := UInt64.toNat_ofNat_of_lt' hlen
  by_cases hzero : UInt64.ofNat body.length = 0
  · have hnil : body = [] := by
      rw [hzero] at hnat
      exact List.length_eq_zero_iff.mp hnat.symm
    refine ⟨s.reads, ?_⟩
    unfold lengthFraming
    rw [if_pos hzero, hnil]
    rfl
  · have hsmall : ¬ UInt64.ofNat body.length > limit := by
      rw [gt_iff_lt, UInt64.lt_iff_toNat_lt, hnat]
      omega
    unfold lengthFraming
    rw [if_neg hzero]
    simp only [readBody, if_neg hsmall, hnat]
    obtain ⟨unread, hrun⟩ := readLength_ok body.length
      (fun buf => closedAfter buf.length body.length) leftover s hne (by rw [hbody])
    refine ⟨unread, ?_⟩
    rw [hrun, hbody, List.take_length]

/-! ## What an honest request can still be refused for -/

/-- An error that does not blame the request itself. -/
def Blameless (e : CoreError) : Prop := e ≠ .denied .notFixedRequest ∧ ∀ h, e ≠ .http h

theorem admitHeader_error (grant : Grant) (out : List Header) (field : Header) (why : Denied)
    (h : grant.admitHeader out field = .error why) : ∃ name, why = .header name := by
  simp only [Grant.admitHeader] at h
  split at h
  · exact ⟨_, (Except.error.inj h).symm⟩
  · split at h
    · exact ⟨_, (Except.error.inj h).symm⟩
    · cases h

theorem admitHeaders_error (grant : Grant) (fields out : List Header) (why : Denied)
    (h : fields.foldlM grant.admitHeader out = .error why) : ∃ name, why = .header name := by
  induction fields generalizing out with
  | nil => cases h
  | cons field fields ih =>
    rw [List.foldlM_cons, bind_eq_error] at h
    rcases h with h | ⟨out', -, h⟩
    · exact admitHeader_error grant out field why h
    · exact ih out' h

theorem applyHeaders_error (grant : Grant) (fields : List Header) (why : Denied)
    (h : grant.applyHeaders fields = .error why) : ∃ name, why = .header name := by
  unfold Grant.applyHeaders at h
  rw [bind_eq_error] at h
  rcases h with h | ⟨out, -, h⟩
  · exact admitHeaders_error grant fields [] why h
  · cases h

theorem fetch_blameless (config : Config) (call : FetchCall) (e : CoreError)
    (h : fetchOf config call = .error e) : Blameless e := by
  rcases Relay.fetch_fault config call e h with ⟨detail, rfl, -⟩ | ⟨limit, rfl⟩
  · exact ⟨by simp, by simp⟩
  · exact ⟨by simp, by simp⟩

/-! ## The whole exchange -/

section Honest

variable (config : Config) (m t boundMethod : Text) (url : Url) (headers : List Header) (body : Bytes)

def requestBytes (boundMethod boundTarget : Text) (headers : List Header) (body : Bytes) : Bytes :=
  requestHead boundMethod boundTarget headers body.length ++ body

theorem request_read (hresolve : config.grant.resolve config.parseUrl m t = .ok (boundMethod, url))
    (hheaders : Sendable headers) (hbody : body.length ≤ config.grant.maxRequestBody.toNat)
    (hfits : (requestHead boundMethod (boundTargetOf config.grant t) headers body.length).length ≤
      maxHeadLen) (s : Stream)
    (hs : Segmented maxRead (requestBytes boundMethod (boundTargetOf config.grant t) headers body)
      s.reads) :
    ∃ head leftover rest unread, readHead s = .ok (head, leftover) { s with reads := rest } ∧
      head.method = boundMethod ∧ head.target = boundTargetOf config.grant t ∧
      head.headers = hostField :: headers ++ [lengthField body.length] ∧
      readBody config.profile head.framing leftover config.grant.maxRequestBody
        { s with reads := rest } = .ok body { s with reads := unread } := by
  have happroved := resolve_approved _ _ _ _ _ _ hresolve
  have hmethod := (canonicalize_token _ _ happroved.canonical).1
  have htarget := approved_target_graphic _ _ _ _ _ happroved
  rw [← boundTargetOf_effective] at htarget
  have hlen : body.length < u64Bound := Nat.lt_of_le_of_lt hbody config.grant.maxRequestBody.toNat_lt
  have hgood := sentHead_wellFormed boundMethod _ headers body.length hmethod htarget hheaders hlen
  rw [requestHead_serialize] at hfits
  unfold requestBytes at hs
  rw [requestHead_serialize] at hs
  obtain ⟨leftover, rest, hhead, hrest, hsuf⟩ := readHead_of_isHead _ body _ s
    (isHead_serialize _ hgood) hfits hs
  obtain ⟨unread, hread⟩ := readBody_of_length config.profile leftover body
    config.grant.maxRequestBody { s with reads := rest } (fun r hr => hs.nonempty r (hsuf.subset hr))
    hrest hbody
  exact ⟨_, leftover, rest, unread, hhead, rfl, rfl, rfl, hread⟩

theorem request_blameless (hresolve : config.grant.resolve config.parseUrl m t = .ok (boundMethod, url))
    (hheaders : Sendable headers) (hbody : body.length ≤ config.grant.maxRequestBody.toNat)
    (hfits : (requestHead boundMethod (boundTargetOf config.grant t) headers body.length).length ≤
      maxHeadLen) (w : World)
    (hs : Segmented maxRead (requestBytes boundMethod (boundTargetOf config.grant t) headers body)
      w.stream.reads) (r : EStateM.Result (Halt CoreError) World Unit)
    (hserved : Served config boundMethod (boundTargetOf config.grant t) url w r) (e : Halt CoreError)
    (w' : World) (hr : r = .error e w') : ∃ e', e = .err e' ∧ Blameless e' := by
  obtain ⟨head, leftover, rest, unread, hhead, hmethod, htarget, -, hread⟩ :=
    request_read config m t boundMethod url headers body hresolve hheaders hbody hfits w.stream hs
  cases hserved with
  | stopped _ _ hwhy =>
    cases hr
    cases hwhy with
    | head _ _ herror => rw [herror] at hhead; cases hhead
    | binding head' leftover' rest' hhead' hno =>
      rw [hhead', EStateM.Result.ok.injEq, Prod.mk.injEq] at hhead
      obtain ⟨⟨rfl, rfl⟩, -⟩ := hhead
      exact absurd ⟨by rw [hmethod, eqIgnoreCase_self], htarget⟩ hno
    | body head' leftover' rest' _ _ hhead' herror =>
      rw [hhead', EStateM.Result.ok.injEq, Prod.mk.injEq] at hhead
      obtain ⟨⟨rfl, rfl⟩, hsame⟩ := hhead
      rw [hsame, hread] at herror
      cases herror
    | header head' leftover' rest' why _ hhead' herror =>
      obtain ⟨name, rfl⟩ := applyHeaders_error _ _ _ herror
      exact ⟨_, rfl, by simp, by simp⟩
  | failed call _ e' _ hfetch =>
    cases hr
    exact ⟨e', rfl, fetch_blameless config call e' hfetch⟩
  | relayed => cases hr
  | cut _ _ _ e' _ _ _ _ _ _ =>
    cases hr
    exact ⟨_, rfl, by simp, by simp⟩

theorem run_honest (hresolve : config.grant.resolve config.parseUrl m t = .ok (boundMethod, url))
    (hheaders : Sendable headers) (hbody : body.length ≤ config.grant.maxRequestBody.toNat)
    (hfits : (requestHead boundMethod (boundTargetOf config.grant t) headers body.length).length ≤
      maxHeadLen) (w : World) (hmint : BeginsMint m t w.transport.inbox)
    (r : EStateM.Result (Halt CoreError) World Unit) (hrun : Run config w r) :
    ∃ messages, (finalState r).transport.sent = w.transport.sent ++ messages ∧
      ∀ n, .fds n ∈ messages →
        messages = [.arg boundMethod, .arg (boundTargetOf config.grant t), .fds 1] ∧
        (Segmented maxRead (requestBytes boundMethod (boundTargetOf config.grant t) headers body)
            w.stream.reads →
          ∀ e w', r = .error e w' → ∃ e', e = .err e' ∧ Blameless e') := by
  have hsame : ∀ m' t' found, BeginsMint m' t' w.transport.inbox →
      config.grant.resolve config.parseUrl m' t' = .ok found →
      m' = m ∧ t' = t ∧ found = (boundMethod, url) := by
    intro m' t' found hmint' hresolve'
    obtain ⟨rfl, rfl⟩ := beginsMint_unique _ _ _ _ _ hmint hmint'
    rw [hresolve] at hresolve'
    exact ⟨rfl, rfl, (Except.ok.inj hresolve').symm⟩
  cases hrun with
  | unminted e tr hsilent =>
    obtain ⟨messages, hsent, hnone⟩ := hsilent
    exact ⟨messages, hsent, fun n hn => absurd hn (hnone n)⟩
  | deaf m' t' _ _ tr e hmint' hresolve' hsent =>
    obtain ⟨rfl, rfl, hpair⟩ := hsame _ _ _ hmint' hresolve'
    cases hpair
    refine ⟨_, hsent, fun n hn => ⟨rfl, fun _ e' w' hr => ?_⟩⟩
    cases hr
    exact ⟨_, rfl, by simp [Blameless]⟩
  | minted m' t' _ _ tr r hmint' hresolve' hsent hserved =>
    obtain ⟨rfl, rfl, hpair⟩ := hsame _ _ _ hmint' hresolve'
    cases hpair
    have htransport := (answered_frame r).2
    rw [htransport, (served_calls _ _ _ _ _ r hserved).1]
    refine ⟨_, hsent, fun n hn => ⟨rfl, fun hs e' w' hr => ?_⟩⟩
    have hblameless := request_blameless config _ _ boundMethod url headers body hresolve hheaders hbody
      hfits { w with transport := tr } hs r hserved
    cases r with
    | ok a w₁ => cases hr
    | error e w₁ =>
      obtain ⟨e₁, rfl, hb⟩ := hblameless e w₁ rfl
      cases hr
      exact ⟨e₁, rfl, hb⟩

end Honest

theorem mint_reply (m t boundMethod boundTarget : Text) (fd : Nat) (fds₁ fds₂ : List Nat)
    (text : Except Text Text) (rest : List (Except Text Received)) (sent : List Message) :
    mint m t
        { inbox := .ok ⟨.arg, .ok boundMethod, fds₁⟩ :: .ok ⟨.arg, .ok boundTarget, fds₂⟩ ::
            .ok ⟨.fd, text, [fd]⟩ :: rest
          sendErrors := []
          sent := sent } =
      .ok ⟨fd, boundMethod, boundTarget⟩
        { inbox := rest, sendErrors := [], sent := sent ++ [.arg m, .arg t, .end_] } := by
  have happend : sent ++ [.arg m, .arg t, .end_] = sent ++ [.arg m] ++ [.arg t] ++ [.end_] := by simp
  rw [happend]
  rfl

theorem request_written (boundMethod boundTarget : Text) (headers : List Header) (body : Bytes)
    (s : Stream) (hroom : s.room = none) :
    (finalState (requestOverFd boundMethod boundTarget headers body s)).written =
      s.written ++ requestBytes boundMethod boundTarget headers body := by
  have hfirst : writeAll (requestHead boundMethod boundTarget headers body.length) s =
      .ok () { s with written := s.written ++ requestHead boundMethod boundTarget headers body.length } := by
    unfold writeAll
    rw [hroom]
  have hnext : writeAll body
      { s with written := s.written ++ requestHead boundMethod boundTarget headers body.length } =
      .ok () { s with
        written := s.written ++ requestHead boundMethod boundTarget headers body.length ++ body } := by
    simp only [writeAll, hroom]
  obtain ⟨unread, hframe⟩ := readResponse_frame
    { s with written := s.written ++ requestHead boundMethod boundTarget headers body.length ++ body }
  unfold requestOverFd
  rw [run_bind_ok _ _ _ _ _ hfirst, run_bind_ok _ _ _ _ _ hnext, hframe, requestBytes]
  simp

/-- **Client and daemon agree** on every request that the grant resolves and the client can send: the
mint reports the bound pair, the daemon reads that pair, those headers and that body off whatever reads
the client's bytes arrive in, and no refusal blames the request. -/
theorem honest_request_agreed (config : Config) (m t boundMethod : Text) (url : Url)
    (headers : List Header) (body : Bytes)
    (hresolve : config.grant.resolve config.parseUrl m t = .ok (boundMethod, url))
    (hheaders : Sendable headers) (hbody : body.length ≤ config.grant.maxRequestBody.toNat)
    (hfits : (requestHead boundMethod (boundTargetOf config.grant t) headers body.length).length ≤
      maxHeadLen) :
    let boundTarget := boundTargetOf config.grant t
    (∀ fd fds₁ fds₂ text rest sent,
      mint m t
          { inbox := .ok ⟨.arg, .ok boundMethod, fds₁⟩ :: .ok ⟨.arg, .ok boundTarget, fds₂⟩ ::
              .ok ⟨.fd, text, [fd]⟩ :: rest
            sendErrors := []
            sent := sent } =
        .ok ⟨fd, boundMethod, boundTarget⟩
          { inbox := rest, sendErrors := [], sent := sent ++ [.arg m, .arg t, .end_] }) ∧
    (∀ s, s.room = none →
      (finalState (requestOverFd boundMethod boundTarget headers body s)).written =
        s.written ++ requestBytes boundMethod boundTarget headers body) ∧
    (∀ s, Segmented maxRead (requestBytes boundMethod boundTarget headers body) s.reads →
      ∃ head leftover rest unread, readHead s = .ok (head, leftover) { s with reads := rest } ∧
        head.method = boundMethod ∧ head.target = boundTarget ∧
        head.headers = hostField :: headers ++ [lengthField body.length] ∧
        readBody config.profile head.framing leftover config.grant.maxRequestBody
          { s with reads := rest } = .ok body { s with reads := unread } ∧
        eqIgnoreCase head.method boundMethod = true) ∧
    ∀ w, BeginsMint m t w.transport.inbox →
      ∃ messages, (finalState (serveConnection config w)).transport.sent =
          w.transport.sent ++ messages ∧
        ∀ n, .fds n ∈ messages →
          messages = [.arg boundMethod, .arg boundTarget, .fds 1] ∧
          (Segmented maxRead (requestBytes boundMethod boundTarget headers body) w.stream.reads →
            ∀ e w', serveConnection config w = .error e w' →
              ∃ e', e = .err e' ∧ e' ≠ .denied .notFixedRequest ∧ ∀ why, e' ≠ .http why) := by
  intro boundTarget
  refine ⟨mint_reply m t boundMethod boundTarget, request_written boundMethod boundTarget headers body,
    ?_, ?_⟩
  · intro s hs
    obtain ⟨head, leftover, rest, unread, hhead, hmethod, htarget, hfields, hread⟩ :=
      request_read config m t boundMethod url headers body hresolve hheaders hbody hfits s hs
    exact ⟨head, leftover, rest, unread, hhead, hmethod, htarget, hfields, hread,
      by rw [hmethod, eqIgnoreCase_self]⟩
  · intro w hmint
    exact run_honest config m t boundMethod url headers body hresolve hheaders hbody hfits w hmint _
      (serveConnection_cases config w)

theorem honest_request_agreed_canonical :
    mint (ascii "post") (ascii "/x?q")
        { inbox := [.ok ⟨.arg, .ok (ascii "POST"), []⟩, .ok ⟨.arg, .ok (ascii "/x?q"), []⟩,
            .ok ⟨.fd, .ok [], [7]⟩]
          sendErrors := []
          sent := [] } =
      .ok ⟨7, ascii "POST", ascii "/x?q"⟩
        { inbox := [], sendErrors := [], sent := [.arg (ascii "post"), .arg (ascii "/x?q"), .end_] } ∧
    ∃ head leftover rest,
      readHead (minting [] []
          [ascii "POST /x?q HTTP/1.1\r\nHost: capability.invalid\r\nAccept: */*\r\nConte",
            ascii "nt-Length: 2\r\n\r\nhi"]).stream = .ok (head, leftover) rest ∧
        head.method = ascii "POST" ∧ head.target = ascii "/x?q" := by
  let grant := Join.grantBelow.withMethods ⟨{ascii "POST"}⟩
  let config : Config := ⟨grant, Join.parseAtHost, answering emptyAnswer, .dev⟩
  let headers : List Header := [(ascii "Accept", ascii "*/*")]
  have hresolve : config.grant.resolve config.parseUrl (ascii "post") (ascii "/x?q") =
      .ok (ascii "POST", { Join.grantBelow.base with path := ascii "/a/x", query := some (ascii "q") }) := by
    decide +kernel
  have hsend : Sendable headers := by
    refine ⟨by decide, ?_, by decide, by decide, by decide⟩
    intro h hh
    rw [List.mem_singleton.mp hh]
    exact ⟨⟨by decide, by decide⟩, fieldValue_of_graphic _ (by decide)⟩
  have h := honest_request_agreed config _ _ _ _ headers (ascii "hi") hresolve hsend (by decide)
    (by decide)
  have hreads : Segmented maxRead (requestBytes (ascii "POST") (ascii "/x?q") headers (ascii "hi"))
      [ascii "POST /x?q HTTP/1.1\r\nHost: capability.invalid\r\nAccept: */*\r\nConte",
        ascii "nt-Length: 2\r\n\r\nhi"] :=
    ⟨by rfl, by decide, by decide⟩
  obtain ⟨head, leftover, rest, -, hread, hmethod, htarget, -⟩ := h.2.2.1 (minting [] [] _).stream hreads
  exact ⟨h.1 7 [] [] _ [] [], head, leftover, _, hread, hmethod, htarget⟩

end Capcurl.Agreement
