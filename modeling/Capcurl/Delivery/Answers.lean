import Capcurl.Agreement
import Capcurl.Delivery.Stages

/-! # An honest request is answered, in whatever order the two programs take their steps -/

namespace Capcurl.Delivery

open Lib Http Policy Capcurl.Core Spec ResponseCodec Session Relay Marker Agreement Resolve

/-! ## What a descriptor is for -/

/-- The answer to one request: the origin's, or the refusal. -/
def respond (m : Mint) (headers : List Header) (body : Bytes) : ResponseHead × Bytes :=
  match m.config.grant.applyHeaders (clientHeaders headers) with
  | .error why => refusalFor (.denied why)
  | .ok headers =>
    match fetch m.config.net m.config.grant m.boundMethod m.url headers body with
    | .error e => refusalFor e
    | .ok response => (relayHead response, response.body)

def answerBytes (answer : ResponseHead × Bytes) : Bytes := answer.1.encode answer.2.length ++ answer.2

/-- The client has room for the head. -/
def Fits (answer : ResponseHead × Bytes) : Prop :=
  (answer.1.encode answer.2.length).length ≤ maxHeadLen + 1

instance (answer : ResponseHead × Bytes) : Decidable (Fits answer) := inferInstanceAs (Decidable (_ ≤ _))

theorem relay_responds (m : Mint) (head : RequestHead) (body : Bytes) :
    ∃ outcome pending, Daemon.relay m head body = .writing outcome pending ∧
      pending.flatten = answerBytes (respond m head.headers body) := by
  unfold Daemon.relay respond
  cases m.config.grant.applyHeaders (clientHeaders head.headers) with
  | error why => exact ⟨_, _, rfl, by simp [answerBytes]⟩
  | ok headers =>
    simp only
    cases fetch m.config.net m.config.grant m.boundMethod m.url headers body with
    | error e => exact ⟨_, _, rfl, by simp [answerBytes]⟩
    | ok response => exact ⟨_, _, rfl, by simp [answerBytes]⟩

/-- An answer that the client reads back as it was. -/
structure Good (answer : ResponseHead × Bytes) : Prop where
  encodable : Encodable answer.1
  noLength : NoLength answer.1
  length : answer.2.length < u64Bound

theorem refusal_good (e : CoreError) (hshort : Short e) : Good (refusalFor e) ∧ Fits (refusalFor e) := by
  obtain ⟨status, reason, detail, hstatus, heq⟩ := refusalFor_refusal e
  obtain ⟨henc, hno, -⟩ := refusal_head status reason detail hstatus
  unfold Short at hshort
  rw [heq] at hshort ⊢
  exact ⟨⟨henc, hno, hshort⟩, refusal_fits status reason detail hstatus.2 hshort⟩

theorem fetched_good (m : Mint) (headers : List (Text × Text)) (body : Bytes) (response : UpstreamResponse)
    (h : fetch m.config.net m.config.grant m.boundMethod m.url headers body = .ok response) :
    Good (relayHead response, response.body) := by
  obtain ⟨request, origin, pieces, -, -, -, rfl, hlen⟩ :=
    fetch_ok m.config ⟨m.boundMethod, m.url, headers, body⟩ response h
  have hbound := Nat.lt_of_le_of_lt hlen m.config.grant.maxResponseBody.toNat_lt
  exact ⟨relayHead_encodable _, relayHead_noLength _, hbound⟩

theorem respond_cases (m : Mint) (headers : List Header) (body : Bytes) :
    (∃ e, respond m headers body = refusalFor e ∧ Good (refusalFor e) ∧ Fits (refusalFor e)) ∨
      ∃ sent response, m.config.grant.applyHeaders (clientHeaders headers) = .ok sent ∧
        fetch m.config.net m.config.grant m.boundMethod m.url sent body = .ok response ∧
        respond m headers body = (relayHead response, response.body) := by
  have hshort : ∀ e, Daemon.relay m ⟨[], [], .http11, headers, .none⟩ body = Daemon.refuse e → Short e :=
    fun e => relay_short m e _ body
  unfold Daemon.relay at hshort
  unfold respond
  cases happly : m.config.grant.applyHeaders (clientHeaders headers) with
  | error why =>
    rw [happly] at hshort
    exact .inl ⟨_, rfl, refusal_good _ (hshort _ rfl)⟩
  | ok sent =>
    rw [happly] at hshort
    simp only at hshort ⊢
    cases hfetch : fetch m.config.net m.config.grant m.boundMethod m.url sent body with
    | error e =>
      rw [hfetch] at hshort
      exact .inl ⟨e, rfl, refusal_good e (hshort e rfl)⟩
    | ok response => exact .inr ⟨sent, response, rfl, hfetch, rfl⟩

theorem respond_good (m : Mint) (headers : List Header) (body : Bytes) :
    Good (respond m headers body) := by
  rcases respond_cases m headers body with ⟨e, heq, hgood, -⟩ | ⟨sent, response, -, hfetch, heq⟩
  · rw [heq]
    exact hgood
  · rw [heq]
    exact fetched_good m sent body response hfetch

/-! ## The daemon, on an honest request -/

theorem bodyCheck_length (profile : Profile) (n : Nat) (limit : UInt64) (buf : Bytes)
    (hlimit : n ≤ limit.toNat) :
    bodyCheck profile (lengthFraming (UInt64.ofNat n)) limit buf = lengthCheck n buf := by
  have hnat : (UInt64.ofNat n).toNat = n :=
    UInt64.toNat_ofNat_of_lt' (Nat.lt_of_le_of_lt hlimit limit.toNat_lt)
  unfold lengthFraming
  by_cases hzero : UInt64.ofNat n = 0
  · rw [hzero] at hnat
    rw [if_pos hzero, ← hnat]
    rfl
  · have hsmall : ¬ UInt64.ofNat n > limit := by
      rw [gt_iff_lt, UInt64.lt_iff_toNat_lt, hnat]
      omega
    rw [if_neg hzero, bodyCheck, if_neg hsmall, hnat]

theorem clientHeaders_sent (headers : List Header) (n : Nat) :
    clientHeaders (hostField :: headers ++ [lengthField n]) = clientHeaders headers := by
  have hhost : clientHeaders [hostField] = [] := by decide
  have hlength : clientHeaders [lengthField n] = [] := by
    have hname : descriptorLegHeaders.contains (lowercase (ascii "Content-Length")) = true := by decide
    exact List.filter_cons_of_neg (by simp only [lengthField, hname]; decide)
  have happend : ∀ a b, clientHeaders (a ++ b) = clientHeaders a ++ clientHeaders b :=
    List.filter_append
  rw [← List.singleton_append, happend, happend, hhost, hlength, List.nil_append, List.append_nil]

/-- A request that the client of a descriptor can make. -/
structure Askable (m : Mint) (headers : List Header) (body : Bytes) : Prop where
  wellFormed : WellFormed (sentHead m.boundMethod m.boundTarget headers body.length)
  fits : (requestHead m.boundMethod m.boundTarget headers body.length).length ≤ maxHeadLen
  body : body.length ≤ m.config.grant.maxRequestBody.toNat

theorem askable_of_resolve (config : Config) (m t boundMethod : Text) (url : Url) (headers : List Header)
    (body : Bytes) (hresolve : config.grant.resolve config.parseUrl m t = .ok (boundMethod, url))
    (hheaders : Sendable headers) (hbody : body.length ≤ config.grant.maxRequestBody.toNat)
    (hfits : (requestHead boundMethod (boundTargetOf config.grant t) headers body.length).length ≤
      maxHeadLen) : Askable ⟨config, boundMethod, boundTargetOf config.grant t, url⟩ headers body := by
  have happroved := resolve_approved _ _ _ _ _ _ hresolve
  have hmethod := (canonicalize_token _ _ happroved.canonical).1
  have htarget := approved_target_graphic _ _ _ _ _ happroved
  rw [← boundTargetOf_effective] at htarget
  have hlen : body.length < u64Bound := Nat.lt_of_le_of_lt hbody config.grant.maxRequestBody.toNat_lt
  exact ⟨sentHead_wellFormed boundMethod _ headers body.length hmethod htarget hheaders hlen, hfits, hbody⟩

section Asked

variable (m : Mint) (headers : List Header) (body : Bytes)

def asked : Bytes := requestBytes m.boundMethod m.boundTarget headers body

theorem asked_nonempty : asked m headers body ≠ [] := by
  have hne := requestHead_nonempty m.boundMethod m.boundTarget headers body.length
  simp [asked, requestBytes, hne]

variable (h : Askable m headers body)
include h

theorem daemon_part (q x : Bytes) (hq : q ++ x = asked m headers body) :
    Daemon.resumeHead m q =
      if (requestHead m.boundMethod m.boundTarget headers body.length).length ≤ q.length then
        Daemon.resumeBody m (sentHead m.boundMethod m.boundTarget headers body.length)
          (q.drop (requestHead m.boundMethod m.boundTarget headers body.length).length)
      else .readingHead q := by
  have hhead := isHead_serialize _ h.wellFormed
  have hfits := h.fits
  unfold asked requestBytes at hq
  rw [requestHead_serialize] at hq hfits ⊢
  have hcheck := Segmentation.headCheck_early _ q x _ (findHeadEnd_isHead _ body _ hhead) hfits hq
  rw [List.take_left, Segmentation.headVerdict, RequestHead.parse_of_isHead _ _ hhead hfits] at hcheck
  have hbound : ¬ (!eqIgnoreCase (sentHead m.boundMethod m.boundTarget headers body.length).method
      m.boundMethod ||
      (sentHead m.boundMethod m.boundTarget headers body.length).target != m.boundTarget) = true := by
    simp [sentHead, eqIgnoreCase_self]
  by_cases hle : (serialize (sentHead m.boundMethod m.boundTarget headers body.length)).length ≤ q.length
  · rw [if_pos hle] at hcheck ⊢
    unfold Daemon.resumeHead
    rw [hcheck]
    exact if_neg hbound
  · rw [if_neg hle] at hcheck ⊢
    unfold Daemon.resumeHead
    rw [hcheck]

theorem daemon_body_part (buf : Bytes) :
    Daemon.resumeBody m (sentHead m.boundMethod m.boundTarget headers body.length) buf =
      if buf.length < body.length then
        .readingBody (sentHead m.boundMethod m.boundTarget headers body.length) buf
      else
        Daemon.relay m (sentHead m.boundMethod m.boundTarget headers body.length)
          (buf.take body.length) := by
  unfold Daemon.resumeBody
  rw [sentHead, bodyCheck_length _ _ _ _ h.body, lengthCheck]
  by_cases hlen : buf.length < body.length
  · simp only [if_pos hlen]
  · simp only [if_neg hlen]

theorem asked_answers : Answers m (asked m headers body) (answerBytes (respond m headers body)) := by
  refine ⟨asked_nonempty m headers body, ?_, ?_⟩
  · intro q x hq hx
    have hmore := List.length_pos_of_ne_nil hx
    have hlen := congrArg List.length hq
    rw [daemon_part m headers body h q x hq]
    split
    · rename_i hle
      unfold asked requestBytes at hlen
      rw [daemon_body_part m headers body h, if_pos]
      · rfl
      · simp only [List.length_append, List.length_drop] at hlen ⊢
        omega
    · rfl
  · obtain ⟨outcome, pending, hrelay, hpending⟩ :=
      relay_responds m (sentHead m.boundMethod m.boundTarget headers body.length) body
    refine ⟨outcome, pending, ?_, ?_⟩
    · rw [daemon_part m headers body h _ [] (List.append_nil _), if_pos]
      · rw [asked, requestBytes, List.drop_left, daemon_body_part m headers body h, if_neg (Nat.lt_irrefl _),
          List.take_length, hrelay]
      · unfold asked requestBytes
        rw [List.length_append]
        exact Nat.le_add_right _ _
    · rw [hpending]
      unfold respond
      simp only [sentHead, clientHeaders_sent]

end Asked

/-! ## The client, on an answer -/

section Client

variable (answer : ResponseHead × Bytes)

theorem client_body_part (buf : Bytes) :
    Client.resumeBody answer.1.status (sanitizeReason answer.1.reason)
        (readFields answer.1 answer.2.length) answer.2.length buf =
      if buf.length < answer.2.length then
        .readingBody answer.1.status (sanitizeReason answer.1.reason)
          (readFields answer.1 answer.2.length) answer.2.length buf
      else .returned (.ok { responseOf answer.1 answer.2 with body := buf.take answer.2.length }) := by
  unfold Client.resumeBody lengthCheck
  by_cases hlen : buf.length < answer.2.length
  · simp only [if_pos hlen]
  · simp only [if_neg hlen]
    rfl

variable (hgood : Good answer)
include hgood

theorem client_part (q x : Bytes) (hq : q ++ x = answerBytes answer) :
    Client.resumeHead q =
      if (answer.1.encode answer.2.length).length ≤ q.length then
        Client.resumeBody answer.1.status (sanitizeReason answer.1.reason)
          (readFields answer.1 answer.2.length) answer.2.length
          (q.drop (answer.1.encode answer.2.length).length)
      else if q.length > maxHeadLen then .returned (.error (.err (.http .headTooLarge)))
      else .readingHead q := by
  have hend := ReadLoop.findHeadEnd_part _ q x _
    (findHeadEnd_encode answer.1 answer.2.length answer.2 hgood.encodable) hq
  unfold Client.resumeHead responseHeadCheck
  rw [hend]
  by_cases hle : (answer.1.encode answer.2.length).length ≤ q.length
  · have htake : q.take (answer.1.encode answer.2.length).length = answer.1.encode answer.2.length := by
      rw [(ReadLoop.part_of_head _ _ _ _ hq hle).1, List.take_left]
    simp only [if_pos hle, Client.parsed, htake, parse_encode answer.1 answer.2.length hgood.encodable,
      declaredLength_read answer.1 answer.2 hgood.noLength hgood.length]
  · rw [if_neg hle, if_neg hle]
    by_cases hlarge : q.length > maxHeadLen
    · simp only [if_pos hlarge]
    · simp only [if_neg hlarge]

theorem client_returns :
    Client.resumeHead (answerBytes answer) = .returned (.ok (responseOf answer.1 answer.2)) := by
  rw [client_part answer hgood _ [] (List.append_nil _), if_pos]
  · rw [answerBytes, List.drop_left, client_body_part answer, if_neg (Nat.lt_irrefl _),
      List.take_length]
    rfl
  · unfold answerBytes
    rw [List.length_append]
    exact Nat.le_add_right _ _

theorem client_waits (hfits : Fits answer) (q x : Bytes) (hq : q ++ x = answerBytes answer) (hx : x ≠ []) :
    (Client.resumeHead q).isReading = true := by
  have hmore := List.length_pos_of_ne_nil hx
  have hlen := congrArg List.length hq
  unfold answerBytes at hlen
  unfold Fits at hfits
  rw [client_part answer hgood q x hq]
  split
  · rename_i hle
    rw [client_body_part answer, if_pos]
    · rfl
    · simp only [List.length_append, List.length_drop] at hlen ⊢
      omega
  · split
    · omega
    · rfl

end Client

/-! ## Every run -/

/-- The end of a session: the client has the answer, and nothing is left in the channel. -/
def answeredWith (answer : ResponseHead × Bytes) : Duplex :=
  ⟨[], [], .returned (.ok (responseOf answer.1 answer.2)), .closed⟩

section Runs

variable (m : Mint) (cap : Capacity) (headers : List Header) (body : Bytes)
  (hask : Askable m headers body)
include hask

theorem asked_answered (hfits : Fits (respond m headers body)) (steps : List (Duplex × Duplex))
    (final : Duplex)
    (hrun : Path (Step m cap) (Duplex.start m.boundMethod m.boundTarget headers body) steps final)
    (hcomplete : Stuck (Step m cap) final) : final = answeredWith (respond m headers body) := by
  obtain ⟨r, seen, x, hfinal, hall, hr, hwhole⟩ := exchange_ends m cap (asked m headers body)
    (answerBytes (respond m headers body)) (asked_answers m headers body hask) m.boundMethod
    m.boundTarget headers body rfl steps final hrun hcomplete
  have hgood := respond_good m headers body
  have hnone : final.down ++ x = [] := by
    by_contra hmore
    have hreads := client_waits _ hgood hfits seen _ hall hmore
    rcases hwhole with hreturned | hnone
    · rw [hreturned] at hreads
      cases hreads
    · exact hmore hnone
  rw [hnone, List.append_nil] at hall
  rw [hall, client_returns _ hgood] at hr
  rw [hfinal, ← Client.returned.inj hr, (List.append_eq_nil_iff.mp hnone).1]
  rfl

end Runs

/-! ## An answer whose head is too large -/

/-- A step in which the client reads one byte at most. -/
def Sip (m : Mint) (cap : Capacity) (d d' : Duplex) : Prop :=
  Step m cap d d' ∧ d.down.length ≤ d'.down.length + 1

theorem stuck_of_sip (m : Mint) (cap : Capacity) (d : Duplex) (h : Stuck (Sip m cap) d) :
    Stuck (Step m cap) d := by
  intro d' hstep
  have hgulp : ¬ d.down.length ≤ d'.down.length + 1 := fun hsip => h d' ⟨hstep, hsip⟩
  cases hstep with
  | clientReads up part down client daemon hreading hpart hmax =>
    obtain ⟨b, part, rfl⟩ := List.exists_cons_of_ne_nil hpart
    have hone : 1 ≤ maxRead := by decide
    refine h _ ⟨Step.clientReads up [b] (part ++ down) client daemon hreading (List.cons_ne_nil b [])
      hone, ?_⟩
    simp
  | daemonWrites up down part more rest client outcome hpart hroom hopen =>
    simp only [List.length_append] at hgulp
    omega
  | clientWrites => exact hgulp (Nat.le_succ _)
  | clientWrote => exact hgulp (Nat.le_succ _)
  | clientTurns => exact hgulp (Nat.le_succ _)
  | clientFails => exact hgulp (Nat.le_succ _)
  | clientEnds => exact hgulp (Nat.le_succ _)
  | daemonReads => exact hgulp (Nat.le_succ _)
  | daemonEnds => exact hgulp (Nat.le_succ _)
  | daemonWrote => exact hgulp (Nat.le_succ _)
  | daemonFails => exact hgulp (Nat.le_succ _)
  | daemonShuts => exact hgulp (Nat.le_succ _)
  | daemonCloses => exact hgulp (Nat.le_succ _)

/-- The client has not got past the head, or has given it up. -/
def Sipping (client : Client) : Prop :=
  (∃ pending, client = .writing pending) ∨
    (∃ buf, client = .readingHead buf ∧ buf.length ≤ maxHeadLen) ∨
    client = .returned (.error (.err (.http .headTooLarge)))

section Sips

variable (answer : ResponseHead × Bytes) (hgood : Good answer)
include hgood

theorem head_seen (q x buf : Bytes) (hq : q ++ x = answerBytes answer)
    (hhead : Client.resumeHead q = .readingHead buf) : q = buf := by
  rw [client_part answer hgood q x hq] at hhead
  split at hhead
  · rw [client_body_part] at hhead
    split at hhead <;> cases hhead
  · split at hhead
    · cases hhead
    · exact Client.readingHead.inj hhead

variable (hlarge : ¬ Fits answer)
include hlarge

theorem sipping_head (q x : Bytes) (hq : q ++ x = answerBytes answer) (hlen : q.length ≤ maxHeadLen + 1) :
    Sipping (Client.resumeHead q) := by
  unfold Fits at hlarge
  rw [client_part answer hgood q x hq, if_neg (by omega)]
  split
  · exact .inr (.inr rfl)
  · exact .inr (.inl ⟨q, rfl, by omega⟩)

variable (m : Mint) (cap : Capacity) (request : Bytes)
  (hanswers : Answers m request (answerBytes answer))
include hanswers

theorem sipping_step (d d' : Duplex) (h : Stage m request (answerBytes answer) d)
    (hsipping : Sipping d.client) (hsip : Sip m cap d d') : Sipping d'.client := by
  obtain ⟨hstep, hsip⟩ := hsip
  have hreads := stage_reading m request _ d hanswers h
  have hwrites := stage_writing m request _ d hanswers h
  have hbuf : ∀ client : Client, Sipping client → client.isReading = true →
      ∃ buf, client = .readingHead buf ∧ buf.length ≤ maxHeadLen := by
    rintro client (⟨pending, rfl⟩ | hhead | rfl) hreading
    · cases hreading
    · exact hhead
    · cases hreading
  cases hstep with
  | clientWrites => exact .inl ⟨_, rfl⟩
  | clientWrote => exact .inl ⟨_, rfl⟩
  | clientTurns => exact .inr (.inl ⟨[], rfl, Nat.zero_le _⟩)
  | clientFails up down buf rest hbuf => exact absurd rfl (hwrites _ rfl (by simp [hbuf]))
  | clientReads up part down client daemon hreading hpart hmax =>
    obtain ⟨buf, rfl, hlen⟩ := hbuf client hsipping hreading
    rcases hreads rfl with ⟨hdown, -⟩ | ⟨seen, rest, hseen, hdaemon, hall⟩
    · exact absurd (List.append_eq_nil_iff.mp hdown).1 hpart
    · obtain rfl := head_seen answer hgood seen _ buf hall hseen.symm
      refine sipping_head answer hgood hlarge (seen ++ part) (down ++ rest) ?_ ?_
      · rw [← hall]
        simp only [List.append_assoc]
      · simp only [List.length_append] at hsip ⊢
        omega
  | clientEnds up client daemon hreading hgone =>
    obtain ⟨buf, rfl, hlen⟩ := hbuf client hsipping hreading
    rcases hreads rfl with ⟨-, hreading'⟩ | ⟨seen, rest, hseen, hdaemon, hall⟩
    · rcases hgone with rfl | rfl <;> cases hreading'
    · -- the whole answer is longer than what the client has read
      obtain rfl := head_seen answer hgood seen _ buf hall hseen.symm
      have hrest : rest = [] := by
        rcases hdaemon with ⟨outcome, pending, hwriting, -⟩ | ⟨-, hrest⟩
        · rcases hgone with rfl | rfl <;> cases hwriting
        · exact hrest
      have hwhole := congrArg List.length hall
      unfold Fits at hlarge
      simp only [hrest, answerBytes, List.length_append, List.length_nil] at hwhole
      omega
  | daemonReads => exact hsipping
  | daemonEnds => exact hsipping
  | daemonWrites => exact hsipping
  | daemonWrote => exact hsipping
  | daemonFails => exact hsipping
  | daemonShuts => exact hsipping
  | daemonCloses => exact hsipping

end Sips

section Lost

variable (m : Mint) (cap : Capacity) (headers : List Header) (body : Bytes)

theorem large_answer_lost (hask : Askable m headers body) (hlarge : ¬ Fits (respond m headers body)) :
    ∃ steps final, Path (Step m cap) (Duplex.start m.boundMethod m.boundTarget headers body) steps final ∧
      Stuck (Step m cap) final ∧ final.client = .returned (.error (.err (.http .headTooLarge))) := by
  have hgood := respond_good m headers body
  have hanswers := asked_answers m headers body hask
  obtain ⟨steps, final, hpath, hstuck⟩ := exists_complete work
    (fun d d' (hsip : Sip m cap d d') => step_works m cap d d' hsip.1)
    (Duplex.start m.boundMethod m.boundTarget headers body)
  have hrun : Path (Step m cap) _ steps final := path_mono (fun d d' hsip => hsip.1) hpath
  have hcomplete := stuck_of_sip m cap final hstuck
  have hstart := stage_start m (asked m headers body) (answerBytes (respond m headers body))
    m.boundMethod m.boundTarget headers body rfl hanswers.nonempty
  have hlast := path_preserves
    (fun d => Stage m (asked m headers body) (answerBytes (respond m headers body)) d ∧ Sipping d.client)
    (fun d d' ⟨hstage, hsipping⟩ hsip =>
      ⟨stage_step m cap _ _ d d' hanswers hstage hsip.1,
        sipping_step _ hgood hlarge m cap _ hanswers d d' hstage hsipping hsip⟩)
    hpath ⟨hstart, .inl ⟨_, rfl⟩⟩
  refine ⟨steps, final, hrun, hcomplete, ?_⟩
  obtain ⟨r, -, -, hfinal, -⟩ := stage_stuck m cap _ _ final hanswers hlast.1 hcomplete
  rcases hlast.2 with ⟨pending, hwriting⟩ | ⟨buf, hreading, -⟩ | hlost
  · rw [hfinal] at hwriting
    cases hwriting
  · rw [hfinal] at hreading
    cases hreading
  · exact hlost

end Lost

/-- **An honest request is answered**: the runs of the two programs end, whatever the order of their
steps and the sizes of their reads and writes, and all of them end with the answer at the client and the
daemon closed, if and only if the client has room for the head of the answer. -/
theorem honest_request_answered_iff (config : Config) (m t boundMethod : Text) (url : Url)
    (headers : List Header) (body : Bytes)
    (hresolve : config.grant.resolve config.parseUrl m t = .ok (boundMethod, url))
    (hheaders : Sendable headers) (hbody : body.length ≤ config.grant.maxRequestBody.toNat)
    (hfits : (requestHead boundMethod (boundTargetOf config.grant t) headers body.length).length ≤
      maxHeadLen) (cap : Capacity) :
    let minted : Mint := ⟨config, boundMethod, boundTargetOf config.grant t, url⟩
    (¬ ∃ f : Nat → Duplex, ∀ n, Step minted cap (f n) (f (n + 1))) ∧
    ((∀ steps final,
        Path (Step minted cap) (Duplex.start boundMethod minted.boundTarget headers body) steps final →
        Stuck (Step minted cap) final → final = answeredWith (respond minted headers body)) ↔
      Fits (respond minted headers body)) := by
  intro minted
  refine ⟨runs_end minted cap, ?_⟩
  have hask := askable_of_resolve config m t boundMethod url headers body hresolve hheaders hbody hfits
  constructor
  · intro hall
    by_contra hlarge
    obtain ⟨steps, final, hrun, hcomplete, hlost⟩ := large_answer_lost minted cap headers body hask hlarge
    rw [hall steps final hrun hcomplete] at hlost
    cases hlost
  · intro hfits steps final hrun hcomplete
    exact asked_answered minted cap headers body hask hfits steps final hrun hcomplete

def plainMint : Mint :=
  ⟨configFor (answerWith plainName (ascii "v")), ascii "GET", ascii "/x", bareCall.url⟩

theorem honest_request_answered_iff_plain :
    ∃ steps final, Path (Step plainMint roomy) (Duplex.start (ascii "GET") (ascii "/x") [] []) steps final ∧
      Stuck (Step plainMint roomy) final ∧ final = answeredWith (respond plainMint [] []) := by
  have hsendable : Sendable [] := ⟨by decide, nofun, nofun, nofun, nofun⟩
  have hiff := (honest_request_answered_iff plainMint.config (ascii "GET") (ascii "/x") (ascii "GET")
    bareCall.url [] [] (by decide +kernel) hsendable (by decide) (by decide) roomy).2
  obtain ⟨steps, final, hrun, hcomplete⟩ := exists_complete work (step_works plainMint roomy)
    (Duplex.start (ascii "GET") (ascii "/x") [] [])
  exact ⟨steps, final, hrun, hcomplete, hiff.mpr (by decide +kernel) steps final hrun hcomplete⟩

end Capcurl.Delivery
