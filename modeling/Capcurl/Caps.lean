import Capcurl.Chunked
import Capcurl.Confinement
import Capcurl.Marker

/-! # The caps on bodies -/

namespace Capcurl.Caps

open Lib Http Policy Capcurl.Core Spec Chunked ReadLoop Session Confinement Relay Marker

/-! ## The request's body -/

/-- What a framing makes of the bytes behind the head. -/
def IsBody : Framing → Bytes → Bytes → Prop
  | .none, _, b => b = []
  | .length n, stream, b => b.length = n.toNat ∧ b <+: stream
  | .chunked, stream, b => ∃ e, Encodes e b ∧ e <+: stream

theorem chunkedCheck_ok (profile : Profile) (limit : UInt64) (q b : Bytes)
    (h : chunkedCheck profile limit q = some (.ok b)) :
    ∃ c, decodeChunked profile q limit = .ok (.complete b c) := by
  unfold chunkedCheck at h
  split at h
  · rename_i body c hdecode
    cases h
    exact ⟨c, hdecode⟩
  · split at h <;> cases h
  all_goals cases h

theorem readBody_capped (profile : Profile) (framing : Framing) (buf : Bytes) (limit : UInt64)
    (s s' : Stream) (b : Bytes) (hne : ∀ r ∈ s.reads, r ≠ [])
    (hlen : (buf ++ s.reads.flatten).length < u64Bound)
    (h : readBody profile framing buf limit s = .ok b s') :
    b.length ≤ limit.toNat ∧ IsBody framing (buf ++ s.reads.flatten) b := by
  have hloop : ∀ (check : Bytes → Option (Except (Halt CoreError) Bytes)) ended,
      readLoop check ended buf s = .ok b s' → ∃ q, check q = some (.ok b) ∧ q <+: buf ++ s.reads.flatten := by
    intro check ended hrun
    rcases readLoop_cases check ended buf s hne with
      ⟨e, unread, herror, -⟩ | ⟨b', seen, unread, hok, hcheck, hseen, -⟩
    · rw [herror] at hrun
      cases hrun
    · rw [hok, EStateM.Result.ok.injEq] at hrun
      rw [hrun.1] at hcheck
      refine ⟨_, hcheck, unread.flatten, ?_⟩
      rw [List.append_assoc, hseen]
  cases framing with
  | none =>
    cases h
    exact ⟨Nat.zero_le _, rfl⟩
  | length n =>
    unfold readBody at h
    simp only at h
    split at h
    · cases h
    · rename_i hlimit
      obtain ⟨q, hcheck, hq⟩ := hloop _ _ h
      obtain ⟨hle, hb⟩ := lengthCheck_eq n.toNat q _ hcheck
      have htake := Except.ok.inj hb
      have hlength : b.length = n.toNat := by rw [htake, List.length_take, Nat.min_eq_left hle]
      refine ⟨?_, hlength, ?_⟩
      · rw [hlength]
        exact UInt64.le_iff_toNat_le.mp (UInt64.not_lt.mp hlimit)
      · rw [htake]
        exact (List.take_prefix _ _).trans hq
  | chunked =>
    obtain ⟨q, hcheck, hq⟩ := hloop _ _ h
    obtain ⟨c, hdecode⟩ := chunkedCheck_ok profile limit q b hcheck
    obtain ⟨e, rest, rfl, he, hlimit, -⟩ :=
      decode_complete profile limit q (Nat.lt_of_le_of_lt hq.length_le hlen) b c hdecode
    exact ⟨hlimit, e, he, (List.prefix_append e rest).trans hq⟩

theorem readHead_splits (s : Stream) (hne : ∀ r ∈ s.reads, r ≠ []) (head : RequestHead) (leftover : Bytes)
    (rest : List Bytes) (h : readHead s = .ok (head, leftover) { s with reads := rest }) :
    leftover ++ rest.flatten <:+ s.reads.flatten ∧ rest <:+ s.reads := by
  unfold readHead at h
  rcases readLoop_cases headCheck _ [] s hne with
    ⟨e, unread, herror, -⟩ | ⟨v, seen, unread, hok, hcheck, hseen, hsuf⟩
  · rw [herror] at h
    cases h
  · rw [hok, EStateM.Result.ok.injEq] at h
    obtain ⟨rfl, hstream⟩ := h
    have hrest : unread = rest := congrArg Stream.reads hstream
    subst hrest
    refine ⟨?_, hsuf⟩
    unfold headCheck at hcheck
    split at hcheck
    · rename_i stop _
      split at hcheck
      · have hleft := congrArg Prod.snd (Except.ok.inj (Option.some.inj hcheck))
        simp only [List.nil_append] at hleft
        rw [← hleft, ← hseen]
        refine ⟨seen.take stop, ?_⟩
        rw [← List.append_assoc, List.take_append_drop]
      · cases hcheck
    · split at hcheck <;> cases hcheck

/-! ## The answer's body -/

theorem readCapped_eq (limit : UInt64) (body : Bytes) (pieces : List Bytes)
    (rest : List (Except ReqwestError Bytes)) (hbody : body.length ≤ limit.toNat) :
    readCapped limit body (pieces.map .ok ++ rest) =
      if (body ++ pieces.flatten).length ≤ limit.toNat then readCapped limit (body ++ pieces.flatten) rest
      else .error (.denied (.tooLarge .response limit)) := by
  induction pieces generalizing body with
  | nil => rw [List.flatten_nil, List.append_nil, if_pos hbody, List.map_nil, List.nil_append]
  | cons piece pieces ih =>
    rw [List.map_cons, List.cons_append, readCapped, List.flatten_cons, ← List.append_assoc]
    by_cases hover : body.length + piece.length > limit.toNat
    · rw [if_pos hover, if_neg]
      · rfl
      · rw [List.length_append, List.length_append]
        omega
    · rw [if_neg hover]
      exact ih (body ++ piece) (by rw [List.length_append]; omega)

/-- The origin answers a call with more than the limit allows. -/
def Overflowing (config : Config) (call : FetchCall) : Prop :=
  ∃ request answer, ∃ pieces : List Bytes, ∃ rest,
    requestOf config.net call = .ok request ∧ config.net.send request = .ok answer ∧
      answer.chunks = pieces.map .ok ++ rest ∧
      config.grant.maxResponseBody.toNat < pieces.flatten.length

/-- The refusal of an answer. -/
def answerTooLarge (config : Config) : CoreError :=
  .denied (.tooLarge .response config.grant.maxResponseBody)

theorem fetch_overflowing (config : Config) (call : FetchCall) (h : Overflowing config call) :
    fetchOf config call = .error (answerTooLarge config) := by
  obtain ⟨request, answer, pieces, rest, hrequest, hsend, hchunks, hlimit⟩ := h
  have hcapped : readCapped config.grant.maxResponseBody [] answer.chunks =
      .error (answerTooLarge config) := by
    rw [hchunks, readCapped_eq _ _ _ _ (Nat.zero_le _), if_neg]
    · rfl
    · rw [List.nil_append]
      exact Nat.not_le.mpr hlimit
  rw [fetchOf_eq, hrequest, ok_bind, hsend, responseTo, Except.mapError, ok_bind]
  simp only [hcapped, error_bind]
  split
  · split <;> rfl
  · rfl

theorem answerTooLarge_short (config : Config) :
    (refusalFor (answerTooLarge config)).2.length < u64Bound := by
  have hlimit : config.grant.maxResponseBody.toNat < 10 ^ 20 :=
    Nat.lt_trans config.grant.maxResponseBody.toNat_lt (by decide)
  have hdigits := decimal_length_le 20 _ (by omega) hlimit
  have hbody : (refusalFor (answerTooLarge config)).2 =
      ascii "capcurl: " ++ (WhichBody.response.text ++ ascii " body exceeds the " ++
        decimal config.grant.maxResponseBody.toNat ++ ascii "-byte limit of this capability") ++
          ascii "\n" := rfl
  have htexts : (ascii "capcurl: ").length = 9 ∧ WhichBody.response.text.length = 8 ∧
      (ascii " body exceeds the ").length = 18 ∧
      (ascii "-byte limit of this capability").length = 30 ∧ (ascii "\n").length = 1 := by decide
  have hbound : 86 < u64Bound := by decide
  rw [hbody]
  simp only [List.length_append, htexts]
  omega

/-! ## A session -/

theorem run_called (config : Config) (w : World) (call : FetchCall)
    (r : EStateM.Result (Halt CoreError) World Unit) (hrun : Run config w r)
    (hcall : (finalState r).fetches = w.fetches ++ [call]) :
    AsksFor config w call ∧
      ∀ e, fetchOf config call = .error e →
        result r = .error (.err e) ∧
          ∃ part, part <+: refusalBytes e ∧
            (finalState r).stream.written = w.stream.written ++ part ∧
            (w.stream.room = none → part = refusalBytes e) := by
  have hnone : ¬ w.fetches = w.fetches ++ [call] := by simp
  cases hrun with
  | unminted e t hsilent => exact absurd hcall hnone
  | deaf m target boundMethod url t e hmint hresolve hsent => exact absurd hcall hnone
  | minted m target boundMethod url t r hmint hresolve hsent hserved =>
    rw [(answered_frame r).1] at hcall
    have hasks : ∀ call' unread, Admitted config boundMethod (boundTargetOf config.grant target) url
        w.stream call' unread → w.fetches ++ [call'] = w.fetches ++ [call] →
          call' = call ∧ AsksFor config w call := by
      intro call' unread hadmitted heq
      have hsame : call' = call := by simpa using heq
      rw [hsame] at hadmitted
      exact ⟨hsame, m, target, boundMethod, url, unread, hmint, hresolve, hadmitted⟩
    cases hserved with
    | stopped e unread hwhy => exact absurd hcall hnone
    | failed call' unread e hadmitted hfetch =>
      obtain ⟨rfl, hask⟩ := hasks call' unread hadmitted hcall
      refine ⟨hask, fun e' he' => ?_⟩
      rw [hfetch, Except.error.injEq] at he'
      subst he'
      obtain ⟨part, room, hpart, hreported⟩ := reported_cases e (called { w with transport := t } unread call')
      refine ⟨rfl, part, hpart, by rw [answered, hreported]; rfl, fun hroom => ?_⟩
      have hopen := reported_open e (called { w with transport := t } unread call') hroom
      have hwritten := congrArg (fun v : World => v.stream.written) (hreported.symm.trans hopen)
      simpa [wrote, called] using hwritten
    | relayed call' unread response room hadmitted hfetch =>
      obtain ⟨rfl, hask⟩ := hasks call' unread hadmitted hcall
      refine ⟨hask, fun e he => ?_⟩
      rw [hfetch] at he
      cases he
    | cut call' unread response e part x hadmitted hfetch hpart hx =>
      obtain ⟨rfl, hask⟩ := hasks call' unread hadmitted hcall
      refine ⟨hask, fun e he => ?_⟩
      rw [hfetch] at he
      cases he

theorem client_reads_tooLarge (config : Config) (method target : Text) (headers : List Header) (body : Bytes)
    (s : Stream) (hroom : s.room = none)
    (hs : Segmented maxRead (refusalBytes (answerTooLarge config)) s.reads) :
    ∃ r s', requestOverFd method target headers body s = .ok r s' ∧ r.status = 502 ∧ r.refused = true := by
  have hwrite : requestOverFd method target headers body s =
      readResponse { s with written := s.written ++ requestHead method target headers body.length ++ body } := by
    have hbody := writeAll_open body
      { s with written := s.written ++ requestHead method target headers body.length } hroom
    unfold requestOverFd
    rw [run_bind_ok _ _ _ _ _ (writeAll_open _ s hroom)]
    exact run_bind_ok _ _ _ _ _ hbody
  obtain ⟨s', hok, hrefused⟩ := read_whole_refusal (answerTooLarge config) (answerTooLarge_short config)
    { s with written := s.written ++ requestHead method target headers body.length ++ body } hs
  exact ⟨_, s', hwrite.trans hok, rfl, hrefused⟩

/-- **Bodies are capped and whole.** What `read_body` returns is the body by its framing, and within the
limit; so is what `fetch` is called with. An answer is read to its end, or it is refused without a byte
of it. -/
theorem bodies_capped (config : Config) (w : World) (hne : ∀ r ∈ w.stream.reads, r ≠ [])
    (hlen : w.stream.reads.flatten.length < u64Bound) :
    (∀ framing buf (s s' : Stream) b, (∀ r ∈ s.reads, r ≠ []) →
      (buf ++ s.reads.flatten).length < u64Bound →
      readBody config.profile framing buf config.grant.maxRequestBody s = .ok b s' →
        b.length ≤ config.grant.maxRequestBody.toNat ∧ IsBody framing (buf ++ s.reads.flatten) b) ∧
    (∀ pieces : List Bytes, readCapped config.grant.maxResponseBody [] (pieces.map .ok) =
      if pieces.flatten.length ≤ config.grant.maxResponseBody.toNat then .ok pieces.flatten
      else .error (answerTooLarge config)) ∧
    ∀ call, (finalState (serveConnection config w)).fetches = w.fetches ++ [call] →
      (∃ head leftover s, readHead w.stream = .ok (head, leftover) s ∧
        call.body.length ≤ config.grant.maxRequestBody.toNat ∧
        IsBody head.framing (leftover ++ s.reads.flatten) call.body) ∧
      (Overflowing config call →
        result (serveConnection config w) = .error (.err (answerTooLarge config)) ∧
        (∃ part, part <+: refusalBytes (answerTooLarge config) ∧
          (finalState (serveConnection config w)).stream.written = w.stream.written ++ part ∧
          (w.stream.room = none → part = refusalBytes (answerTooLarge config))) ∧
        ∀ method target headers body (s : Stream), s.room = none →
          Segmented maxRead (refusalBytes (answerTooLarge config)) s.reads →
          ∃ r s', requestOverFd method target headers body s = .ok r s' ∧ r.status = 502 ∧
            r.refused = true) := by
  refine ⟨fun framing buf s s' b => readBody_capped config.profile framing buf _ s s' b,
    fun pieces => ?_, fun call hcall => ?_⟩
  · have hread := readCapped_eq config.grant.maxResponseBody [] pieces [] (Nat.zero_le _)
    rw [List.append_nil, List.nil_append] at hread
    exact hread
  · obtain ⟨hasks, hfailed⟩ := run_called config w call _ (serveConnection_cases config w) hcall
    constructor
    · obtain ⟨m, t, boundMethod, url, unread, -, -, -, -, head, leftover, rest, hhead, -, -, hbody, -⟩ := hasks
      refine ⟨head, leftover, _, hhead, ?_⟩
      obtain ⟨hsplit, hsuf⟩ := readHead_splits w.stream hne head leftover rest hhead
      refine readBody_capped config.profile head.framing leftover _ { w.stream with reads := rest } _ _
        (fun r hr => hne r (hsuf.mem hr)) ?_ hbody
      exact Nat.lt_of_le_of_lt (hsplit.length_le) hlen
    · intro hover
      obtain ⟨hresult, hwritten⟩ := hfailed _ (fetch_overflowing config call hover)
      exact ⟨hresult, hwritten, client_reads_tooLarge config⟩

/-- A capability for answers of one byte, and an origin that answers with two. -/
def stingy : Config :=
  { configFor (answerWith plainName (ascii "v")) with grant := { Join.grantBelow with maxResponseBody := 1 } }

theorem bodies_capped_stingy :
    result (serveConnection stingy bareWorld) = .error (.err (answerTooLarge stingy)) ∧
      (finalState (serveConnection stingy bareWorld)).stream.written =
        refusalBytes (answerTooLarge stingy) := by
  have hcalled : (finalState (serveConnection stingy bareWorld)).fetches = bareWorld.fetches ++ [bareCall] := by
    decide +kernel
  have hover : Overflowing stingy bareCall :=
    ⟨_, answerWith plainName (ascii "v"), [ascii "hi"], [], rfl, rfl, rfl, by decide⟩
  have hne : ∀ r ∈ bareWorld.stream.reads, r ≠ [] := by
    intro r hr
    rw [List.mem_singleton.mp hr]
    decide
  obtain ⟨hresult, ⟨part, -, hwritten, hall⟩, -⟩ :=
    ((bodies_capped stingy bareWorld hne (by decide)).2.2 bareCall hcalled).2 hover
  refine ⟨hresult, ?_⟩
  rw [hwritten, hall rfl]
  rfl

end Capcurl.Caps
