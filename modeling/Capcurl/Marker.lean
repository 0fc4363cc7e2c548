import Capcurl.Relay

/-! # The refusal marker -/

namespace Capcurl.Marker

open Lib Http Policy Capcurl.Core Spec ResponseCodec Session Relay

def marker : Text := ascii "x-capcurl-refused"

/-- The origin answers what the connection asks for, if it asks for anything, without a field of the
marker's name that the daemon would pass on. -/
def Unmarked (config : Config) (w : World) : Prop :=
  ∀ call response, AsksFor config w call → fetchOf config call = .ok response →
    ∀ f ∈ relayHeaders response.headers, eqIgnoreCase f.1 marker = false

/-- The daemon ended the session with an error, for which it writes a refusal. -/
def Refused (config : Config) (w : World) : Prop :=
  ∃ e w', serveConnection config w = .error (.err e) w'

/-! ## Reading the marker -/

theorem responseOf_refused (head : ResponseHead) (body : Bytes) :
    (responseOf head body).refused = true ↔ ∃ f ∈ head.headers, eqIgnoreCase f.1 marker = true := by
  have hlength : eqIgnoreCase (lengthField body.length).1 marker = false := by
    simp only [lengthField]
    decide
  have hclose : eqIgnoreCase closeField.1 marker = false := by decide
  have hread : (responseOf head body).refused = true ↔
      ∃ f ∈ readFields head body.length, eqIgnoreCase f.1 marker = true :=
    header_isSome_iff (readFields head body.length) marker
  rw [hread]
  constructor
  · rintro ⟨f, hf, hmarker⟩
    rcases List.mem_append.mp hf with hf | hf
    · obtain ⟨g, hg, rfl⟩ := List.mem_map.mp hf
      exact ⟨g, hg, hmarker⟩
    · rcases List.mem_pair.mp hf with rfl | rfl
      · rw [hlength] at hmarker
        cases hmarker
      · rw [hclose] at hmarker
        cases hmarker
  · rintro ⟨f, hf, hmarker⟩
    exact ⟨(f.1, trim f.2), List.mem_append_left _ (List.mem_map_of_mem hf), hmarker⟩

theorem refusal_head (status : UInt16) (reason detail : Text)
    (h : 100 ≤ status.toNat ∧ status.toNat ≤ 999) :
    Encodable (ResponseHead.refusal status reason detail).1 ∧
      NoLength (ResponseHead.refusal status reason detail).1 ∧
      ∃ f ∈ (ResponseHead.refusal status reason detail).1.headers, eqIgnoreCase f.1 marker = true := by
  have hfields : ∀ f ∈ (ResponseHead.refusal status reason detail).1.headers,
      f = (ascii "Content-Type", ascii "text/plain; charset=utf-8") ∨
        f = (ascii "X-Capcurl-Refused", ascii "1") := fun f hf => List.mem_pair.mp hf
  refine ⟨⟨h, ?_⟩, ?_, ⟨(ascii "X-Capcurl-Refused", ascii "1"), by simp [ResponseHead.refusal], by decide⟩⟩
  · intro f hf
    rcases hfields f hf with rfl | rfl
    · exact ⟨⟨by decide, by decide⟩, by decide⟩
    · exact ⟨⟨by decide, by decide⟩, by decide⟩
  · intro f hf
    rcases hfields f hf with rfl | rfl
    · decide
    · decide

theorem refusalFor_refusal (e : CoreError) :
    ∃ status reason detail, (100 ≤ status.toNat ∧ status.toNat ≤ 999) ∧
      refusalFor e = ResponseHead.refusal status reason detail := by
  have hcodes : ∀ code ∈ [(400 : UInt16), 403, 413, 500, 502], 100 ≤ code.toNat ∧ code.toNat ≤ 999 := by
    intro code hcode
    simp only [List.mem_cons, List.not_mem_nil, or_false] at hcode
    rcases hcode with rfl | rfl | rfl | rfl | rfl <;> decide
  unfold refusalFor
  split
  · refine ⟨_, _, _, hcodes _ ?_, rfl⟩
    split <;> simp
  all_goals exact ⟨_, _, _, hcodes _ (by simp), rfl⟩

/-! ## What reaches the client -/

theorem read_part (head : ResponseHead) (body part x : Bytes) (s s' : Stream) (r : Response)
    (henc : Encodable head) (hno : NoLength head)
    (hpart : part ++ x = head.encode body.length ++ body) (hne : ∀ q ∈ s.reads, q ≠ [])
    (hreads : s.reads.flatten <+: part) (hread : readResponse s = .ok r s') :
    x = [] ∧ r = responseOf head body := by
  obtain ⟨y, hy⟩ := hreads
  have hwhole : s.reads.flatten ++ (y ++ x) = head.encode body.length ++ body := by
    rw [← List.append_assoc, hy, hpart]
  rcases readResponse_cases head body henc hno s (y ++ x) hne hwhole with
    ⟨e, s'', herror⟩ | ⟨hnil, s'', hok⟩
  · rw [herror] at hread
    cases hread
  · rw [hok] at hread
    cases hread
    exact ⟨(List.append_eq_nil_iff.mp hnil).2, rfl⟩

theorem read_nothing (s s' : Stream) (r : Response) (hne : ∀ q ∈ s.reads, q ≠ [])
    (hreads : s.reads.flatten <+: []) (hread : readResponse s = .ok r s') : False := by
  obtain ⟨henc, hno, -⟩ := refusal_head 500 [] [] (by decide)
  obtain ⟨hnil, -⟩ := read_part _ [] [] _ s s' r henc hno (List.nil_append _) hne hreads hread
  revert hnil
  simp [ResponseHead.encode, ascii]

theorem read_refusal (e : CoreError) (part : Bytes) (s s' : Stream) (r : Response)
    (hpart : part <+: refusalBytes e) (hne : ∀ q ∈ s.reads, q ≠ []) (hreads : s.reads.flatten <+: part)
    (hread : readResponse s = .ok r s') : r.refused = true := by
  obtain ⟨status, reason, detail, hstatus, heq⟩ := refusalFor_refusal e
  obtain ⟨henc, hno, hmarker⟩ := refusal_head status reason detail hstatus
  obtain ⟨x, hx⟩ := hpart
  unfold refusalBytes at hx
  rw [heq] at hx
  obtain ⟨-, rfl⟩ := read_part _ _ part x s s' r henc hno hx hne hreads hread
  exact (responseOf_refused _ _).mpr hmarker

theorem sanitizeReason_length (reason : Text) : (sanitizeReason reason).length ≤ 64 := by
  unfold sanitizeReason
  simp only
  split
  · decide
  · exact List.length_take_le _ _

theorem refusal_fits (status : UInt16) (reason detail : Text) (hstatus : status.toNat ≤ 999)
    (hlen : (ResponseHead.refusal status reason detail).2.length < u64Bound) :
    ((ResponseHead.refusal status reason detail).1.encode
      (ResponseHead.refusal status reason detail).2.length).length ≤ maxHeadLen + 1 := by
  have hreason := sanitizeReason_length reason
  have hdigits := decimal_length_le 3 status.toNat (by omega) (by omega)
  have hbody := decimal_length_le 20 _ (by omega) (Nat.lt_trans hlen (by decide))
  have hfields : ([(ascii "Content-Type", ascii "text/plain; charset=utf-8"),
      (ascii "X-Capcurl-Refused", ascii "1")].flatMap fun field => headerLine field ++ crlf).length = 63 := by
    decide
  have htexts : (ascii "HTTP/1.1 ").length = 9 ∧ (ascii " ").length = 1 ∧
      (ascii "Content-Length: ").length = 16 ∧ (ascii "Connection: close").length = 17 := by decide
  have hhead : (ResponseHead.refusal status reason detail).1 =
    ⟨status, reason, [(ascii "Content-Type", ascii "text/plain; charset=utf-8"),
      (ascii "X-Capcurl-Refused", ascii "1")]⟩ := rfl
  rw [hhead]
  simp only [ResponseHead.encode, List.length_append, hfields, htexts, crlf_length, maxHeadLen]
  omega

theorem read_whole_refusal (e : CoreError) (hlen : (refusalFor e).2.length < u64Bound) (s : Stream)
    (hs : Segmented maxRead (refusalBytes e) s.reads) :
    ∃ s', readResponse s = .ok (responseOf (refusalFor e).1 (refusalFor e).2) s' ∧
      (responseOf (refusalFor e).1 (refusalFor e).2).refused = true := by
  have hall := hs.flatten
  unfold refusalBytes at hall
  obtain ⟨status, reason, detail, hstatus, heq⟩ := refusalFor_refusal e
  obtain ⟨henc, hno, hmarker⟩ := refusal_head status reason detail hstatus
  rw [heq] at hlen hall ⊢
  obtain ⟨s', hok⟩ := readResponse_ok _ _ henc hno hlen (refusal_fits status reason detail hstatus.2 hlen) s
    hs.nonempty hall
  exact ⟨s', hok, (responseOf_refused _ _).mpr hmarker⟩

theorem read_answered (e : Halt CoreError) (w : World) (s s' : Stream) (r : Response)
    (hne : ∀ q ∈ s.reads, q ≠ [])
    (hreads : s.reads.flatten <+: (finalState (answered (.error e w))).stream.written)
    (hfresh : w.stream.written = []) (hread : readResponse s = .ok r s') :
    r.refused = true ∧ ∃ e' w', answered (.error e w) = .error (.err e') w' := by
  cases e with
  | err e =>
    obtain ⟨part, room, hpart, hreported⟩ := reported_cases e w
    rw [answered, finalState, hreported, wrote, hfresh, List.nil_append] at hreads
    exact ⟨read_refusal e part s s' r hpart hne hreads hread, e, _, rfl⟩
  | panic =>
    rw [answered, finalState, hfresh] at hreads
    · exact (read_nothing s s' r hne hreads hread).elim
    · simp
  | fuel =>
    rw [answered, finalState, hfresh] at hreads
    · exact (read_nothing s s' r hne hreads hread).elim
    · simp

theorem run_marker (config : Config) (w : World) (result : EStateM.Result (Halt CoreError) World Unit)
    (hrun : Run config w result) (hfresh : w.stream.written = [])
    (s s' : Stream) (r : Response) (hread : readResponse s = .ok r s') (hne : ∀ q ∈ s.reads, q ≠ [])
    (hreads : s.reads.flatten <+: (finalState result).stream.written) :
    (r.refused = true ↔ ∃ e w', result = .error (.err e) w') ↔ Unmarked config w := by
  cases hrun with
  | unminted e t hsilent =>
    simp only [finalState, hfresh] at hreads
    exact (read_nothing s s' r hne hreads hread).elim
  | deaf m t bound url tr e hmint hresolve hsent =>
    simp only [finalState, hfresh] at hreads
    exact (read_nothing s s' r hne hreads hread).elim
  | minted m t bound url tr result hmint hresolve hsent hserved =>
    have hasks : ∀ call, AsksFor config w call →
        ∃ unread, Admitted config bound (boundTargetOf config.grant t) url w.stream call unread :=
      fun call => admitted_of_asksFor config w m t bound url call hmint hresolve
    cases hserved with
    | stopped e unread hwhy =>
      obtain ⟨hrefused, herror⟩ := read_answered e _ s s' r hne hreads hfresh hread
      have hnone : Unmarked config w := by
        intro call response hcall
        obtain ⟨unread', hcall⟩ := hasks call hcall
        exact absurd hcall (not_admitted_of_stopped _ _ _ url _ _ _ _ _ hwhy)
      exact ⟨fun _ => hnone, fun _ => iff_of_true hrefused herror⟩
    | failed call unread e hcall hfetch =>
      obtain ⟨hrefused, herror⟩ := read_answered (.err e) _ s s' r hne hreads hfresh hread
      have hnone : Unmarked config w := by
        intro call' response hcall' hfetch'
        obtain ⟨unread', hcall'⟩ := hasks call' hcall'
        rw [admitted_unique _ _ _ _ _ _ _ _ _ hcall hcall', hfetch] at hfetch'
        cases hfetch'
      exact ⟨fun _ => hnone, fun _ => iff_of_true hrefused herror⟩
    | relayed call unread response room hcall hfetch =>
      have hwritten : s.reads.flatten <+: relayBytes response := by
        simpa [answered, finalState, wrote, called, hfresh] using hreads
      obtain ⟨-, rfl⟩ := read_part _ _ _ [] s s' r (relayHead_encodable response)
        (relayHead_noLength response) (List.append_nil _) hne hwritten hread
      have hno : ¬ ∃ e w', answered (.ok () (wrote (called { w with transport := tr } unread call)
          (relayBytes response) room)) = .error (.err e) w' := by
        rintro ⟨e, w', h⟩
        cases h
      have hmarked : Unmarked config w ↔
          ∀ f ∈ relayHeaders response.headers, eqIgnoreCase f.1 marker = false := by
        constructor
        · intro h
          exact h call response ⟨m, t, bound, url, unread, hmint, hresolve, hcall⟩ hfetch
        · intro h call' response' hcall' hfetch'
          obtain ⟨unread', hcall'⟩ := hasks call' hcall'
          rw [admitted_unique _ _ _ _ _ _ _ _ _ hcall hcall', hfetch, Except.ok.injEq] at hfetch'
          rw [← hfetch']
          exact h
      have hiff := responseOf_refused (relayHead response) response.body
      constructor
      · intro h
        refine hmarked.mpr fun f hf => ?_
        by_contra hmarker
        exact hno (h.mp (hiff.mpr ⟨f, hf, by simpa using hmarker⟩))
      · intro h
        refine iff_of_false (fun hrefused => ?_) hno
        obtain ⟨f, hf, hmarker⟩ := hiff.mp hrefused
        rw [hmarked.mp h f hf] at hmarker
        cases hmarker
    | cut call unread response e part x hcall hfetch hpart hx =>
      rw [answered, reported_gone _ _ rfl] at hreads
      have hwritten : s.reads.flatten <+: part := by
        simpa [finalState, wrote, called, hfresh] using hreads
      obtain ⟨hnil, -⟩ := read_part _ _ part x s s' r (relayHead_encodable response)
        (relayHead_noLength response) hpart hne hwritten hread
      exact absurd hnil hx

/-- **The marker** says that the daemon refused, in the sessions in which the origin's answer does not
have it, and in no others. -/
theorem refused_iff_unmarked (config : Config) (w : World) (hfresh : w.stream.written = [])
    (method target : Text) (headers : List Header) (body : Bytes) (s s' : Stream) (r : Response)
    (hne : ∀ q ∈ s.reads, q ≠ [])
    (hreads : s.reads.flatten <+: (finalState (serveConnection config w)).stream.written)
    (hresponse : requestOverFd method target headers body s = .ok r s') :
    (r.refused = true ↔ Refused config w) ↔ Unmarked config w := by
  rcases requestOverFd_cases method target headers body s with ⟨room, h⟩ | ⟨part, x, -, -, h⟩
  · rw [h] at hresponse
    exact run_marker config w _ (serveConnection_cases config w) hfresh _ s' r hresponse hne hreads
  · rw [h] at hresponse
    cases hresponse

/-! ## A session with an origin that has the marker, and with one that has not -/

def bareSession (answer : OriginResponse) : Option (World × Response) :=
  match serveConnection (configFor answer) bareWorld with
  | .ok () w =>
    match requestOverFd (ascii "GET") (ascii "/x") [] [] { bareWorld.stream with reads := [w.stream.written] } with
    | .ok r _ => some (w, r)
    | .error _ _ => none
  | .error _ _ => none

theorem bareSession_runs (answer : OriginResponse) (refused : Bool)
    (h : (bareSession answer).map (fun p => (p.1.stream.written.isEmpty, p.2.refused)) =
      some (false, refused)) :
    ∃ w r s', serveConnection (configFor answer) bareWorld = .ok () w ∧ w.stream.written ≠ [] ∧
      requestOverFd (ascii "GET") (ascii "/x") [] []
        { bareWorld.stream with reads := [w.stream.written] } = .ok r s' ∧ r.refused = refused := by
  obtain ⟨⟨w, r⟩, hsession, hboth⟩ := Option.map_eq_some_iff.mp h
  obtain ⟨hwritten, hrefused⟩ := Prod.mk.inj hboth
  unfold bareSession at hsession
  split at hsession
  · rename_i w₁ hserve
    split at hsession
    · rename_i r₁ s₁ hrequest
      cases hsession
      exact ⟨w, r, s₁, hserve, List.isEmpty_eq_false_iff.mp hwritten, hrequest, hrefused⟩
    · cases hsession
  · cases hsession

theorem refused_iff_unmarked_plain :
    ∃ w r s', serveConnection (configFor (answerWith plainName (ascii "v"))) bareWorld = .ok () w ∧
      requestOverFd (ascii "GET") (ascii "/x") [] []
        { bareWorld.stream with reads := [w.stream.written] } = .ok r s' ∧
      (r.refused = true ↔ Refused (configFor (answerWith plainName (ascii "v"))) bareWorld) := by
  obtain ⟨w, r, s', hserve, hwritten, hrequest, -⟩ :=
    bareSession_runs (answerWith plainName (ascii "v")) false (by decide +kernel)
  refine ⟨w, r, s', hserve, hrequest, ?_⟩
  refine (refused_iff_unmarked (configFor (answerWith plainName (ascii "v"))) bareWorld rfl _ _ _ _ _ s' r
    ?_ ?_ hrequest).mpr ?_
  · intro q hq
    rw [List.mem_singleton.mp hq]
    exact hwritten
  · rw [hserve]
    simp [finalState]
  · intro call response _ hfetch f hf
    obtain ⟨request, answer, pieces, -, hsend, -, rfl, -⟩ := fetch_ok _ call response hfetch
    have hanswer : answerWith plainName (ascii "v") = answer := Except.ok.inj hsend
    rw [← hanswer] at hf
    have hfields := answerWith_fields (ascii "v") (by decide)
    change f ∈ relayHeaders (answerWith plainName (ascii "v")).headers at hf
    rw [hfields] at hf
    rw [List.mem_singleton.mp hf]
    decide

def markerName : HeaderName := ⟨marker, by decide, by decide, by decide⟩

/-- The origin's own marker passes for the daemon's. -/
theorem marker_forged :
    ∃ w r s', serveConnection (configFor (answerWith markerName (ascii "0"))) bareWorld = .ok () w ∧
      requestOverFd (ascii "GET") (ascii "/x") [] []
        { bareWorld.stream with reads := [w.stream.written] } = .ok r s' ∧
      ¬ (r.refused = true ↔ Refused (configFor (answerWith markerName (ascii "0"))) bareWorld) := by
  obtain ⟨w, r, s', hserve, -, hrequest, hrefused⟩ :=
    bareSession_runs (answerWith markerName (ascii "0")) true (by decide +kernel)
  refine ⟨w, r, s', hserve, hrequest, fun hiff => ?_⟩
  obtain ⟨e, w', herror⟩ := hiff.mp hrefused
  rw [hserve] at herror
  cases herror

end Capcurl.Marker
