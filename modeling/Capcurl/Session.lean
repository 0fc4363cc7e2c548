import Capcurl.Core.Exchange
import Capcurl.ReadLoop

/-!
# What one connection can do

Every way a run of the daemon can go, said once: what it has sent, read, fetched and written when it
ends. Everything about runs is read off these cases.
-/

namespace Capcurl.Session

open Lib Http Policy Capcurl.Core

/-! ## The parts of the world -/

theorem onStream_ok {α : Type} (m : StreamM α) (w : World) (a : α) (s : Stream)
    (h : m w.stream = .ok a s) : onStream m w = .ok a { w with stream := s } := by
  unfold onStream
  rw [h]

theorem onStream_error {α : Type} (m : StreamM α) (w : World) (e : Halt CoreError) (s : Stream)
    (h : m w.stream = .error e s) : onStream m w = .error e { w with stream := s } := by
  unfold onStream
  rw [h]

theorem onTransport_ok {α : Type} (m : TransportM α) (w : World) (a : α) (t : Transport)
    (h : m w.transport = .ok a t) : onTransport m w = .ok a { w with transport := t } := by
  unfold onTransport
  rw [h]

theorem onTransport_error {α : Type} (m : TransportM α) (w : World) (e : Halt CoreError)
    (t : Transport) (h : m w.transport = .error e t) :
    onTransport m w = .error e { w with transport := t } := by
  unfold onTransport
  rw [h]

theorem attempt_ok {σ α : Type} (m : EStateM (Halt CoreError) σ α) (s s' : σ) (a : α) (h : m s = .ok a s') :
    attempt m s = .ok (.ok a) s' := by
  unfold attempt
  rw [h]

theorem attempt_err {σ α : Type} (m : EStateM (Halt CoreError) σ α) (s s' : σ) (e : CoreError)
    (h : m s = .error (.err e) s') : attempt m s = .ok (.error e) s' := by
  unfold attempt
  rw [h]

/-! ## Reading -/

theorem readLoop_frame {β : Type} (check : Bytes → Option (Except (Halt CoreError) β))
    (ended : Bytes → CoreError) (buf : Bytes) (s : Stream) :
    (∃ b unread, readLoop check ended buf s = .ok b { s with reads := unread }) ∨
      ∃ e unread, readLoop check ended buf s = .error e { s with reads := unread } := by
  unfold readLoop
  cases feed check buf s.reads with
  | stopped v q unread =>
    cases v with
    | ok b => exact .inl ⟨b, unread, rfl⟩
    | error e => exact .inr ⟨e, unread, rfl⟩
  | starved q => cases s.readError <;> exact .inr ⟨_, [], rfl⟩

theorem readBody_frame (profile : Profile) (framing : Framing) (buf : Bytes) (limit : UInt64)
    (s : Stream) :
    (∃ b unread, readBody profile framing buf limit s = .ok b { s with reads := unread }) ∨
      ∃ e unread, readBody profile framing buf limit s = .error e { s with reads := unread } := by
  cases framing with
  | none => exact .inl ⟨[], s.reads, rfl⟩
  | length len =>
    simp only [readBody]
    split
    · exact .inr ⟨_, s.reads, rfl⟩
    · exact readLoop_frame _ _ _ _
  | chunked => exact readLoop_frame _ _ _ _

/-! ## Writing -/

theorem writeAll_cases (bytes : Bytes) (s : Stream) :
    (∃ room, writeAll bytes s = .ok () { s with written := s.written ++ bytes, room := room }) ∨
      ∃ part x, part ++ x = bytes ∧ x ≠ [] ∧
        writeAll bytes s =
          .error (.err (.io s.writeError)) { s with written := s.written ++ part, room := some 0 } := by
  unfold writeAll
  cases hroom : s.room with
  | none => exact .inl ⟨none, by simp [← hroom]⟩
  | some room =>
    simp only
    split
    · exact .inl ⟨_, rfl⟩
    · rename_i hshort
      refine .inr ⟨bytes.take room, bytes.drop room, List.take_append_drop _ _, ?_, rfl⟩
      intro he
      have := congrArg List.length he
      rw [List.length_drop, List.length_nil] at this
      omega

theorem writeBoth_cases (a b : Bytes) (s : Stream) :
    (∃ room, (do writeAll a; writeAll b : StreamM Unit) s =
        .ok () { s with written := s.written ++ (a ++ b), room := room }) ∨
      ∃ part x, part ++ x = a ++ b ∧ x ≠ [] ∧ (do writeAll a; writeAll b : StreamM Unit) s =
        .error (.err (.io s.writeError)) { s with written := s.written ++ part, room := some 0 } := by
  rcases writeAll_cases a s with ⟨room, hfirst⟩ | ⟨part, x, hpart, hx, hfirst⟩
  · rw [run_bind_ok _ _ _ _ _ hfirst]
    rcases writeAll_cases b { s with written := s.written ++ a, room := room } with
      ⟨room', hnext⟩ | ⟨part, x, hpart, hx, hnext⟩
    · exact .inl ⟨room', by rw [hnext, List.append_assoc]⟩
    · refine .inr ⟨a ++ part, x, ?_, hx, by rw [hnext, List.append_assoc]⟩
      rw [List.append_assoc, hpart]
  · refine .inr ⟨part, x ++ b, ?_, by simp [hx], run_bind_error _ _ _ _ _ hfirst⟩
    rw [← List.append_assoc, hpart]

theorem writeResponse_cases (head : ResponseHead) (body : Bytes) (s : Stream) :
    (∃ room, writeResponse head body s =
        .ok () { s with written := s.written ++ (head.encode body.length ++ body), room := room }) ∨
      ∃ part x, part ++ x = head.encode body.length ++ body ∧ x ≠ [] ∧
        writeResponse head body s =
          .error (.err (.io s.writeError)) { s with written := s.written ++ part, room := some 0 } :=
  writeBoth_cases (head.encode body.length) body s

theorem writeAll_open (bytes : Bytes) (s : Stream) (h : s.room = none) :
    writeAll bytes s = .ok () { s with written := s.written ++ bytes } := by
  unfold writeAll
  rw [h]

theorem writeResponse_open (head : ResponseHead) (body : Bytes) (s : Stream) (h : s.room = none) :
    writeResponse head body s =
      .ok () { s with written := s.written ++ (head.encode body.length ++ body) } := by
  have hbody := writeAll_open body { s with written := s.written ++ head.encode body.length } h
  rw [List.append_assoc] at hbody
  unfold writeResponse
  rw [run_bind_ok _ _ _ _ _ (writeAll_open _ s h)]
  exact hbody

theorem writeResponse_gone (head : ResponseHead) (body : Bytes) (s : Stream) (h : s.room = some 0) :
    ∃ e, writeResponse head body s = .error (.err e) s := by
  have hne : ¬ (head.encode body.length).length ≤ 0 := by
    simp [ResponseHead.encode, ascii]
  refine ⟨.io s.writeError, ?_⟩
  unfold writeResponse
  apply run_bind_error
  unfold writeAll
  rw [h]
  simp only [if_neg hne, List.take_zero, List.append_nil]
  rw [← h]

/-! ## The client -/

theorem readResponse_frame (s : Stream) :
    ∃ unread, finalState (readResponse s) = { s with reads := unread } := by
  unfold readResponse
  rcases readLoop_frame responseHeadCheck _ [] s with ⟨⟨headEnd, buf⟩, rest, hhead⟩ | ⟨e, rest, hhead⟩
  case inr =>
    rw [run_bind_error _ _ _ _ _ hhead]
    exact ⟨rest, rfl⟩
  rw [run_bind_ok _ _ _ _ _ hhead]
  simp only
  cases parseStatusAndHeaders (buf.take headEnd) with
  | error e => exact ⟨rest, rfl⟩
  | ok parsed =>
    rw [ofExcept_ok_bind]
    cases declaredLength parsed.2.2 with
    | error e => exact ⟨rest, rfl⟩
    | ok length =>
      rw [ofExcept_ok_bind]
      rcases readLoop_frame (lengthCheck length) (fun body => closedAfter body.length length)
        (buf.drop headEnd) { s with reads := rest } with ⟨body, unread, hbody⟩ | ⟨e, unread, hbody⟩
      · rw [run_bind_ok _ _ _ _ _ hbody]
        exact ⟨unread, rfl⟩
      · rw [run_bind_error _ _ _ _ _ hbody]
        exact ⟨unread, rfl⟩

theorem requestOverFd_cases (method target : Text) (headers : List Header) (body : Bytes) (s : Stream) :
    (∃ room, requestOverFd method target headers body s = readResponse
        { s with
          written := s.written ++ (requestHead method target headers body.length ++ body)
          room := room }) ∨
      ∃ part x, part ++ x = requestHead method target headers body.length ++ body ∧ x ≠ [] ∧
        requestOverFd method target headers body s =
          .error (.err (.io s.writeError)) { s with written := s.written ++ part, room := some 0 } := by
  have hboth : requestOverFd method target headers body s = ((do
      writeAll (requestHead method target headers body.length)
      writeAll body : StreamM Unit) >>= fun _ => readResponse) s := by
    unfold requestOverFd
    rw [bind_assoc]
  rw [hboth]
  rcases writeBoth_cases (requestHead method target headers body.length) body s with
    ⟨room, h⟩ | ⟨part, x, hpart, hx, h⟩
  · exact .inl ⟨room, run_bind_ok _ _ _ _ _ h⟩
  · exact .inr ⟨part, x, hpart, hx, run_bind_error _ _ _ _ _ h⟩

/-! ## The mint -/

/-- The inbox begins with exactly `Arg m`, `Arg t`, `End`. -/
def BeginsMint (m t : Text) (inbox : List (Except Text Received)) : Prop :=
  ∃ fds₁ fds₂ fds₃ text rest,
    inbox = .ok ⟨.arg, .ok m, fds₁⟩ :: .ok ⟨.arg, .ok t, fds₂⟩ :: .ok ⟨.end_, text, fds₃⟩ :: rest

theorem beginsMint_unique (m t m' t' : Text) (inbox : List (Except Text Received))
    (h : BeginsMint m t inbox) (h' : BeginsMint m' t' inbox) : m' = m ∧ t' = t := by
  obtain ⟨_, _, _, _, _, rfl⟩ := h
  obtain ⟨_, _, _, _, _, h'⟩ := h'
  simp only [List.cons.injEq, Except.ok.injEq, Received.mk.injEq] at h'
  exact ⟨h'.1.2.1.symm, h'.2.1.2.1.symm⟩

def argMessage (arg : Text × List Nat) : Except Text Received := .ok ⟨.arg, .ok arg.1, arg.2⟩

theorem readMintArgs_cases (fuel : Nat) (args : List Text) (t : Transport)
    (hfuel : t.inbox.length < fuel) :
    (∃ e inbox, readMintArgs fuel args t = .error (.err e) { t with inbox := inbox }) ∨
      ∃ (taken : List (Text × List Nat)) (text : Except Text Text) (fds : List Nat) (rest : List _),
        t.inbox = taken.map argMessage ++ .ok ⟨.end_, text, fds⟩ :: rest ∧
        readMintArgs fuel args t = .ok (args ++ taken.map (·.1)) { t with inbox := rest } := by
  induction fuel generalizing args t with
  | zero => omega
  | succ fuel ih =>
    obtain ⟨inbox, sendErrors, sent⟩ := t
    match inbox with
    | [] => exact .inl ⟨_, [], rfl⟩
    | .error e :: inbox => exact .inl ⟨.transport e, inbox, rfl⟩
    | .ok ⟨.end_, text, fds⟩ :: inbox => exact .inr ⟨[], text, fds, inbox, rfl, by simp; rfl⟩
    | .ok ⟨.fd, _, _⟩ :: inbox => exact .inl ⟨_, inbox, rfl⟩
    | .ok ⟨.error, _, _⟩ :: inbox => exact .inl ⟨_, inbox, rfl⟩
    | .ok ⟨.unauthorized, _, _⟩ :: inbox => exact .inl ⟨_, inbox, rfl⟩
    | .ok ⟨.other _, _, _⟩ :: inbox => exact .inl ⟨_, inbox, rfl⟩
    | .ok ⟨.arg, value, fds⟩ :: inbox =>
      have hturn : readMintArgs (fuel + 1) args ⟨.ok ⟨.arg, value, fds⟩ :: inbox, sendErrors, sent⟩ =
          (do
            if args.length ≥ 2 then throw (.err mintArity)
            let value ← asStr ⟨.arg, value, fds⟩
            readMintArgs fuel (args ++ [value]) : TransportM (List Text)) ⟨inbox, sendErrors, sent⟩ := rfl
      rw [hturn]
      by_cases hfull : args.length ≥ 2
      · rw [if_pos hfull]
        exact .inl ⟨mintArity, inbox, rfl⟩
      · rw [if_neg hfull]
        cases value with
        | error e => exact .inl ⟨.proto e, inbox, rfl⟩
        | ok value =>
          rcases ih (args ++ [value]) ⟨inbox, sendErrors, sent⟩ (by simpa using hfuel) with
            ⟨e, rest, h⟩ | ⟨taken, text, fds', rest, hinbox, h⟩
          · exact .inl ⟨e, rest, h⟩
          · refine .inr ⟨(value, fds) :: taken, text, fds', rest, ?_, ?_⟩
            · rw [List.map_cons, List.cons_append, ← hinbox]
              rfl
            · rw [List.map_cons, List.append_cons]
              exact h

theorem readMintRequest_cases (t : Transport) :
    (∃ e inbox, readMintRequest t = .error (.err e) { t with inbox := inbox }) ∨
      ∃ m target inbox, BeginsMint m target t.inbox ∧
        readMintRequest t = .ok (m, target) { t with inbox := inbox } := by
  unfold readMintRequest
  rw [run_bind_ok get _ t t t rfl]
  rcases readMintArgs_cases (t.inbox.length + 1) [] t (by omega) with
    ⟨e, inbox, h⟩ | ⟨taken, text, fds, rest, hinbox, h⟩
  · exact .inl ⟨e, inbox, run_bind_error _ _ _ _ _ h⟩
  · rw [run_bind_ok _ _ _ _ _ h]
    rcases taken with _ | ⟨⟨m, fds₁⟩, _ | ⟨⟨target, fds₂⟩, _ | ⟨third, others⟩⟩⟩
    · exact .inl ⟨mintArity, rest, rfl⟩
    · exact .inl ⟨mintArity, rest, rfl⟩
    · exact .inr ⟨m, target, rest, ⟨fds₁, fds₂, fds, text, rest, hinbox⟩, rfl⟩
    · exact .inl ⟨mintArity, rest, rfl⟩

/-! ## The request -/

/-- What a run has passed when it calls `fetch`, and the reads it left. -/
def Admitted (config : Config) (boundMethod boundTarget : Text) (url : Url) (s : Stream)
    (call : FetchCall) (unread : List Bytes) : Prop :=
  call.method = boundMethod ∧ call.url = url ∧
    ∃ head leftover rest,
      readHead s = .ok (head, leftover) { s with reads := rest } ∧
      eqIgnoreCase head.method boundMethod = true ∧ head.target = boundTarget ∧
      readBody config.profile head.framing leftover config.grant.maxRequestBody
        { s with reads := rest } = .ok call.body { s with reads := unread } ∧
      config.grant.applyHeaders (clientHeaders head.headers) = .ok call.headers

/-- Why a run can stop before it calls `fetch`, and the reads it left. -/
inductive Stopped (config : Config) (boundMethod boundTarget : Text) (s : Stream) :
    Halt CoreError → List Bytes → Prop where
  | head (e : Halt CoreError) (rest : List Bytes)
    (hhead : readHead s = .error e { s with reads := rest }) :
    Stopped config boundMethod boundTarget s e rest
  | binding (head : RequestHead) (leftover : Bytes) (rest : List Bytes)
    (hhead : readHead s = .ok (head, leftover) { s with reads := rest })
    (hno : ¬ (eqIgnoreCase head.method boundMethod = true ∧ head.target = boundTarget)) :
    Stopped config boundMethod boundTarget s (.err (.denied .notFixedRequest)) rest
  | body (head : RequestHead) (leftover : Bytes) (rest : List Bytes) (e : Halt CoreError)
    (unread : List Bytes) (hhead : readHead s = .ok (head, leftover) { s with reads := rest })
    (hbody : readBody config.profile head.framing leftover config.grant.maxRequestBody
      { s with reads := rest } = .error e { s with reads := unread }) :
    Stopped config boundMethod boundTarget s e unread
  | header (head : RequestHead) (leftover : Bytes) (rest : List Bytes) (why : Denied)
    (unread : List Bytes) (hhead : readHead s = .ok (head, leftover) { s with reads := rest })
    (hheaders : config.grant.applyHeaders (clientHeaders head.headers) = .error why) :
    Stopped config boundMethod boundTarget s (.err (.denied why)) unread

theorem admitted_unique (config : Config) (boundMethod boundTarget : Text) (url : Url) (s : Stream)
    (call call' : FetchCall) (unread unread' : List Bytes)
    (h : Admitted config boundMethod boundTarget url s call unread)
    (h' : Admitted config boundMethod boundTarget url s call' unread') : call' = call := by
  obtain ⟨hmethod, hurl, head, leftover, rest, hhead, -, -, hbody, hheaders⟩ := h
  obtain ⟨hmethod', hurl', head', leftover', rest', hhead', -, -, hbody', hheaders'⟩ := h'
  rw [hhead, EStateM.Result.ok.injEq, Prod.mk.injEq] at hhead'
  obtain ⟨⟨rfl, rfl⟩, hrest⟩ := hhead'
  rw [← hrest, hbody, EStateM.Result.ok.injEq] at hbody'
  rw [hheaders, Except.ok.injEq] at hheaders'
  cases call
  cases call'
  rw [FetchCall.mk.injEq]
  exact ⟨hmethod'.trans hmethod.symm, hurl'.trans hurl.symm, hheaders'.symm, hbody'.1.symm⟩

theorem not_admitted_of_stopped (config : Config) (boundMethod boundTarget : Text) (url : Url)
    (s : Stream) (e : Halt CoreError) (call : FetchCall) (unread unread' : List Bytes)
    (hstop : Stopped config boundMethod boundTarget s e unread) :
    ¬ Admitted config boundMethod boundTarget url s call unread' := by
  rintro ⟨-, -, head, leftover, rest, hhead, hmethod, htarget, hbody, hheaders⟩
  cases hstop with
  | head _ rest' hno =>
    rw [hhead] at hno
    cases hno
  | binding head' leftover' rest' hhead' hno =>
    rw [hhead, EStateM.Result.ok.injEq, Prod.mk.injEq] at hhead'
    obtain ⟨⟨rfl, -⟩, -⟩ := hhead'
    exact hno ⟨hmethod, htarget⟩
  | body head' leftover' rest' _ _ hhead' hno =>
    rw [hhead, EStateM.Result.ok.injEq, Prod.mk.injEq] at hhead'
    obtain ⟨⟨rfl, rfl⟩, hrest⟩ := hhead'
    rw [← hrest, hbody] at hno
    cases hno
  | header head' leftover' rest' why _ hhead' hno =>
    rw [hhead, EStateM.Result.ok.injEq, Prod.mk.injEq] at hhead'
    obtain ⟨⟨rfl, -⟩, -⟩ := hhead'
    rw [hheaders] at hno
    cases hno

/-- The call of `fetch` that a connection asks for, by its mint and the bytes on its descriptor. -/
def AsksFor (config : Config) (w : World) (call : FetchCall) : Prop :=
  ∃ m t boundMethod url unread, BeginsMint m t w.transport.inbox ∧
    config.grant.resolve config.parseUrl m t = .ok (boundMethod, url) ∧
    Admitted config boundMethod (boundTargetOf config.grant t) url w.stream call unread

theorem admitted_of_asksFor (config : Config) (w : World) (m t boundMethod : Text) (url : Url)
    (call : FetchCall) (hmint : BeginsMint m t w.transport.inbox)
    (hresolve : config.grant.resolve config.parseUrl m t = .ok (boundMethod, url))
    (h : AsksFor config w call) :
    ∃ unread, Admitted config boundMethod (boundTargetOf config.grant t) url w.stream call unread := by
  obtain ⟨m', t', boundMethod', url', unread, hmint', hresolve', hcall⟩ := h
  obtain ⟨rfl, rfl⟩ := beginsMint_unique _ _ _ _ _ hmint hmint'
  rw [hresolve, Except.ok.injEq, Prod.mk.injEq] at hresolve'
  obtain ⟨rfl, rfl⟩ := hresolve'
  exact ⟨unread, hcall⟩

def called (w : World) (unread : List Bytes) (call : FetchCall) : World :=
  { w with stream := { w.stream with reads := unread }, fetches := w.fetches ++ [call] }

def wrote (w : World) (part : Bytes) (room : Option Nat) : World :=
  { w with stream := { w.stream with written := w.stream.written ++ part, room := room } }

def relayBytes (response : UpstreamResponse) : Bytes :=
  (relayHead response).encode response.body.length ++ response.body

def fetchOf (config : Config) (call : FetchCall) : Except CoreError UpstreamResponse :=
  fetch config.net config.grant call.method call.url call.headers call.body

inductive Served (config : Config) (boundMethod boundTarget : Text) (url : Url) (w : World) :
    EStateM.Result (Halt CoreError) World Unit → Prop where
  /-- Nothing was asked of the origin. -/
  | stopped (e : Halt CoreError) (unread : List Bytes)
    (hwhy : Stopped config boundMethod boundTarget w.stream e unread) :
    Served config boundMethod boundTarget url w
      (.error e { w with stream := { w.stream with reads := unread } })
  /-- The origin, or the way to it, failed. -/
  | failed (call : FetchCall) (unread : List Bytes) (e : CoreError)
    (hcall : Admitted config boundMethod boundTarget url w.stream call unread)
    (hfetch : fetchOf config call = .error e) :
    Served config boundMethod boundTarget url w (.error (.err e) (called w unread call))
  | relayed (call : FetchCall) (unread : List Bytes) (response : UpstreamResponse) (room : Option Nat)
    (hcall : Admitted config boundMethod boundTarget url w.stream call unread)
    (hfetch : fetchOf config call = .ok response) :
    Served config boundMethod boundTarget url w
      (.ok () (wrote (called w unread call) (relayBytes response) room))
  /-- The peer went away before it had the whole answer. -/
  | cut (call : FetchCall) (unread : List Bytes) (response : UpstreamResponse) (e : Text)
    (part x : Bytes) (hcall : Admitted config boundMethod boundTarget url w.stream call unread)
    (hfetch : fetchOf config call = .ok response) (hpart : part ++ x = relayBytes response)
    (hx : x ≠ []) :
    Served config boundMethod boundTarget url w
      (.error (.err (.io e)) (wrote (called w unread call) part (some 0)))

theorem serveRequest_cases (config : Config) (boundMethod boundTarget : Text) (url : Url) (w : World) :
    Served config boundMethod boundTarget url w (serveRequest config boundMethod boundTarget url w) := by
  unfold serveRequest
  rcases readLoop_frame headCheck _ [] w.stream with ⟨⟨head, leftover⟩, rest, hhead⟩ | ⟨e, rest, hhead⟩
  case inr =>
    rw [run_bind_error _ _ _ _ _ (onStream_error readHead w _ _ hhead)]
    exact .stopped e rest (.head e rest hhead)
  rw [run_bind_ok _ _ _ _ _ (onStream_ok readHead w _ _ hhead)]
  simp only
  have hcheck : (!eqIgnoreCase head.method boundMethod || head.target != boundTarget) = true ↔
      ¬ (eqIgnoreCase head.method boundMethod = true ∧ head.target = boundTarget) := by
    simp [imp_iff_not_or]
  by_cases hbinding : eqIgnoreCase head.method boundMethod = true ∧ head.target = boundTarget
  case neg =>
    rw [if_pos (hcheck.mpr hbinding)]
    exact .stopped _ rest (.binding head leftover rest hhead hbinding)
  rw [if_neg (fun h => hcheck.mp h hbinding)]
  rcases readBody_frame config.profile head.framing leftover config.grant.maxRequestBody
    { w.stream with reads := rest } with ⟨body, unread, hbody⟩ | ⟨e, unread, hbody⟩
  case inr =>
    rw [run_bind_error _ _ _ _ _ (onStream_error _ _ _ _ hbody)]
    exact .stopped e unread (.body head leftover rest e unread hhead hbody)
  rw [run_bind_ok _ _ _ _ _ (onStream_ok _ _ _ _ hbody)]
  cases hheaders : config.grant.applyHeaders (clientHeaders head.headers) with
  | error why =>
    exact .stopped (.err (.denied why)) unread (.header head leftover rest why unread hhead hheaders)
  | ok headers =>
    have hcall : Admitted config boundMethod boundTarget url w.stream
        { method := boundMethod, url, headers, body } unread :=
      ⟨rfl, rfl, head, leftover, rest, hhead, hbinding.1, hbinding.2, hbody, hheaders⟩
    have hfetched : callFetch config { method := boundMethod, url, headers, body }
        { w with stream := { w.stream with reads := unread } } =
          (ofExcept (fetchOf config { method := boundMethod, url, headers, body }))
            (called w unread { method := boundMethod, url, headers, body }) := rfl
    rw [Except.mapError, ofExcept_ok_bind]
    cases hfetch : fetchOf config { method := boundMethod, url, headers, body } with
    | error e =>
      rw [hfetch] at hfetched
      rw [run_bind_error _ _ _ _ _ hfetched]
      exact .failed _ unread e hcall hfetch
    | ok response =>
      rw [hfetch] at hfetched
      rw [run_bind_ok _ _ _ _ _ hfetched]
      rcases writeResponse_cases (relayHead response) response.body
        (called w unread { method := boundMethod, url, headers, body }).stream with
        ⟨room, hwrite⟩ | ⟨part, x, hpart, hx, hwrite⟩
      · rw [onStream_ok _ _ _ _ hwrite]
        exact .relayed _ unread response room hcall hfetch
      · rw [onStream_error _ _ _ _ hwrite]
        exact .cut _ unread response w.stream.writeError part x hcall hfetch hpart hx

theorem serveRequest_relays (config : Config) (boundMethod boundTarget : Text) (url : Url) (w : World)
    (call : FetchCall) (unread : List Bytes) (response : UpstreamResponse)
    (hcall : Admitted config boundMethod boundTarget url w.stream call unread)
    (hfetch : fetchOf config call = .ok response) (hroom : w.stream.room = none) :
    serveRequest config boundMethod boundTarget url w =
      .ok () (wrote (called w unread call) (relayBytes response) none) := by
  obtain ⟨rfl, rfl, head, leftover, rest, hhead, hmethod, rfl, hbody, hheaders⟩ := hcall
  have hfetched : ∀ v : World, callFetch config
      { method := call.method, url := call.url, headers := call.headers, body := call.body } v =
        .ok response { v with fetches := v.fetches ++ [call] } := by
    intro v
    have hrun : callFetch config call v =
        (ofExcept (fetchOf config call)) { v with fetches := v.fetches ++ [call] } := rfl
    rw [hfetch] at hrun
    exact hrun
  have hwrite := writeResponse_open (relayHead response) response.body (called w unread call).stream hroom
  unfold serveRequest
  rw [run_bind_ok _ _ _ _ _ (onStream_ok readHead w _ _ hhead)]
  simp only [hmethod, Bool.not_true, bne_self_eq_false, Bool.or_self, Bool.false_eq_true, if_false]
  rw [run_bind_ok _ _ _ _ _ (onStream_ok _ _ _ _ hbody), hheaders, Except.mapError, ofExcept_ok_bind,
    run_bind_ok _ _ _ _ _ (hfetched _)]
  have hdone := onStream_ok _ (called w unread call) _ _ hwrite
  exact hdone.trans (by simp only [wrote, called, hroom, relayBytes])

theorem served_calls (config : Config) (boundMethod boundTarget : Text) (url : Url) (w : World)
    (r : EStateM.Result (Halt CoreError) World Unit) (h : Served config boundMethod boundTarget url w r) :
    (finalState r).transport = w.transport ∧
      ((finalState r).fetches = w.fetches ∨
        ∃ call unread, (finalState r).fetches = w.fetches ++ [call] ∧
          Admitted config boundMethod boundTarget url w.stream call unread) := by
  cases h with
  | stopped e unread hwhy => exact ⟨rfl, .inl rfl⟩
  | failed call unread e hcall hfetch => exact ⟨rfl, .inr ⟨call, unread, rfl, hcall⟩⟩
  | relayed call unread response room hcall hfetch => exact ⟨rfl, .inr ⟨call, unread, rfl, hcall⟩⟩
  | cut call unread response e part x hcall hfetch hpart hx =>
    exact ⟨rfl, .inr ⟨call, unread, rfl, hcall⟩⟩

/-! ## The answer on the descriptor -/

def reported (e : CoreError) (w : World) : World :=
  match onStream (writeResponse (refusalFor e).1 (refusalFor e).2) w with
  | .ok _ w => w
  | .error _ w => w

/-- What becomes of a served request: a refusal is reported, and a panic is not. -/
def answered : EStateM.Result (Halt CoreError) World Unit → EStateM.Result (Halt CoreError) World Unit
  | .error (.err e) w => .error (.err e) (reported e w)
  | r => r

def refusalBytes (e : CoreError) : Bytes :=
  (refusalFor e).1.encode (refusalFor e).2.length ++ (refusalFor e).2

theorem reported_cases (e : CoreError) (w : World) :
    ∃ part room, part <+: refusalBytes e ∧ reported e w = wrote w part room := by
  unfold reported
  rcases writeResponse_cases (refusalFor e).1 (refusalFor e).2 w.stream with
    ⟨room, h⟩ | ⟨part, x, hpart, -, h⟩
  · rw [onStream_ok _ _ _ _ h]
    exact ⟨_, room, List.prefix_refl _, rfl⟩
  · rw [onStream_error _ _ _ _ h]
    exact ⟨part, some 0, ⟨x, hpart⟩, rfl⟩

theorem reported_open (e : CoreError) (w : World) (h : w.stream.room = none) :
    reported e w = wrote w (refusalBytes e) none := by
  unfold reported
  rw [onStream_ok _ _ _ _ (writeResponse_open (refusalFor e).1 (refusalFor e).2 w.stream h)]
  simp only [wrote, h, refusalBytes]

theorem answered_frame (r : EStateM.Result (Halt CoreError) World Unit) :
    (finalState (answered r)).fetches = (finalState r).fetches ∧
      (finalState (answered r)).transport = (finalState r).transport := by
  cases r with
  | ok a w => exact ⟨rfl, rfl⟩
  | error e w =>
    cases e with
    | panic => exact ⟨rfl, rfl⟩
    | fuel => exact ⟨rfl, rfl⟩
    | err e =>
      obtain ⟨part, room, -, hreported⟩ := reported_cases e w
      rw [answered, finalState, hreported]
      exact ⟨rfl, rfl⟩

theorem reported_gone (e : CoreError) (w : World) (h : w.stream.room = some 0) : reported e w = w := by
  obtain ⟨e', hwrite⟩ := writeResponse_gone (refusalFor e).1 (refusalFor e).2 w.stream h
  unfold reported
  rw [onStream_error _ _ _ _ hwrite]

/-! ## The connection -/

theorem send_cases (message : Message) (w : World) :
    (∃ t, t.sent = w.transport.sent ++ [message] ∧
        onTransport (send message) w = .ok () { w with transport := t }) ∨
      ∃ e t, t.sent = w.transport.sent ∧
        onTransport (send message) w = .error (.err e) { w with transport := t } := by
  unfold onTransport send
  cases w.transport.sendErrors with
  | nil => exact .inl ⟨_, rfl, rfl⟩
  | cons error rest =>
    cases error with
    | none => exact .inl ⟨_, rfl, rfl⟩
    | some e => exact .inr ⟨.transport e, { w.transport with sendErrors := rest }, rfl, rfl⟩

theorem failWith_cases (error : Option Text) (w : World) :
    failWith error w = .ok () w ∨ ∃ e, failWith error w = .error (.err (.io e)) w := by
  cases error with
  | none => exact .inl rfl
  | some e => exact .inr ⟨_, rfl⟩

/-- A transport that has sent more, and no descriptor. -/
def Silent (t t' : Transport) : Prop :=
  ∃ messages, t'.sent = t.sent ++ messages ∧ ∀ n, .fds n ∉ messages

inductive Run (config : Config) (w : World) : EStateM.Result (Halt CoreError) World Unit → Prop where
  /-- No descriptor was handed over. -/
  | unminted (e : CoreError) (t : Transport) (hsilent : Silent w.transport t) :
    Run config w (.error (.err e) { w with transport := t })
  /-- The descriptor was handed over, and the daemon cannot use its own end. -/
  | deaf (m target boundMethod : Text) (url : Url) (t : Transport) (e : Text)
    (hmint : BeginsMint m target w.transport.inbox)
    (hresolve : config.grant.resolve config.parseUrl m target = .ok (boundMethod, url))
    (hsent : t.sent = w.transport.sent ++
      [.arg boundMethod, .arg (boundTargetOf config.grant target), .fds 1]) :
    Run config w (.error (.err (.io e)) { w with transport := t })
  | minted (m target boundMethod : Text) (url : Url) (t : Transport)
    (r : EStateM.Result (Halt CoreError) World Unit)
    (hmint : BeginsMint m target w.transport.inbox)
    (hresolve : config.grant.resolve config.parseUrl m target = .ok (boundMethod, url))
    (hsent : t.sent = w.transport.sent ++
      [.arg boundMethod, .arg (boundTargetOf config.grant target), .fds 1])
    (hserved : Served config boundMethod (boundTargetOf config.grant target) url
      { w with transport := t } r) :
    Run config w (answered r)

theorem answer_eq (config : Config) (boundMethod boundTarget : Text) (url : Url) (w : World) :
    (do
      let outcome ← attempt (serveRequest config boundMethod boundTarget url)
      if let .error e := outcome then
        let (head, body) := refusalFor e
        let _ ← attempt (onStream (writeResponse head body))
      ofExcept outcome : DaemonM Unit) w =
      answered (serveRequest config boundMethod boundTarget url w) := by
  cases hserve : serveRequest config boundMethod boundTarget url w with
  | ok a w' =>
    rw [run_bind_ok _ _ _ _ _ (attempt_ok _ _ _ _ hserve)]
    rfl
  | error e w' =>
    cases e with
    | panic =>
      have houtcome : attempt (serveRequest config boundMethod boundTarget url) w = .error .panic w' := by
        unfold attempt
        rw [hserve]
      rw [run_bind_error _ _ _ _ _ houtcome]
      rfl
    | fuel =>
      have houtcome : attempt (serveRequest config boundMethod boundTarget url) w = .error .fuel w' := by
        unfold attempt
        rw [hserve]
      rw [run_bind_error _ _ _ _ _ houtcome]
      rfl
    | err e =>
      have hreport : ∃ r, attempt (onStream (writeResponse (refusalFor e).1 (refusalFor e).2)) w' =
          .ok r (reported e w') := by
        unfold attempt reported
        rcases writeResponse_cases (refusalFor e).1 (refusalFor e).2 w'.stream with
          ⟨room, h⟩ | ⟨part, x, -, -, h⟩
        · rw [onStream_ok _ _ _ _ h]
          exact ⟨_, rfl⟩
        · rw [onStream_error _ _ _ _ h]
          exact ⟨_, rfl⟩
      obtain ⟨r, hreport⟩ := hreport
      rw [run_bind_ok _ _ _ _ _ (attempt_err _ _ _ _ hserve)]
      simp only
      rw [run_bind_ok _ _ _ _ _ hreport]
      rfl

/-- The part of `serve_minted` that hands the descriptor over. -/
def handOver (boundMethod boundTarget : Text) : DaemonM Unit := do
  failWith (← get).socketpairError
  onTransport (send (.arg boundMethod))
  onTransport (send (.arg boundTarget))
  onTransport (send (.fds 1))
  failWith (← get).intoStreamError

theorem handOver_bind (boundMethod boundTarget : Text) (rest : Unit → DaemonM Unit) :
    (do
      failWith (← get).socketpairError
      onTransport (send (.arg boundMethod))
      onTransport (send (.arg boundTarget))
      onTransport (send (.fds 1))
      let w ← get
      failWith w.intoStreamError >>= rest : DaemonM Unit) = handOver boundMethod boundTarget >>= rest := by
  simp only [handOver, bind_assoc]

theorem serveMinted_eq (config : Config) (boundMethod boundTarget : Text) (url : Url) (w : World) :
    serveMinted config boundMethod boundTarget url w =
      match handOver boundMethod boundTarget w with
      | .ok _ w' => answered (serveRequest config boundMethod boundTarget url w')
      | .error e w' => .error e w' := by
  obtain ⟨rest, hsplit, hrest⟩ : ∃ rest : Unit → DaemonM Unit,
      serveMinted config boundMethod boundTarget url = handOver boundMethod boundTarget >>= rest ∧
        ∀ w', rest () w' = answered (serveRequest config boundMethod boundTarget url w') :=
    ⟨_, handOver_bind boundMethod boundTarget _, answer_eq config boundMethod boundTarget url⟩
  rw [hsplit]
  cases hhand : handOver boundMethod boundTarget w with
  | ok a w' =>
    rw [run_bind_ok _ _ _ _ _ hhand]
    exact hrest w'
  | error e w' => exact run_bind_error _ _ _ _ _ hhand

theorem handOver_cases (boundMethod boundTarget : Text) (w : World) :
    (∃ e t, Silent w.transport t ∧
        handOver boundMethod boundTarget w = .error (.err e) { w with transport := t }) ∨
      ∃ t, t.sent = w.transport.sent ++ [.arg boundMethod, .arg boundTarget, .fds 1] ∧
        ((∃ e, handOver boundMethod boundTarget w = .error (.err (.io e)) { w with transport := t }) ∨
          handOver boundMethod boundTarget w = .ok () { w with transport := t }) := by
  have hsocketpair : ∀ (f : Unit → DaemonM Unit) (v : World),
      (get >>= fun w' => failWith w'.socketpairError >>= f) v =
        (failWith v.socketpairError >>= f) v := fun f v => rfl
  have hinto : ∀ v : World, (get >>= fun w' => failWith w'.intoStreamError) v =
      failWith v.intoStreamError v := fun v => rfl
  unfold handOver
  rw [hsocketpair]
  rcases failWith_cases w.socketpairError w with h | ⟨e, h⟩
  case inr => exact .inl ⟨.io e, w.transport, ⟨[], by simp, by simp⟩, run_bind_error _ _ _ _ _ h⟩
  rw [run_bind_ok _ _ _ _ _ h]
  rcases send_cases (.arg boundMethod) w with ⟨t₁, hsent₁, h⟩ | ⟨e, t₁, hsent₁, h⟩
  case inr => exact .inl ⟨e, t₁, ⟨[], by simp [hsent₁], by simp⟩, run_bind_error _ _ _ _ _ h⟩
  rw [run_bind_ok _ _ _ _ _ h]
  rcases send_cases (.arg boundTarget) { w with transport := t₁ } with
    ⟨t₂, hsent₂, h⟩ | ⟨e, t₂, hsent₂, h⟩
  case inr =>
    exact .inl ⟨e, t₂, ⟨[.arg boundMethod], by rw [hsent₂, hsent₁], by simp⟩,
      run_bind_error _ _ _ _ _ h⟩
  rw [run_bind_ok _ _ _ _ _ h]
  rcases send_cases (.fds 1) { w with transport := t₂ } with ⟨t₃, hsent₃, h⟩ | ⟨e, t₃, hsent₃, h⟩
  case inr =>
    exact .inl ⟨e, t₃, ⟨[.arg boundMethod, .arg boundTarget],
      by rw [hsent₃, hsent₂, hsent₁, List.append_assoc, List.singleton_append], by simp⟩,
      run_bind_error _ _ _ _ _ h⟩
  rw [run_bind_ok _ _ _ _ _ h, hinto]
  refine .inr ⟨t₃, by simp [hsent₃, hsent₂, hsent₁], ?_⟩
  rcases failWith_cases w.intoStreamError { w with transport := t₃ } with h | ⟨e, h⟩
  · exact .inr h
  · exact .inl ⟨e, h⟩

theorem mintRequest_cases (w : World) :
    (∃ e t, t.sent = w.transport.sent ∧
        attempt (onTransport readMintRequest) w = .ok (.error e) { w with transport := t }) ∨
      ∃ m target t, BeginsMint m target w.transport.inbox ∧ t.sent = w.transport.sent ∧
        attempt (onTransport readMintRequest) w = .ok (.ok (m, target)) { w with transport := t } := by
  rcases readMintRequest_cases w.transport with ⟨e, inbox, h⟩ | ⟨m, target, inbox, hmint, h⟩
  · exact .inl ⟨e, { w.transport with inbox := inbox }, rfl,
      attempt_err _ _ _ _ (onTransport_error _ _ _ _ h)⟩
  · exact .inr ⟨m, target, { w.transport with inbox := inbox }, hmint, rfl,
      attempt_ok _ _ _ _ (onTransport_ok _ _ _ _ h)⟩

theorem serveConnection_cases (config : Config) (w : World) : Run config w (serveConnection config w) := by
  unfold serveConnection
  rcases mintRequest_cases w with ⟨e, t₀, hsent₀, h⟩ | ⟨m, target, t₀, hmint, hsent₀, h⟩
  · rw [run_bind_ok _ _ _ _ _ h]
    simp only
    rcases send_cases (.error e.text) { w with transport := t₀ } with
      ⟨t, hsent, h⟩ | ⟨e', t, hsent, h⟩
    · rw [run_bind_ok _ _ _ _ _ (attempt_ok _ _ _ _ h)]
      exact .unminted e t ⟨[.error e.text], by rw [hsent, hsent₀], by simp⟩
    · rw [run_bind_ok _ _ _ _ _ (attempt_err _ _ _ _ h)]
      exact .unminted e t ⟨[], by simp [hsent, hsent₀], by simp⟩
  · rw [run_bind_ok _ _ _ _ _ h]
    simp only
    cases hresolve : config.grant.resolve config.parseUrl m target with
    | error why =>
      simp only
      rcases send_cases (.error why.text) { w with transport := t₀ } with
        ⟨t, hsent, h⟩ | ⟨e', t, hsent, h⟩
      · rw [run_bind_ok _ _ _ _ _ h]
        exact .unminted (.denied why) t ⟨[.error why.text], by rw [hsent, hsent₀], by simp⟩
      · rw [run_bind_error _ _ _ _ _ h]
        exact .unminted e' t ⟨[], by simp [hsent, hsent₀], by simp⟩
    | ok found =>
      obtain ⟨boundMethod, url⟩ := found
      simp only
      rw [serveMinted_eq]
      rcases handOver_cases boundMethod (boundTargetOf config.grant target)
        { w with transport := t₀ } with ⟨e, t, hsilent, hrun⟩ | ⟨t, hsent, ⟨e, hrun⟩ | hrun⟩
      · rw [hrun]
        unfold Silent at hsilent
        rw [hsent₀] at hsilent
        exact .unminted e t hsilent
      · rw [hrun]
        exact .deaf m target boundMethod url t e hmint hresolve (by rw [hsent, hsent₀])
      · rw [hrun]
        exact .minted m target boundMethod url t _ hmint hresolve (by rw [hsent, hsent₀])
          (serveRequest_cases config _ _ url { w with transport := t })

/-! ## An origin for examples -/

def answering (answer : OriginResponse) : Net where
  methodFromBytes := some
  headerName := fun name => some (lowercase name)
  headerValue := some
  canonicalReason := fun code => if code = 200 then some (ascii "OK") else none
  send := fun _ => .ok answer

def emptyAnswer : OriginResponse where
  status := ⟨200, by decide, by decide⟩
  headers := []
  contentLength := some 0
  chunks := []

/-- A world in which the client sends one mint request, and `reads` arrive on the descriptor. -/
def minting (m t : Text) (reads : List Bytes) : World where
  transport := {
    inbox := [.ok ⟨.arg, .ok m, []⟩, .ok ⟨.arg, .ok t, []⟩, .ok ⟨.end_, .ok [], []⟩]
    sendErrors := []
    sent := [] }
  socketpairError := none
  intoStreamError := none
  stream := { reads, readError := none, room := none, writeError := [], written := [] }
  fetches := []

end Capcurl.Session
