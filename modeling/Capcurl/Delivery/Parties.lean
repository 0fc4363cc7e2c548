import Capcurl.Core.Duplex
import Capcurl.Session

/-! # Each program, beside the other, is the program by itself -/

namespace Capcurl.Delivery

open Lib Http Policy Capcurl.Core Session

/-! ## A read loop, read by read -/

theorem readLoop_foldl {β γ : Type} (check : Bytes → Option (Except (Halt CoreError) β))
    (ended : Bytes → CoreError) (read : γ → Bytes → γ) (wait : Bytes → γ) (onOk : β → γ)
    (onError : Halt CoreError → γ) (resume : Bytes → γ)
    (hwait : ∀ buf, check buf = none → resume buf = wait buf)
    (hok : ∀ buf b, check buf = some (.ok b) → resume buf = onOk b)
    (herror : ∀ buf e, check buf = some (.error e) → resume buf = onError e)
    (hread : ∀ buf part, read (wait buf) part = resume (buf ++ part)) (buf : Bytes) (s : Stream)
    (hne : ∀ r ∈ s.reads, r ≠ []) (hend : s.readError = none) :
    (∃ b unread, readLoop check ended buf s = .ok b { s with reads := unread } ∧ unread <:+ s.reads ∧
      s.reads.foldl read (resume buf) = unread.foldl read (onOk b)) ∨
    (∃ e unread, readLoop check ended buf s = .error e { s with reads := unread } ∧
      s.reads.foldl read (resume buf) = unread.foldl read (onError e)) ∨
    ∃ stop, readLoop check ended buf s = .error (.err (ended stop)) { s with reads := [] } ∧
      s.reads.foldl read (resume buf) = wait stop := by
  unfold readLoop
  have hdecided : ∀ buf v, check buf = some v → resume buf = v.casesOn onError onOk := by
    intro buf v hsome
    cases v with
    | ok b => exact hok buf b hsome
    | error e => exact herror buf e hsome
  rcases foldl_read check read wait (fun v => v.casesOn onError onOk) resume hwait hdecided hread buf
      s.reads hne with
    ⟨v, stop, unread, hfeed, hfold, hsuf⟩ | ⟨stop, hfeed, hfold⟩
  · rw [hfeed]
    cases v with
    | ok b => exact .inl ⟨b, unread, rfl, hsuf, hfold⟩
    | error e => exact .inr (.inl ⟨e, unread, rfl, hfold⟩)
  · rw [hfeed, hend]
    exact .inr (.inr ⟨stop, rfl, hfold⟩)

/-! ## The client -/

theorem foldl_returned (r : Except (Halt CoreError) Response) (reads : List Bytes) :
    reads.foldl Client.read (.returned r) = .returned r := by
  induction reads with
  | nil => rfl
  | cons part reads ih => exact ih

/-- The client when it has made these reads. -/
def clientAfter (reads : List Bytes) : Client := reads.foldl Client.read (Client.resumeHead [])

section Client

variable (s : Stream) (hne : ∀ r ∈ s.reads, r ≠ []) (hend : s.readError = none)
include hne hend

theorem client_body (status : UInt16) (reason : Text) (headers : List Header) (length : Nat) (buf : Bytes) :
    (s.reads.foldl Client.read (Client.resumeBody status reason headers length buf)).ended =
      .returned (result ((do
        let body ← readLoop (lengthCheck length) (fun body => closedAfter body.length length) buf
        let refused := (header headers (ascii "x-capcurl-refused")).isSome
        return { status, reason, headers, body, refused } : StreamM Response) s)) := by
  rcases readLoop_foldl (lengthCheck length) (fun body => closedAfter body.length length) Client.read
      (Client.readingBody status reason headers length)
      (fun body => .returned (.ok
        { status, reason, headers, body, refused := (header headers (ascii "x-capcurl-refused")).isSome }))
      (fun e => .returned (.error e)) (Client.resumeBody status reason headers length)
      (fun _ h => by rw [Client.resumeBody, h]) (fun _ _ h => by rw [Client.resumeBody, h])
      (fun _ _ h => by rw [Client.resumeBody, h]) (fun _ _ => rfl) buf s hne hend with
    ⟨body, unread, hrun, -, hfold⟩ | ⟨e, unread, hrun, hfold⟩ | ⟨stop, hrun, hfold⟩
  · rw [hfold, foldl_returned, run_bind_ok _ _ _ _ _ hrun]
    rfl
  · rw [hfold, foldl_returned, run_bind_error _ _ _ _ _ hrun]
    rfl
  · rw [hfold, run_bind_error _ _ _ _ _ hrun]
    rfl

/-- The client beside a daemon is the client by itself: after any reads, it has returned what
`read_response` returns, or it would at the end of the stream. -/
theorem client_after : (clientAfter s.reads).ended = .returned (result (readResponse s)) := by
  unfold clientAfter readResponse
  rcases readLoop_foldl responseHeadCheck
      (fun _ => .handshake (ascii "capability closed before a complete response head")) Client.read
      Client.readingHead Client.parsed (fun e => .returned (.error e)) Client.resumeHead
      (fun _ h => by rw [Client.resumeHead, h]) (fun _ _ h => by rw [Client.resumeHead, h])
      (fun _ _ h => by rw [Client.resumeHead, h]) (fun _ _ => rfl) [] s hne hend with
    ⟨found, unread, hrun, hsuf, hfold⟩ | ⟨e, unread, hrun, hfold⟩ | ⟨stop, hrun, hfold⟩
  · rw [hfold, run_bind_ok _ _ _ _ _ hrun]
    unfold Client.parsed
    simp only
    cases parseStatusAndHeaders (found.2.take found.1) with
    | error e =>
      simp only [foldl_returned]
      rfl
    | ok parsed =>
      rw [ofExcept_ok_bind]
      simp only
      cases declaredLength parsed.2.2 with
      | error e =>
        simp only [foldl_returned]
        rfl
      | ok length =>
        rw [ofExcept_ok_bind]
        exact client_body { s with reads := unread } (fun r hr => hne r (hsuf.mem hr)) hend _ _ _ _ _
  · rw [hfold, foldl_returned, run_bind_error _ _ _ _ _ hrun]
    rfl
  · rw [hfold, run_bind_error _ _ _ _ _ hrun]
    rfl

end Client

/-! ## The daemon -/

theorem foldl_not_reading (m : Mint) (daemon : Daemon) (reads : List Bytes) (h : daemon.isReading = false) :
    reads.foldl (Daemon.read m) daemon = daemon := by
  induction reads with
  | nil => rfl
  | cons part reads ih =>
    have hread : daemon.read m part = daemon := by
      cases daemon with
      | readingHead buf => cases h
      | readingBody head buf => cases h
      | writing outcome pending => rfl
      | shut => rfl
      | closed => rfl
    rw [List.foldl_cons, hread, ih]

theorem ended_not_reading (daemon : Daemon) (h : daemon.isReading = false) : daemon.ended = daemon := by
  cases daemon with
  | readingHead buf => cases h
  | readingBody head buf => cases h
  | writing outcome pending => rfl
  | shut => rfl
  | closed => rfl

theorem fail_not_reading (e : Halt CoreError) : (Daemon.fail e).isReading = false := by
  cases e <;> rfl

theorem relay_not_reading (m : Mint) (head : RequestHead) (body : Bytes) :
    (Daemon.relay m head body).isReading = false := by
  unfold Daemon.relay
  split
  · rfl
  · split <;> rfl

theorem foldl_fail (m : Mint) (e : Halt CoreError) (reads : List Bytes) :
    (reads.foldl (Daemon.read m) (Daemon.fail e)).ended = Daemon.fail e := by
  rw [foldl_not_reading m _ _ (fail_not_reading e), ended_not_reading _ (fail_not_reading e)]

theorem readBody_loop (profile : Profile) (framing : Framing) (buf : Bytes) (limit : UInt64) (s : Stream) :
    readBody profile framing buf limit s =
      readLoop (bodyCheck profile framing limit) (bodyEnded framing) buf s := by
  have hdone : ∀ (v : Except (Halt CoreError) Bytes) check ended, check buf = some v →
      readLoop check ended buf s =
        match v with
        | .ok b => .ok b s
        | .error e => .error e s := by
    intro v check ended hcheck
    unfold readLoop
    rw [feed_stop _ _ _ _ hcheck]
    cases v <;> rfl
  cases framing with
  | none => exact (hdone (.ok []) _ _ rfl).symm
  | length len =>
    unfold readBody
    simp only
    by_cases hlimit : len > limit
    · rw [if_pos hlimit, hdone (.error (.err (.denied (.tooLarge .request limit)))) _ _ (if_pos hlimit)]
      rfl
    · rw [if_neg hlimit]
      have hcheck : bodyCheck profile (.length len) limit = lengthCheck len.toNat := by
        funext q
        exact if_neg hlimit
      rw [hcheck]
      rfl
  | chunked => rfl

/-- The daemon that `serve_request` leaves: it goes on to report its error, or has the response to
write. -/
def ServedAs (w : World) (r : EStateM.Result (Halt CoreError) World Unit) (daemon : Daemon) : Prop :=
  (∃ e, result r = .error e ∧ daemon = .fail e) ∨
    ∃ pending, result r = .ok () ∧ daemon = .writing (.ok ()) pending ∧
      (finalState r).stream.written = w.stream.written ++ pending.flatten

section Daemon

variable (m : Mint) (w : World) (hne : ∀ r ∈ w.stream.reads, r ≠ [])
  (hend : w.stream.readError = none) (hroom : w.stream.room = none)
include hroom

theorem daemon_relays (head : RequestHead) (body : Bytes) :
    ServedAs w ((do
      let headers ←
        Core.ofExcept ((m.config.grant.applyHeaders (clientHeaders head.headers)).mapError .denied)
      let response ← callFetch m.config { method := m.boundMethod, url := m.url, headers, body }
      onStream (writeResponse (relayHead response) response.body) : DaemonM Unit) w)
      (Daemon.relay m head body) := by
  unfold Daemon.relay
  cases m.config.grant.applyHeaders (clientHeaders head.headers) with
  | error why => exact .inl ⟨.err (.denied why), rfl, rfl⟩
  | ok headers =>
    rw [Except.mapError, ofExcept_ok_bind]
    simp only
    have hrun : callFetch m.config { method := m.boundMethod, url := m.url, headers, body } w =
        (Core.ofExcept (fetch m.config.net m.config.grant m.boundMethod m.url headers body))
          { w with
            fetches := w.fetches ++ [{ method := m.boundMethod, url := m.url, headers, body }] } := rfl
    cases hfetch : fetch m.config.net m.config.grant m.boundMethod m.url headers body with
    | error e =>
      rw [hfetch] at hrun
      rw [run_bind_error _ _ _ _ _ hrun]
      exact .inl ⟨.err e, rfl, rfl⟩
    | ok response =>
      rw [hfetch] at hrun
      have hwrite := onStream_ok _
        { w with fetches := w.fetches ++ [{ method := m.boundMethod, url := m.url, headers, body }] } _ _
        (writeResponse_open (relayHead response) response.body w.stream hroom)
      rw [run_bind_ok _ _ _ _ _ hrun]
      refine .inr ⟨_, congrArg result hwrite, rfl, ?_⟩
      rw [congrArg finalState hwrite]
      simp [finalState]

include hne hend

theorem daemon_body (head : RequestHead) (leftover : Bytes) :
    ServedAs w ((do
      let body ← onStream (readBody m.config.profile head.framing leftover m.config.grant.maxRequestBody)
      let headers ←
        Core.ofExcept ((m.config.grant.applyHeaders (clientHeaders head.headers)).mapError .denied)
      let response ← callFetch m.config { method := m.boundMethod, url := m.url, headers, body }
      onStream (writeResponse (relayHead response) response.body) : DaemonM Unit) w)
      (w.stream.reads.foldl (Daemon.read m) (Daemon.resumeBody m head leftover)).ended := by
  rcases readLoop_foldl (bodyCheck m.config.profile head.framing m.config.grant.maxRequestBody)
      (bodyEnded head.framing) (Daemon.read m) (Daemon.readingBody head) (Daemon.relay m head) Daemon.fail
      (Daemon.resumeBody m head) (fun _ h => by rw [Daemon.resumeBody, h])
      (fun _ _ h => by rw [Daemon.resumeBody, h]) (fun _ _ h => by rw [Daemon.resumeBody, h])
      (fun _ _ => rfl) leftover w.stream hne hend with
    ⟨body, unread, hrun, -, hfold⟩ | ⟨e, unread, hrun, hfold⟩ | ⟨stop, hrun, hfold⟩
  all_goals rw [← readBody_loop] at hrun
  · rw [run_bind_ok _ _ _ _ _ (onStream_ok _ _ _ _ hrun), hfold,
      foldl_not_reading m _ _ (relay_not_reading m head body),
      ended_not_reading _ (relay_not_reading m head body)]
    exact daemon_relays m { w with stream := { w.stream with reads := unread } } hroom head body
  · rw [run_bind_error _ _ _ _ _ (onStream_error _ _ _ _ hrun), hfold, foldl_fail]
    exact .inl ⟨e, rfl, rfl⟩
  · rw [run_bind_error _ _ _ _ _ (onStream_error _ _ _ _ hrun), hfold]
    exact .inl ⟨_, rfl, rfl⟩

/-- The daemon beside a client is `serve_request` by itself: after any reads, it is where that leaves
it, or it would be at the end of the stream. -/
theorem daemon_after :
    ServedAs w (serveRequest m.config m.boundMethod m.boundTarget m.url w)
      (w.stream.reads.foldl (Daemon.read m) (Daemon.resumeHead m [])).ended := by
  unfold serveRequest readHead
  rcases readLoop_foldl headCheck
      (fun _ => .handshake (ascii "capability closed before a complete request head")) (Daemon.read m)
      Daemon.readingHead (Daemon.parsed m) Daemon.fail (Daemon.resumeHead m)
      (fun _ h => by rw [Daemon.resumeHead, h]) (fun _ _ h => by rw [Daemon.resumeHead, h])
      (fun _ _ h => by rw [Daemon.resumeHead, h]) (fun _ _ => rfl) [] w.stream hne hend with
    ⟨found, unread, hrun, hsuf, hfold⟩ | ⟨e, unread, hrun, hfold⟩ | ⟨stop, hrun, hfold⟩
  · rw [run_bind_ok _ _ _ _ _ (onStream_ok _ _ _ _ hrun), hfold]
    simp only
    unfold Daemon.parsed
    split
    · rw [foldl_not_reading m _ _ rfl, ended_not_reading _ rfl]
      exact .inl ⟨.err (.denied .notFixedRequest), rfl, rfl⟩
    · exact daemon_body m { w with stream := { w.stream with reads := unread } }
        (fun r hr => hne r (hsuf.mem hr)) hend hroom found.1 found.2
  · rw [run_bind_error _ _ _ _ _ (onStream_error _ _ _ _ hrun), hfold, foldl_fail]
    exact .inl ⟨e, rfl, rfl⟩
  · rw [run_bind_error _ _ _ _ _ (onStream_error _ _ _ _ hrun), hfold]
    exact .inl ⟨_, rfl, rfl⟩

end Daemon

end Capcurl.Delivery
