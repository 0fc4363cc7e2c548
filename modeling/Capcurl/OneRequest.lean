import Capcurl.ChunkedBody
import Capcurl.Relay
import Capcurl.Segmentation
import Capcurl.Session

/-! # A connection serves one request, whatever comes behind it -/

namespace Capcurl.OneRequest

open Lib Http Policy Capcurl.Core Spec ReadLoop Segmentation Session Chunked ChunkedBody Relay

/-! ## The request -/

/-- The bytes that a framing takes for a body, within the limit and what the loop holds. -/
def Framed (limit : UInt64) : Framing → Bytes → Bytes → Prop
  | .none, taken, body => taken = [] ∧ body = []
  | .length n, taken, body => taken = body ∧ body.length = n.toNat ∧ n ≤ limit
  | .chunked, taken, body =>
    Encodes taken body ∧ body.length ≤ limit.toNat ∧ taken.length ≤ rawBound limit + 1

/-- A whole request: a head, up to its first blank line, and a body. -/
structure Whole (limit : UInt64) (text taken : Bytes) (head : RequestHead) (body : Bytes) : Prop where
  parses : RequestHead.parse text = .ok head
  ends : findHeadEnd text = some text.length
  framed : Framed limit head.framing taken body

section Read

variable (profile : Profile) (limit : UInt64) (leftover taken body extra : Bytes) (s : Stream)
  (hne : ∀ r ∈ s.reads, r ≠ []) (hall : leftover ++ s.reads.flatten = taken ++ extra)
include hne hall

theorem readBody_chunked (hencodes : Encodes taken body) (hlimit : body.length ≤ limit.toNat)
    (hroom : taken.length ≤ rawBound limit + 1) (hlen : (taken ++ extra).length < u64Bound) :
    ∃ unread, readBody profile .chunked leftover limit s = .ok body { s with reads := unread } := by
  have hwhole := decode_encodes profile limit taken body extra hencodes hlen hlimit
  have hend : chunkedCheck profile limit (taken ++ extra) = some (.ok body) := by
    unfold chunkedCheck
    rw [hwhole]
  have hvalue : ∀ seen rest, seen ++ rest = s.reads.flatten → ∀ v,
      chunkedCheck profile limit (leftover ++ seen) = some v → v = .ok body := by
    intro seen rest hseen v hv
    have hq : leftover ++ seen ++ rest = taken ++ extra := by rw [List.append_assoc, hseen, hall]
    by_cases hdecided : Decided profile limit (leftover ++ seen)
    · have hsame := check_append (leftover ++ seen) rest (by rw [hq]; exact hlen) hdecided
      rw [hq, hend, hv] at hsame
      exact (Option.some.inj hsame).symm
    · -- the loop has not read all of the body, so it does not hold too much
      have hshort : (leftover ++ seen).length < taken.length := by
        by_contra hle
        obtain ⟨q, heq, rfl⟩ := prefix_split _ _ _ _ hq (Nat.not_lt.mp hle)
        have htaken := decode_encodes profile limit taken body q hencodes
          (by simp only [List.length_append] at hlen ⊢; omega) hlimit
        rw [← heq] at htaken
        exact hdecided (decided_of_complete _ _ _ htaken)
      rw [check_undecided _ hdecided, if_neg (by omega)] at hv
      cases hv
  obtain ⟨seen, unread, hrun, -⟩ := readLoop_decides (chunkedCheck profile limit)
    (fun _ => .http .badChunk) leftover s (fun _ => body) hne (by rw [hall, hend]; simp) hvalue
  exact ⟨unread, hrun⟩

theorem readBody_whole (framing : Framing) (hframed : Framed limit framing taken body)
    (hlen : (taken ++ extra).length < u64Bound) :
    ∃ unread, readBody profile framing leftover limit s = .ok body { s with reads := unread } := by
  cases framing with
  | none => exact ⟨s.reads, by rw [hframed.2]; rfl⟩
  | length n =>
    obtain ⟨rfl, hn, hlimit⟩ := hframed
    obtain ⟨unread, hrun⟩ := readLength_ok n.toNat (fun buf => closedAfter buf.length n.toNat) leftover s hne
      (by rw [hall, List.length_append]; omega)
    refine ⟨unread, ?_⟩
    unfold readBody
    rw [hall, ← hn, List.take_left] at hrun
    simp only [if_neg (UInt64.not_lt.mpr hlimit), ← hn, hrun]
  | chunked =>
    obtain ⟨hencodes, hlimit, hroom⟩ := hframed
    exact readBody_chunked profile limit leftover taken body extra s hne hall hencodes hlimit hroom hlen

end Read

/-! ## What the reads do not matter to -/

def withReads (reads : List Bytes) (w : World) : World := { w with stream := { w.stream with reads } }

section Blind

variable (reads : List Bytes)

theorem blind_transport {α : Type} (m : TransportM α) : Blind (withReads reads) (onTransport m) := by
  intro w
  unfold onTransport withReads
  simp only
  cases m w.transport <;> rfl

theorem blind_write (bytes : Bytes) : Blind (withReads reads) (onStream (writeAll bytes)) := by
  intro w
  unfold onStream writeAll withReads
  simp only
  cases w.stream.room with
  | none => rfl
  | some room =>
    simp only
    by_cases hfits : bytes.length ≤ room
    · simp only [if_pos hfits]
      rfl
    · simp only [if_neg hfits]
      rfl

theorem onStream_bind {α β : Type} (m : StreamM α) (g : α → StreamM β) :
    onStream (m >>= g) = onStream m >>= fun a => onStream (g a) := by
  funext w
  unfold onStream
  simp only [bind, EStateM.bind]
  cases m w.stream <;> rfl

theorem blind_writeResponse (head : ResponseHead) (body : Bytes) :
    Blind (withReads reads) (onStream (writeResponse head body)) := by
  unfold writeResponse
  rw [onStream_bind]
  exact blind_bind _ _ (blind_write reads _) fun _ => blind_write reads _

theorem blind_ofExcept {α : Type} (r : Except CoreError α) :
    Blind (withReads reads) (Core.ofExcept r) := by
  cases r with
  | error e => exact blind_throw _
  | ok a => exact blind_pure a

theorem blind_attempt {α : Type} (m : DaemonM α) (h : Blind (withReads reads) m) :
    Blind (withReads reads) (attempt m) := by
  intro w
  unfold attempt
  rw [h w]
  cases m w with
  | ok a w' => rfl
  | error e w' => cases e <;> rfl

theorem blind_fail (error : World → Option Text) (h : ∀ w, error (withReads reads w) = error w) :
    Blind (withReads reads) (get >>= fun w => failWith (error w)) := by
  intro w
  have hget : ∀ v : World, (get >>= fun w => failWith (error w) : DaemonM Unit) v = failWith (error v) v :=
    fun v => rfl
  rw [hget, hget, h]
  cases error w <;> rfl

theorem blind_callFetch (config : Config) (call : FetchCall) :
    Blind (withReads reads) (callFetch config call) := by
  unfold callFetch
  exact blind_bind _ _ (fun _ => rfl) fun _ => blind_ofExcept reads _

end Blind

/-! ## Serving it -/

/-- What the daemon does with a request, once it has all of it. -/
def handle (config : Config) (boundMethod boundTarget : Text) (url : Url) (head : RequestHead)
    (body : Bytes) : DaemonM Unit := do
  if !eqIgnoreCase head.method boundMethod || head.target != boundTarget then
    throw (.err (.denied .notFixedRequest))
  let headers ← Core.ofExcept ((config.grant.applyHeaders (clientHeaders head.headers)).mapError .denied)
  let response ← callFetch config { method := boundMethod, url, headers, body }
  onStream (writeResponse (relayHead response) response.body)

theorem blind_handle (config : Config) (boundMethod boundTarget : Text) (url : Url) (head : RequestHead)
    (body : Bytes) (reads : List Bytes) :
    Blind (withReads reads) (handle config boundMethod boundTarget url head body) := by
  unfold handle
  simp only
  split
  · exact fun _ => rfl
  · exact blind_bind _ _ (blind_ofExcept reads _) fun _ =>
      blind_bind _ _ (blind_callFetch reads config _) fun _ => blind_writeResponse reads _ _

/-- From the reads on, the code does what `m'` does, and leaves some of the reads behind. -/
def Reading {α : Type} (reads : List Bytes) (m m' : DaemonM α) : Prop :=
  ∀ w, ∃ unread, m (withReads reads w) = mapState (withReads unread) (m' w)

theorem reading_of_blind {α : Type} (reads : List Bytes) (m : DaemonM α) (h : Blind (withReads reads) m) :
    Reading reads m m := fun w => ⟨reads, h w⟩

theorem reading_bind {α β : Type} (reads : List Bytes) (m : DaemonM α) (g g' : α → DaemonM β)
    (hm : Blind (withReads reads) m) (hg : ∀ a, Reading reads (g a) (g' a)) :
    Reading reads (m >>= g) (m >>= g') := by
  intro w
  have hw := hm w
  cases hrun : m w with
  | ok a w' =>
    rw [hrun] at hw
    rw [run_bind_ok m g _ _ a hw, run_bind_ok m g' _ _ a hrun]
    exact hg a w'
  | error e w' =>
    rw [hrun] at hw
    rw [run_bind_error m g _ _ e hw, run_bind_error m g' _ _ e hrun]
    exact ⟨reads, rfl⟩

section Serve

variable (config : Config) (text taken extra : Bytes) (head : RequestHead) (body : Bytes)
  (reads : List Bytes) (hwhole : Whole config.grant.maxRequestBody text taken head body)
  (hs : Segmented maxRead (text ++ (taken ++ extra)) reads)
  (hlen : (taken ++ extra).length < u64Bound)
include hwhole hs

theorem readHead_whole (s : Stream) (hreads : s.reads = reads) :
    ∃ leftover unread, readHead s = .ok (head, leftover) { s with reads := unread } ∧
      leftover ++ unread.flatten = taken ++ extra ∧ unread <:+ reads := by
  subst hreads
  obtain ⟨hend, -⟩ := findHeadEnd_append text (taken ++ extra) text.length hwhole.ends
  have hle : text.length ≤ maxHeadLen := by
    by_contra hlarge
    have hparse := parse_large text (Nat.not_le.mp hlarge)
    rw [hwhole.parses] at hparse
    cases hparse
  obtain ⟨leftover, unread, hsplit, hresult, hfinal, hsuf⟩ := readHead_early _ s hs text.length hend hle
  rw [List.take_left, headVerdict, hwhole.parses] at hresult
  rw [List.drop_left] at hsplit
  exact ⟨leftover, unread, run_of_result _ _ _ hresult hfinal, hsplit, hsuf⟩

include hlen

theorem serveRequest_whole (boundMethod boundTarget : Text) (url : Url) :
    Reading reads (serveRequest config boundMethod boundTarget url)
      (handle config boundMethod boundTarget url head body) := by
  intro w
  obtain ⟨leftover, rest, hhead, hsplit, hsuf⟩ :=
    readHead_whole config text taken extra head body reads hwhole hs (withReads reads w).stream rfl
  unfold serveRequest
  rw [run_bind_ok _ _ _ _ _ (onStream_ok readHead _ _ _ hhead)]
  simp only
  by_cases hbound : (!eqIgnoreCase head.method boundMethod || head.target != boundTarget) = true
  · unfold handle
    simp only [if_pos hbound]
    exact ⟨rest, rfl⟩
  · obtain ⟨unread, hbody⟩ := readBody_whole config.profile config.grant.maxRequestBody leftover taken body
      extra { w.stream with reads := rest } (fun r hr => hs.nonempty r (hsuf.mem hr)) hsplit head.framing
      hwhole.framed hlen
    refine ⟨unread, ?_⟩
    rw [← blind_handle]
    unfold handle
    simp only [if_neg hbound]
    exact run_bind_ok _ _ _ _ _ (onStream_ok _ (withReads rest w) _ _ hbody)

end Serve

/-! ## The connection -/

/-- A connection in which `serve` does the request on the descriptor. -/
def connectionWith (config : Config) (serve : Text → Text → Url → DaemonM Unit) : DaemonM Unit := do
  match ← attempt (onTransport readMintRequest) with
  | .error e =>
    let _ ← attempt (onTransport (send (.error e.text)))
    throw (.err e)
  | .ok (method, target) =>
    match config.grant.resolve config.parseUrl method target with
    | .error why =>
      onTransport (send (.error why.text))
      throw (.err (.denied why))
    | .ok (boundMethod, url) =>
      let boundTarget := boundTargetOf config.grant target
      handOver boundMethod boundTarget
      fun w => answered (serve boundMethod boundTarget url w)

theorem serveConnection_eq (config : Config) :
    serveConnection config = connectionWith config (serveRequest config) := by
  have hminted : serveMinted config = fun boundMethod boundTarget url =>
      handOver boundMethod boundTarget >>= fun _ w =>
        answered (serveRequest config boundMethod boundTarget url w) := by
    funext boundMethod boundTarget url w
    rw [serveMinted_eq]
    cases hhand : handOver boundMethod boundTarget w with
    | ok a w' =>
      exact (run_bind_ok _ (fun _ w => answered (serveRequest config boundMethod boundTarget url w)) _ _ a
        hhand).symm
    | error e w' => exact (run_bind_error _ _ _ _ _ hhand).symm
  unfold serveConnection
  exact hminted ▸ rfl

theorem blind_handOver (reads : List Bytes) (boundMethod boundTarget : Text) :
    Blind (withReads reads) (handOver boundMethod boundTarget) := by
  have hlast := blind_fail reads (·.intoStreamError) fun _ => rfl
  have hsend := fun message => blind_transport reads (send message)
  unfold handOver
  have hfirst := blind_fail reads (·.socketpairError) fun _ => rfl
  rw [← bind_assoc]
  exact blind_bind _ _ hfirst fun _ => blind_bind _ _ (hsend _) fun _ =>
    blind_bind _ _ (hsend _) fun _ => blind_bind _ _ (hsend _) fun _ => hlast

theorem answered_reading (reads : List Bytes) (m m' : DaemonM Unit) (h : Reading reads m m') :
    Reading reads (fun w => answered (m w)) (fun w => answered (m' w)) := by
  intro w
  obtain ⟨unread, hrun⟩ := h w
  refine ⟨unread, ?_⟩
  simp only [hrun]
  cases m' w with
  | ok a w' => rfl
  | error e w' =>
    cases e with
    | panic => rfl
    | fuel => rfl
    | err e =>
      have hreport : reported e (withReads unread w') = withReads unread (reported e w') := by
        unfold reported
        rw [blind_writeResponse unread]
        cases onStream (writeResponse (refusalFor e).1 (refusalFor e).2) w' <;> rfl
      simp only [mapState, answered, hreport]

theorem connection_reading (config : Config) (reads : List Bytes)
    (serve serve' : Text → Text → Url → DaemonM Unit)
    (h : ∀ m t url, Reading reads (serve m t url) (serve' m t url)) :
    Reading reads (connectionWith config serve) (connectionWith config serve') := by
  unfold connectionWith
  apply reading_bind _ _ _ _ (blind_attempt _ _ (blind_transport _ _))
  intro asked
  cases asked with
  | error e =>
    exact reading_of_blind _ _ (blind_bind _ _ (blind_attempt _ _ (blind_transport _ _)) fun _ =>
      blind_throw _)
  | ok asked =>
    simp only
    cases config.grant.resolve config.parseUrl asked.1 asked.2 with
    | error why =>
      exact reading_of_blind _ _ (blind_bind _ _ (blind_transport _ _) fun _ => blind_throw _)
    | ok found =>
      exact reading_bind _ _ _ _ (blind_handOver _ _ _) fun _ => answered_reading _ _ _ (h _ _ _)

/-- The connection as if the request were there at once, with nothing behind it. -/
def serveWhole (config : Config) (head : RequestHead) (body : Bytes) : DaemonM Unit :=
  connectionWith config fun boundMethod boundTarget url =>
    handle config boundMethod boundTarget url head body

/-- **One request**: a connection that gets a whole request does what that request says, once, however
its bytes come, and whatever comes behind them. -/
theorem one_request_served (config : Config) (text taken : Bytes) (head : RequestHead) (body : Bytes)
    (hwhole : Whole config.grant.maxRequestBody text taken head body) (extra : Bytes)
    (reads : List Bytes) (hs : Segmented maxRead (text ++ (taken ++ extra)) reads)
    (hlen : (taken ++ extra).length < u64Bound) (w : World) :
    ∃ unread, serveConnection config (withReads reads w) =
      mapState (withReads unread) (serveWhole config head body w) := by
  rw [serveConnection_eq]
  exact connection_reading config reads _ _
    (serveRequest_whole config text taken extra head body reads hwhole hs hlen) w

def chunkedText : Bytes := ascii "GET /x HTTP/1.1\r\nTransfer-Encoding: chunked\r\n\r\n"

def chunkedHead : RequestHead where
  method := ascii "GET"
  target := ascii "/x"
  version := .http11
  headers := [(ascii "Transfer-Encoding", ascii "chunked")]
  framing := .chunked

def chunkedTaken : Bytes := ascii "3\r\nabc\r\n0\r\n\r\n"

theorem chunked_whole : Whole Join.grantBelow.maxRequestBody chunkedText chunkedTaken chunkedHead (ascii "abc") where
  parses := by decide +kernel
  ends := by decide
  framed := by
    have hlast : Encodes (ascii "0\r\n\r\n") [] :=
      @Encodes.last [48] ⟨by decide, by decide, List.all_eq_true.mp (by decide), by decide⟩
    have hchunk : Encodes chunkedTaken (ascii "abc") :=
      @Encodes.chunk [51] (ascii "abc") _ [] ⟨by decide, by decide, List.all_eq_true.mp (by decide), by decide⟩
        (by decide) hlast
    exact ⟨hchunk, by decide, by decide⟩

/-- Two requests at once, and the second of them is never served. -/
def twoRequests : List Bytes :=
  [chunkedText ++ ascii "3\r\na", ascii "bc\r\n0\r\n\r\nGET /y HTTP/1.1\r\n\r\n"]

theorem one_request_served_chunked :
    (finalState (serveConnection (configFor (answerWith plainName (ascii "v")))
      (minting (ascii "GET") (ascii "/x") twoRequests))).fetches =
      [{ bareCall with body := ascii "abc" }] := by
  have hs : Segmented maxRead (chunkedText ++ (chunkedTaken ++ ascii "GET /y HTTP/1.1\r\n\r\n")) twoRequests := by
    refine ⟨by decide, ?_, ?_⟩
    · simp [twoRequests, ascii, chunkedText]
    · simp [twoRequests, ascii, chunkedText, maxRead]
  obtain ⟨unread, hrun⟩ := one_request_served (configFor (answerWith plainName (ascii "v"))) _ _ _ _
    chunked_whole _ twoRequests hs (by decide) (minting (ascii "GET") (ascii "/x") [])
  have hfetches : (finalState (serveWhole (configFor (answerWith plainName (ascii "v"))) chunkedHead
      (ascii "abc") (minting (ascii "GET") (ascii "/x") []))).fetches =
      [{ bareCall with body := ascii "abc" }] := by
    decide +kernel
  have hworld : withReads twoRequests (minting (ascii "GET") (ascii "/x") []) =
      minting (ascii "GET") (ascii "/x") twoRequests := rfl
  rw [hworld] at hrun
  rw [hrun, ← hfetches]
  cases serveWhole (configFor (answerWith plainName (ascii "v"))) chunkedHead (ascii "abc")
    (minting (ascii "GET") (ascii "/x") []) <;> rfl

end Capcurl.OneRequest
