import Capcurl.Core.Channel
import Capcurl.Core.Upstream
import Capcurl.Http.Chunked
import Capcurl.Http.Request

/-! # The daemon: mint a descriptor, then serve the one request it is good for

From `capcurl-core/src/daemon.rs`.
-/

namespace Capcurl.Core

open Lib Http Policy

/-- A call of `upstream::fetch`. -/
structure FetchCall where
  method : Text
  url : Url
  headers : List (Text × Text)
  body : Bytes
  deriving DecidableEq

/-- Everything a run of the daemon sees and does. -/
structure World where
  transport : Transport
  /-- Why `socketpair` fails, if it does. -/
  socketpairError : Option Text
  /-- Why `into_stream` fails, if it does. -/
  intoStreamError : Option Text
  stream : Stream
  fetches : List FetchCall

abbrev DaemonM := EStateM (Halt CoreError) World

def onTransport {α : Type} (m : TransportM α) : DaemonM α := fun w =>
  match m w.transport with
  | .ok a transport => .ok a { w with transport }
  | .error e transport => .error e { w with transport }

def onStream {α : Type} (m : StreamM α) : DaemonM α := fun w =>
  match m w.stream with
  | .ok a stream => .ok a { w with stream }
  | .error e stream => .error e { w with stream }

/-- The result of an action as a value. A panic is no value: it unwinds. -/
def attempt {σ α : Type} (m : EStateM (Halt CoreError) σ α) :
    EStateM (Halt CoreError) σ (Except CoreError α) := fun s =>
  match m s with
  | .ok a s => .ok (.ok a) s
  | .error (.err e) s => .ok (.error e) s
  | .error .panic s => .error .panic s
  | .error .fuel s => .error .fuel s

def ofExcept {σ α : Type} : Except CoreError α → EStateM (Halt CoreError) σ α
  | .ok a => return a
  | .error e => throw (.err e)

@[simp]
theorem ofExcept_ok_bind {σ α β : Type} (a : α) (f : α → EStateM (Halt CoreError) σ β) :
    (ofExcept (.ok a) >>= f) = f a := rfl

structure Config where
  grant : Grant
  parseUrl : Text → Option Url
  net : Net
  profile : Profile

/-- Headers that belong to the descriptor leg rather than to the client's intent. -/
def descriptorLegHeaders : List Text :=
  ["connection", "content-length", "expect", "host", "keep-alive", "proxy-connection", "te",
    "trailer", "transfer-encoding", "upgrade"].map ascii

/-! ## The mint -/

def mintArity : CoreError := .handshake (ascii "a mint takes exactly a method and a target")

/-- The loop of `read_mint_request`. A turn takes a message off the inbox, or ends. -/
def readMintArgs : Nat → List Text → TransportM (List Text)
  | 0, _ => throw .fuel
  | fuel + 1, args => do
    match ← recv with
    | none => throw (.err (.handshake (ascii "client closed the channel")))
    | some message =>
      match message.fieldType with
      | .arg =>
        if args.length ≥ 2 then throw (.err mintArity)
        let value ← asStr message
        readMintArgs fuel (args ++ [value])
      | .end_ => return args
      | other =>
        throw (.err (.handshake
          (ascii "unexpected " ++ other.debug ++ ascii " message during mint")))

/-- The mint handshake: method, target, `End`. -/
def readMintRequest : TransportM (Text × Text) := do
  let t ← get
  match ← readMintArgs (t.inbox.length + 1) [] with
  | [method, target] => return (method, target)
  | _ => throw (.err mintArity)

/-! ## The request on the descriptor -/

/-- What `read_head` finds in its buffer: the head and the bytes after it, or a reason to stop. -/
def headCheck (buf : Bytes) : Option (Except (Halt CoreError) (RequestHead × Bytes)) :=
  match findHeadEnd buf with
  | some stop =>
    match RequestHead.parse (buf.take stop) with
    | .ok head => some (.ok (head, buf.drop stop))
    | .error e => some (.error (.err (.http e)))
  | none => if buf.length > maxHeadLen then some (.error (.err (.http .headTooLarge))) else none

def readHead : StreamM (RequestHead × Bytes) :=
  readLoop headCheck
    (fun _ => .handshake (ascii "capability closed before a complete request head")) []

def closedAfter (have_ want : Nat) : CoreError :=
  .handshake (ascii "capability closed after " ++ decimal have_ ++ ascii " of " ++ decimal want ++
    ascii " body bytes")

/-- `while buf.len() < len { read }`, and what comes after it. -/
def lengthCheck (len : Nat) (buf : Bytes) : Option (Except (Halt CoreError) Bytes) :=
  if buf.length < len then none else some (.ok (buf.take len))

/-- The raw bytes a chunked body may occupy before the daemon gives up on it. -/
def rawBound (limit : UInt64) : Nat := saturatingAdd (saturatingMul limit.toNat 2) 4096

/-- What the chunked loop of `read_body` finds in its buffer. -/
def chunkedCheck (profile : Profile) (limit : UInt64) (buf : Bytes) :
    Option (Except (Halt CoreError) Bytes) :=
  match decodeChunked profile buf limit with
  | .ok (.complete body _) => some (.ok body)
  | .ok .needMore =>
    if buf.length > rawBound limit then some (.error (.err (.denied (.tooLarge .request limit))))
    else none
  | .error (.err e) => some (.error (.err (.http e)))
  | .error .panic => some (.error .panic)
  | .error .fuel => some (.error .fuel)

/-- The body, by the framing the head declared. `buf` holds what arrived with the head. -/
def readBody (profile : Profile) (framing : Framing) (buf : Bytes) (limit : UInt64) :
    StreamM Bytes :=
  match framing with
  | .none => return []
  | .length len =>
    if len > limit then throw (.err (.denied (.tooLarge .request limit)))
    else readLoop (lengthCheck len.toNat) (fun buf => closedAfter buf.length len.toNat) buf
  | .chunked => readLoop (chunkedCheck profile limit) (fun _ => .http .badChunk) buf

/-- The client headers that are not recomputed for the origin leg. -/
def clientHeaders (headers : List Header) : List Header :=
  headers.filter fun field => !descriptorLegHeaders.contains (lowercase field.1)

/-! ## The answer -/

/-- The origin's first `Connection` value, when it is text. -/
def connectionOf (headers : List (HeaderName × Bytes)) : Option Text :=
  ((headers.find? fun field => field.1.text == ascii "connection").map (·.2)).bind toStr

/-- The origin's headers that the client gets to see. -/
def relayHeaders (headers : List (HeaderName × Bytes)) : List Header :=
  headers.filterMap fun field =>
    if isHopByHop field.1.text (connectionOf headers) then none
    else (toStr field.2).map fun value => (field.1.text, value)

def relayHead (response : UpstreamResponse) : ResponseHead :=
  { status := response.status.code
    reason := response.reason
    headers := relayHeaders response.headers }

def writeResponse (head : ResponseHead) (body : Bytes) : StreamM Unit := do
  writeAll (head.encode body.length)
  writeAll body

/-- The HTTP response for an internal error. -/
def refusalFor : CoreError → ResponseHead × Bytes
  | .denied (.tooLarge what limit) =>
    let status := if what = .request then 413 else 502
    let reason := if what = .request then ascii "Content Too Large" else ascii "Bad Gateway"
    ResponseHead.refusal status reason (Denied.tooLarge what limit).text
  | .denied why => ResponseHead.refusal 403 (ascii "Forbidden") why.text
  | .http e => ResponseHead.refusal 400 (ascii "Bad Request") e.text
  | .upstream detail => ResponseHead.refusal 502 (ascii "Bad Gateway") detail
  | other => ResponseHead.refusal 500 (ascii "Internal Server Error") other.text

/-! ## One connection -/

/-- `upstream::fetch`, noting the call. -/
def callFetch (config : Config) (call : FetchCall) : DaemonM UpstreamResponse := do
  modify fun w => { w with fetches := w.fetches ++ [call] }
  ofExcept (fetch config.net config.grant call.method call.url call.headers call.body)

/-- Reads the request off the descriptor, relays it, writes the response back. -/
def serveRequest (config : Config) (boundMethod boundTarget : Text) (url : Url) : DaemonM Unit := do
  let (head, leftover) ← onStream readHead
  if !eqIgnoreCase head.method boundMethod || head.target != boundTarget then
    throw (.err (.denied .notFixedRequest))
  let body ← onStream (readBody config.profile head.framing leftover config.grant.maxRequestBody)
  let headers ← ofExcept ((config.grant.applyHeaders (clientHeaders head.headers)).mapError .denied)
  let response ← callFetch config { method := boundMethod, url, headers, body }
  onStream (writeResponse (relayHead response) response.body)

/-- The target the daemon binds: the pinned one on a pinned endpoint. -/
def boundTargetOf (grant : Grant) (target : Text) : Text :=
  match grant.fixed with
  | some fixed => fixed.target
  | none => target

def failWith (error : Option Text) : DaemonM Unit :=
  match error with
  | none => return ()
  | some e => throw (.err (.io e))

/-- The part of `serve_connection` after the mint: the descriptor is handed over, the request on it
is served, and a refusal is reported on it. -/
def serveMinted (config : Config) (boundMethod boundTarget : Text) (url : Url) : DaemonM Unit := do
  failWith (← get).socketpairError
  onTransport (send (.arg boundMethod))
  onTransport (send (.arg boundTarget))
  onTransport (send (.fds 1))
  failWith (← get).intoStreamError
  let outcome ← attempt (serveRequest config boundMethod boundTarget url)
  if let .error e := outcome then
    let (head, body) := refusalFor e
    let _ ← attempt (onStream (writeResponse head body))
  ofExcept outcome

/-- Serves one client: reads the mint request, hands back a descriptor, relays the one request it
carries. -/
def serveConnection (config : Config) : DaemonM Unit := do
  match ← attempt (onTransport readMintRequest) with
  | .error e =>
    let _ ← attempt (onTransport (send (.error e.text)))
    throw (.err e)
  | .ok (method, target) =>
    match config.grant.resolve config.parseUrl method target with
    | .error why =>
      onTransport (send (.error why.text))
      throw (.err (.denied why))
    | .ok (boundMethod, url) =>
      serveMinted config boundMethod (boundTargetOf config.grant target) url

end Capcurl.Core
