import Capcurl.Core.Exchange

/-!
# The minted descriptor: two programs and the channel between them

`request_over_fd`, and what `serve_connection` does after the mint, side by side on the two ends of
one socket. What a program computes between two operations on its end belongs to the first of them.
A write puts any part of what is left into the channel, up to its capacity; it fails once the peer
has closed its end. A read takes any part of what is there, also when the peer is gone.
-/

namespace Capcurl.Core

open Lib Http Policy

/-! ## The client -/

/-- Where `request_over_fd` stands: the buffers it has still to write, what it has read of the
response, or what it returned. -/
inductive Client where
  | writing (pending : List Bytes)
  | readingHead (buf : Bytes)
  | readingBody (status : UInt16) (reason : Text) (headers : List Header) (length : Nat) (buf : Bytes)
  | returned (r : Except (Halt CoreError) Response)

def Client.start (method target : Text) (headers : List Header) (body : Bytes) : Client :=
  .writing [requestHead method target headers body.length, body]

/-- The check of the body loop of `read_response`. -/
def Client.resumeBody (status : UInt16) (reason : Text) (headers : List Header) (length : Nat)
    (buf : Bytes) : Client :=
  match lengthCheck length buf with
  | none => .readingBody status reason headers length buf
  | some (.error e) => .returned (.error e)
  | some (.ok body) =>
    .returned (.ok {
      status, reason, headers, body
      refused := (header headers (ascii "x-capcurl-refused")).isSome })

/-- What `read_response` makes of the end of the head. -/
def Client.parsed (found : Nat × Bytes) : Client :=
  match parseStatusAndHeaders (found.2.take found.1) with
  | .error e => .returned (.error (.err e))
  | .ok (status, reason, headers) =>
    match declaredLength headers with
    | .error e => .returned (.error (.err e))
    | .ok length => resumeBody status reason headers length (found.2.drop found.1)

/-- The check of the head loop of `read_response`. -/
def Client.resumeHead (buf : Bytes) : Client :=
  match responseHeadCheck buf with
  | none => .readingHead buf
  | some (.error e) => .returned (.error e)
  | some (.ok found) => parsed found

theorem Client.resumeHead_nil : Client.resumeHead [] = .readingHead [] := rfl

/-- What the client does with the bytes of a read. -/
def Client.read : Client → Bytes → Client
  | .readingHead buf, part => resumeHead (buf ++ part)
  | .readingBody status reason headers length buf, part =>
    resumeBody status reason headers length (buf ++ part)
  | client, _ => client

/-- What the client does with the end of the stream. -/
def Client.ended : Client → Client
  | .readingHead _ =>
    .returned (.error (.err (.handshake (ascii "capability closed before a complete response head"))))
  | .readingBody _ _ _ length buf => .returned (.error (.err (closedAfter buf.length length)))
  | client => client

def Client.isReading : Client → Bool
  | .readingHead _ => true
  | .readingBody .. => true
  | _ => false

/-- The bytes that the client has still to write. -/
def Client.left : Client → Bytes
  | .writing pending => pending.flatten
  | _ => []

/-! ## The daemon -/

/-- What the daemon serves on the descriptor. -/
structure Mint where
  config : Config
  boundMethod : Text
  boundTarget : Text
  url : Url

/-- Where the daemon stands: what it has read of the request, or the buffers that it has still to
write, for an answer or for a refusal. -/
inductive Daemon where
  | readingHead (buf : Bytes)
  | readingBody (head : RequestHead) (buf : Bytes)
  | writing (outcome : Except CoreError Unit) (pending : List Bytes)
  | shut
  | closed

def Daemon.refuse (e : CoreError) : Daemon :=
  .writing (.error e) [(refusalFor e).1.encode (refusalFor e).2.length, (refusalFor e).2]

/-- A panic unwinds, which closes the descriptor. -/
def Daemon.fail : Halt CoreError → Daemon
  | .err e => refuse e
  | .panic => .closed
  | .fuel => .closed

/-- What `serve_request` does once it has the body. -/
def Daemon.relay (m : Mint) (head : RequestHead) (body : Bytes) : Daemon :=
  match m.config.grant.applyHeaders (clientHeaders head.headers) with
  | .error why => refuse (.denied why)
  | .ok headers =>
    match fetch m.config.net m.config.grant m.boundMethod m.url headers body with
    | .error e => refuse e
    | .ok response =>
      .writing (.ok ()) [(relayHead response).encode response.body.length, response.body]

/-- The check of `read_body`, for each framing. -/
def bodyCheck (profile : Profile) (framing : Framing) (limit : UInt64) (buf : Bytes) :
    Option (Except (Halt CoreError) Bytes) :=
  match framing with
  | .none => some (.ok [])
  | .length len =>
    if len > limit then some (.error (.err (.denied (.tooLarge .request limit))))
    else lengthCheck len.toNat buf
  | .chunked => chunkedCheck profile limit buf

/-- The error of `read_body` for a stream that ends first. -/
def bodyEnded (framing : Framing) (buf : Bytes) : CoreError :=
  match framing with
  | .length len => closedAfter buf.length len.toNat
  | _ => .http .badChunk

def Daemon.resumeBody (m : Mint) (head : RequestHead) (buf : Bytes) : Daemon :=
  match bodyCheck m.config.profile head.framing m.config.grant.maxRequestBody buf with
  | none => .readingBody head buf
  | some (.error e) => fail e
  | some (.ok body) => relay m head body

/-- What `serve_request` makes of a head, and the bytes that came with it. -/
def Daemon.parsed (m : Mint) (found : RequestHead × Bytes) : Daemon :=
  if !eqIgnoreCase found.1.method m.boundMethod || found.1.target != m.boundTarget then
    refuse (.denied .notFixedRequest)
  else resumeBody m found.1 found.2

def Daemon.resumeHead (m : Mint) (buf : Bytes) : Daemon :=
  match headCheck buf with
  | none => .readingHead buf
  | some (.error e) => fail e
  | some (.ok found) => parsed m found

def Daemon.read (m : Mint) : Daemon → Bytes → Daemon
  | .readingHead buf, part => resumeHead m (buf ++ part)
  | .readingBody head buf, part => resumeBody m head (buf ++ part)
  | daemon, _ => daemon

def Daemon.ended : Daemon → Daemon
  | .readingHead _ => refuse (.handshake (ascii "capability closed before a complete request head"))
  | .readingBody head buf => refuse (bodyEnded head.framing buf)
  | daemon => daemon

def Daemon.isReading : Daemon → Bool
  | .readingHead _ => true
  | .readingBody .. => true
  | _ => false

/-! ## Both -/

structure Capacity where
  up : Nat
  down : Nat
  up_pos : 0 < up
  down_pos : 0 < down

/-- The bytes under way in both directions, and both programs. -/
structure Duplex where
  up : Bytes
  down : Bytes
  client : Client
  daemon : Daemon

def Duplex.start (method target : Text) (headers : List Header) (body : Bytes) : Duplex :=
  ⟨[], [], Client.start method target headers body, .readingHead []⟩

/-- The text of an I/O error for a peer that is gone. -/
def brokenPipe : Text := ascii "Broken pipe (os error 32)"

inductive Step (m : Mint) (cap : Capacity) : Duplex → Duplex → Prop where
  | clientWrites (up down part more : Bytes) (rest : List Bytes) (daemon : Daemon) (hpart : part ≠ [])
    (hroom : (up ++ part).length ≤ cap.up) (hopen : daemon ≠ .closed) :
    Step m cap ⟨up, down, .writing ((part ++ more) :: rest), daemon⟩
      ⟨up ++ part, down, .writing (more :: rest), daemon⟩
  | clientWrote (up down : Bytes) (rest : List Bytes) (daemon : Daemon) :
    Step m cap ⟨up, down, .writing ([] :: rest), daemon⟩ ⟨up, down, .writing rest, daemon⟩
  | clientTurns (up down : Bytes) (daemon : Daemon) :
    Step m cap ⟨up, down, .writing [], daemon⟩ ⟨up, down, Client.resumeHead [], daemon⟩
  | clientFails (up down buf : Bytes) (rest : List Bytes) (hbuf : buf ≠ []) :
    Step m cap ⟨up, down, .writing (buf :: rest), .closed⟩
      ⟨up, down, .returned (.error (.err (.io brokenPipe))), .closed⟩
  | clientReads (up part down : Bytes) (client : Client) (daemon : Daemon)
    (hreading : client.isReading = true) (hpart : part ≠ []) (hmax : part.length ≤ maxRead) :
    Step m cap ⟨up, part ++ down, client, daemon⟩ ⟨up, down, client.read part, daemon⟩
  | clientEnds (up : Bytes) (client : Client) (daemon : Daemon) (hreading : client.isReading = true)
    (hgone : daemon = .shut ∨ daemon = .closed) :
    Step m cap ⟨up, [], client, daemon⟩ ⟨up, [], client.ended, daemon⟩
  | daemonReads (part up down : Bytes) (client : Client) (daemon : Daemon)
    (hreading : daemon.isReading = true) (hpart : part ≠ []) (hmax : part.length ≤ maxRead) :
    Step m cap ⟨part ++ up, down, client, daemon⟩ ⟨up, down, client, daemon.read m part⟩
  | daemonEnds (down : Bytes) (r : Except (Halt CoreError) Response) (daemon : Daemon)
    (hreading : daemon.isReading = true) :
    Step m cap ⟨[], down, .returned r, daemon⟩ ⟨[], down, .returned r, daemon.ended⟩
  | daemonWrites (up down part more : Bytes) (rest : List Bytes) (client : Client)
    (outcome : Except CoreError Unit) (hpart : part ≠ []) (hroom : (down ++ part).length ≤ cap.down)
    (hopen : ∀ r, client ≠ .returned r) :
    Step m cap ⟨up, down, client, .writing outcome ((part ++ more) :: rest)⟩
      ⟨up, down ++ part, client, .writing outcome (more :: rest)⟩
  | daemonWrote (up down : Bytes) (rest : List Bytes) (client : Client)
    (outcome : Except CoreError Unit) :
    Step m cap ⟨up, down, client, .writing outcome ([] :: rest)⟩
      ⟨up, down, client, .writing outcome rest⟩
  /-- The client is gone; the report of that error would meet the same broken pipe. -/
  | daemonFails (up down buf : Bytes) (rest : List Bytes) (r : Except (Halt CoreError) Response)
    (outcome : Except CoreError Unit) (hbuf : buf ≠ []) :
    Step m cap ⟨up, down, .returned r, .writing outcome (buf :: rest)⟩
      ⟨up, down, .returned r, .shut⟩
  | daemonShuts (up down : Bytes) (client : Client) (outcome : Except CoreError Unit) :
    Step m cap ⟨up, down, client, .writing outcome []⟩ ⟨up, down, client, .shut⟩
  | daemonCloses (up down : Bytes) (client : Client) :
    Step m cap ⟨up, down, client, .shut⟩ ⟨up, down, client, .closed⟩

end Capcurl.Core
