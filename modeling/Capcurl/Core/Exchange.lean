import Capcurl.Core.Daemon

/-! # The client: minting a descriptor, and speaking HTTP/1.1 over it

From `capcurl-core/src/client.rs` and `capcurl-core/src/exchange.rs`.
-/

namespace Capcurl.Core

open Lib Http Policy

/-! ## Minting -/

structure MintedCapability where
  fd : Nat
  method : Text
  target : Text
  deriving DecidableEq, Repr

/-- What the daemon has reported so far, and how many arguments that took. -/
structure Bound where
  method : Text
  target : Text
  argsSeen : Nat

/-- The loop of `mint`. A turn takes a message off the inbox, or ends. -/
def readMintReply : Nat → Bound → TransportM MintedCapability
  | 0, _ => throw .fuel
  | fuel + 1, bound => do
    match ← recv with
    | none => throw (.err (.handshake (ascii "daemon closed the channel")))
    | some message =>
      match message.fieldType with
      | .arg =>
        let value ← asStr message
        match bound.argsSeen with
        | 0 => readMintReply fuel { bound with method := value, argsSeen := 1 }
        | 1 => readMintReply fuel { bound with target := value, argsSeen := 2 }
        | _ => throw (.err (.handshake (ascii "too many bound-request args")))
      | .fd =>
        match message.fds with
        | [fd] => return { fd, method := bound.method, target := bound.target }
        | fds =>
          throw (.err (.handshake
            (ascii "expected exactly one descriptor, got " ++ decimal fds.length)))
      | .error => throw (.err (.refused (← asStr message)))
      | .unauthorized =>
        throw (.err (.refused (ascii "authentication required: " ++ (← asStr message))))
      | other =>
        throw (.err (.handshake
          (ascii "unexpected " ++ other.debug ++ ascii " message during mint")))

/-- Asks the daemon for a descriptor bound to `method` and `target`. -/
def mint (method target : Text) : TransportM MintedCapability := do
  send (.arg method)
  send (.arg target)
  send .end_
  let t ← get
  readMintReply (t.inbox.length + 1) { method, target, argsSeen := 0 }

/-! ## The request -/

/-- The head that `request_over_fd` writes. -/
def requestHead (method target : Text) (headers : List Header) (bodyLen : Nat) : Bytes :=
  method ++ ascii " " ++ target ++ ascii " HTTP/1.1" ++ crlf ++
    (ascii "Host: capability.invalid" ++ crlf) ++
    headers.flatMap (fun field => headerLine field ++ crlf) ++
    (ascii "Content-Length: " ++ decimal bodyLen ++ crlf) ++ crlf

/-! ## The response -/

/-- A response read back off a minted descriptor. -/
structure Response where
  status : UInt16
  reason : Text
  headers : List Header
  body : Bytes
  refused : Bool
  deriving DecidableEq, Repr

/-- The header loop of `parse_status_and_headers`: up to the first empty line. -/
def parseFields : List Text → List Header → Except CoreError (List Header)
  | [], headers => return headers
  | line :: lines, headers =>
    if line.isEmpty then return headers
    else match splitOnce (ch ':') line with
      | none => throw (.http .badHeader)
      | some (name, value) => parseFields lines (headers ++ [(trim name, trim value)])

/-- The status line and the header fields of a response head. -/
def parseStatusAndHeaders (head : Bytes) : Except CoreError (UInt16 × Text × List Header) :=
  match fromUtf8 head with
  | none => throw (.http .badHeader)
  | some text =>
    match splitOnCrlf text with
    | [] => throw (.http .badHeader)
    | statusLine :: lines => do
      let parts := splitn (ch ' ') 3 statusLine
      let version := parts.headD []
      if version ≠ ascii "HTTP/1.1" ∧ version ≠ ascii "HTTP/1.0" then throw (.http .badVersion)
      let status ← match parts[1]? with
        | none => throw (.http .badHeader)
        | some status =>
          match parseUnsigned 10 65536 status with
          | some n => pure (UInt16.ofNat n)
          | none => throw (.http .badHeader)
      let reason := parts.getD 2 []
      let headers ← parseFields lines []
      return (status, reason, headers)

/-- What the head loop of `read_response` finds: the end of the head, or a reason to stop. -/
def responseHeadCheck (buf : Bytes) : Option (Except (Halt CoreError) (Nat × Bytes)) :=
  match findHeadEnd buf with
  | some stop => some (.ok (stop, buf))
  | none => if buf.length > maxHeadLen then some (.error (.err (.http .headTooLarge))) else none

/-- The body length that a response head declares. -/
def declaredLength (headers : List Header) : Except CoreError Nat :=
  match header headers (ascii "content-length") with
  | none => throw (.handshake (ascii "response had no Content-Length"))
  | some value =>
    match parseUnsigned 10 u64Bound (trim value) with
    | some n => return n
    | none => throw (.http .badContentLength)

/-- Reads a complete response, using the daemon's explicit `Content-Length`. -/
def readResponse : StreamM Response := do
  let (headEnd, buf) ← readLoop responseHeadCheck
    (fun _ => .handshake (ascii "capability closed before a complete response head")) []
  let (status, reason, headers) ← ofExcept (parseStatusAndHeaders (buf.take headEnd))
  let length ← ofExcept (declaredLength headers)
  let body ← readLoop (lengthCheck length) (fun body => closedAfter body.length length)
    (buf.drop headEnd)
  let refused := (header headers (ascii "x-capcurl-refused")).isSome
  return { status, reason, headers, body, refused }

/-- Performs the one request a minted descriptor is good for. -/
def requestOverFd (method target : Text) (headers : List Header) (body : Bytes) :
    StreamM Response := do
  writeAll (requestHead method target headers body.length)
  writeAll body
  readResponse

end Capcurl.Core
