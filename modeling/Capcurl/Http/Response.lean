import Capcurl.Http.Head

/-! # Response framing

From `capcurl-http/src/response.rs`.
-/

namespace Capcurl.Http

open Lib

structure ResponseHead where
  status : UInt16
  reason : Text
  headers : List Header
  deriving DecidableEq, Repr

/-- Keeps a reason phrase from carrying a CRLF into the status line. -/
def sanitizeReason (reason : Text) : Text :=
  let cleaned := (reason.filter fun b => isGraphic b || b == ch ' ').take 64
  if cleaned.isEmpty then ascii "Unknown" else cleaned

def headerLine (field : Header) : Bytes := field.1 ++ ascii ": " ++ field.2

/-- The head for a body of `bodyLen` bytes: always an explicit length, and then the end. -/
def ResponseHead.encode (head : ResponseHead) (bodyLen : Nat) : Bytes :=
  ascii "HTTP/1.1 " ++ decimal head.status.toNat ++ ascii " " ++ sanitizeReason head.reason ++ crlf ++
    head.headers.flatMap (fun field => headerLine field ++ crlf) ++
    (ascii "Content-Length: " ++ decimal bodyLen ++ crlf) ++
    (ascii "Connection: close" ++ crlf ++ crlf)

/-- A refusal by the daemon, not anything the origin said. -/
def ResponseHead.refusal (status : UInt16) (reason detail : Text) : ResponseHead × Bytes :=
  ({ status
     reason
     headers := [(ascii "Content-Type", ascii "text/plain; charset=utf-8"),
       (ascii "X-Capcurl-Refused", ascii "1")] },
    ascii "capcurl: " ++ detail ++ ascii "\n")

/-- Names that describe one connection rather than the message. -/
def hopByHop : List Text :=
  ["connection", "content-length", "keep-alive", "proxy-authenticate", "proxy-authorization",
    "proxy-connection", "te", "trailer", "transfer-encoding", "upgrade"].map ascii

/-- Whether a header must be dropped when relaying. The origin's `Connection` value nominates
further names. -/
def isHopByHop (name : Text) (connectionHeader : Option Text) : Bool :=
  let lower := lowercase name
  if hopByHop.contains lower then true
  else match connectionHeader with
    | some value => (value.splitOn (ch ',')).any fun nominated => eqIgnoreCase (trim nominated) lower
    | none => false

end Capcurl.Http
