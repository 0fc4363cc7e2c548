import Capcurl.Core.Error

/-!
# The origin leg

From `capcurl-core/src/upstream.rs`. `reqwest` and `http` are not part of the repository: what the
daemon uses of them is the parameter `Net`, and their types carry what they promise.
-/

namespace Capcurl.Core

open Lib Http Policy

/-! ## What the HTTP client promises -/

/-- A header name: a token in lower case. -/
structure HeaderName where
  text : Text
  nonempty : text ≠ []
  token : text.all isTchar = true
  lower : lowercase text = text
  deriving DecidableEq

structure StatusCode where
  code : UInt16
  lower : 100 ≤ code.toNat
  upper : code.toNat ≤ 999
  deriving DecidableEq

/-- `HeaderValue::to_str` -/
def toStr (value : Bytes) : Option Text := if value.all isFieldByte then some value else none

structure ReqwestError where
  isTimeout : Bool
  isConnect : Bool
  isBody : Bool
  isDecode : Bool
  deriving DecidableEq, Repr

structure OriginRequest where
  method : Text
  url : Url
  headers : List (Text × Text)
  body : Bytes
  deriving DecidableEq

/-- An origin's answer. `chunk` yields the chunks of its body in order. -/
structure OriginResponse where
  status : StatusCode
  headers : List (HeaderName × Bytes)
  contentLength : Option UInt64
  chunks : List (Except ReqwestError Bytes)

structure Net where
  methodFromBytes : Text → Option Text
  headerName : Text → Option Text
  headerValue : Text → Option Text
  canonicalReason : UInt16 → Option Text
  send : OriginRequest → Except ReqwestError OriginResponse

/-! ## The request -/

structure UpstreamResponse where
  status : StatusCode
  reason : Text
  headers : List (HeaderName × Bytes)
  body : Bytes

def describe (e : ReqwestError) : Text :=
  if e.isTimeout then ascii "timed out"
  else if e.isConnect then ascii "could not connect to the origin"
  else if e.isBody || e.isDecode then ascii "malformed response from the origin"
  else ascii "request to the origin failed"

/-- The loop of `read_capped`, with the body so far. -/
def readCapped (limit : UInt64) (body : Bytes) : List (Except ReqwestError Bytes) → Except CoreError Bytes
  | [] => return body
  | .error e :: _ => throw (.upstream (describe e))
  | .ok chunk :: chunks =>
    if body.length + chunk.length > limit.toNat then throw (.denied (.tooLarge .response limit))
    else readCapped limit (body ++ chunk) chunks

/-- One turn of the header loop of `fetch`. -/
def appendHeader (net : Net) (map : List (Text × Text)) (field : Text × Text) :
    Except CoreError (List (Text × Text)) :=
  match net.headerName field.1 with
  | none => throw (.upstream (ascii "unusable header name"))
  | some name =>
    match net.headerValue field.2 with
    | none => throw (.upstream (ascii "unusable header value"))
    | some value => return map ++ [(name, value)]

def fetch (net : Net) (grant : Grant) (method : Text) (url : Url) (headers : List (Text × Text))
    (body : Bytes) : Except CoreError UpstreamResponse := do
  match net.methodFromBytes method with
  | none => throw (.upstream (ascii "unusable method"))
  | some method =>
    let headers ← headers.foldlM (appendHeader net) []
    let response ← (net.send { method, url, headers, body }).mapError fun e => .upstream (describe e)
    let limit := grant.maxResponseBody
    if let some len := response.contentLength then
      if len > limit then throw (.denied (.tooLarge .response limit))
    let body ← readCapped limit [] response.chunks
    return {
      status := response.status
      reason := (net.canonicalReason response.status.code).getD (ascii "Unknown")
      headers := response.headers
      body }

end Capcurl.Core
