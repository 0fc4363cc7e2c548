import Capcurl.Http.Head

/-! # Request head parsing

From `capcurl-http/src/request.rs`.
-/

namespace Capcurl.Http

open Lib

inductive Version where
  | http10
  | http11
  deriving DecidableEq, Repr

inductive Framing where
  | none
  | length (n : UInt64)
  | chunked
  deriving DecidableEq, Repr

structure RequestHead where
  method : Text
  target : Text
  version : Version
  headers : List Header
  framing : Framing
  deriving DecidableEq, Repr

/-! ## Lines -/

/-- One item of `split_crlf`, and the rest. -/
def splitCrlfNext (rest : Bytes) : Option (Bytes × Bytes) :=
  if rest.isEmpty then none
  else match findSeq crlf rest with
    | some i => some (rest.take i, rest.drop (i + 2))
    | none => some (rest, [])

def splitCrlf (buf : Bytes) : List Bytes := fromFn splitCrlfNext buf.length buf

/-! ## The request line -/

def isTokenByte (b : Byte) : Bool := isTchar b

def parseRequestLine (line : Bytes) : Except HttpError (Text × Text × Version) :=
  match splitn (ch ' ') 3 line with
  | method :: target :: version :: _ => do
    if method.isEmpty || target.isEmpty then throw .badRequestLine
    if target.contains (ch ' ') || version.contains (ch ' ') then throw .badRequestLine
    if !method.all isTokenByte then throw .badRequestLine
    if !target.all isGraphic then throw .badRequestLine
    let version ←
      if version = ascii "HTTP/1.1" then pure Version.http11
      else if version = ascii "HTTP/1.0" then pure Version.http10
      else throw .badVersion
    match fromUtf8 method, fromUtf8 target with
    | some method, some target => return (method, target, version)
    | _, _ => throw .badRequestLine
  | _ => throw .badRequestLine

/-! ## Header fields -/

def isOws (b : Byte) : Bool := b == ch ' ' || b == ch '\t'

def trimOws (v : Bytes) : Bytes := trimBy isOws v

def parseHeaderLine (line : Bytes) : Except HttpError Header :=
  match splitOnce (ch ':') line with
  | none => throw .badHeader
  | some (name, value) => do
    if name.isEmpty || !name.all isTokenByte then throw .badHeader
    let value := trimOws value
    if !value.all isFieldByte then throw .badHeader
    match fromUtf8 name, fromUtf8 value with
    | some name, some value => return (name, value)
    | _, _ => throw .badHeader

/-- The header loop of `RequestHead::parse`: up to the first empty line. -/
def parseHeaders : List Bytes → List Header → Except HttpError (List Header)
  | [], headers => return headers
  | line :: lines, headers => do
    if line.isEmpty then return headers
    if headers.length ≥ maxHeaders then throw .tooManyHeaders
    if line.head? = some (ch ' ') ∨ line.head? = some (ch '\t') then throw .obsFold
    let field ← parseHeaderLine line
    parseHeaders lines (headers ++ [field])

/-! ## Framing -/

def parseContentLength (value : Text) : Except HttpError UInt64 :=
  let value := trim value
  if value.isEmpty || !value.all isDigit then throw .badContentLength
  else match parseUnsigned 10 u64Bound value with
    | some n => return UInt64.ofNat n
    | none => throw .badContentLength

/-- What the loop of `framing_of` has seen: a length, and a Transfer-Encoding. -/
abbrev Seen := Option UInt64 × Bool

def framingStep (seen : Seen) (field : Header) : Except HttpError Seen := do
  if eqIgnoreCase field.1 (ascii "content-length") then
    let parsed ← parseContentLength field.2
    match seen.1 with
    | some existing => if existing ≠ parsed then throw .badContentLength else return (some parsed, seen.2)
    | none => return (some parsed, seen.2)
  else if eqIgnoreCase field.1 (ascii "transfer-encoding") then
    if !eqIgnoreCase (trim field.2) (ascii "chunked") then throw .badTransferEncoding
    if seen.2 then throw .badTransferEncoding
    return (seen.1, true)
  else return seen

def framingEnd : Seen → Except HttpError Framing
  | (some _, true) => throw .conflictingFraming
  | (some n, false) => return if n = 0 then .none else .length n
  | (none, true) => return .chunked
  | (none, false) => return .none

/-- Body framing, or a refusal of every way of specifying two. -/
def framingOf (headers : List Header) : Except HttpError Framing := do
  framingEnd (← headers.foldlM framingStep (none, false))

/-! ## The head -/

def RequestHead.parse (buf : Bytes) : Except HttpError RequestHead := do
  if buf.length > maxHeadLen then throw .headTooLarge
  match splitCrlf buf with
  | [] => throw .badRequestLine
  | requestLine :: lines =>
    if requestLine.isEmpty then throw .badRequestLine
    let (method, target, version) ← parseRequestLine requestLine
    let headers ← parseHeaders lines []
    let framing ← framingOf headers
    if (header headers (ascii "upgrade")).isSome then throw .upgrade
    return { method, target, version, headers, framing }

end Capcurl.Http
