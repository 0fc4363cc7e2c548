import Capcurl.Lib.Numeral
import Capcurl.Lib.Split

/-! # Request-target validation

From `capcurl-grant/src/target.rs`. Everything here rejects; nothing is repaired.
-/

namespace Capcurl.Policy

open Lib

def maxTargetLen : Nat := 4096

inductive TargetError where
  | notOriginForm
  | protocolRelative
  | nonAscii
  | fragment
  | dotSegment
  | emptySegment
  | badEscape
  | encodedSeparator
  | queryNotAllowed
  | tooLong
  deriving DecidableEq, Repr

def TargetError.text : TargetError → Text
  | .notOriginForm => ascii "must be an origin-form target beginning with '/'"
  | .protocolRelative => ascii "must not begin with '//'"
  | .nonAscii => ascii "contains a byte that is not printable US-ASCII"
  | .fragment => ascii "must not contain a fragment"
  | .dotSegment => ascii "must not contain '.' or '..' path segments"
  | .emptySegment => ascii "must not contain empty path segments"
  | .badEscape => ascii "contains a malformed percent-escape"
  | .encodedSeparator => ascii "must not contain an encoded path separator"
  | .queryNotAllowed => ascii "this capability does not permit a query string"
  | .tooLong => ascii "longer than " ++ decimal maxTargetLen ++ ascii " bytes"

/-- A request-target, checked and split. The path has lost its leading `/`. -/
structure NormalizedTarget where
  path : Text
  query : Option Text
  deriving DecidableEq, Repr

/-! ## Percent-escapes -/

/-- Every `%` introduces a well-formed escape. -/
def checkEscapes : Text → Except TargetError Unit
  | [] => return ()
  | b :: rest =>
    if b = ch '%' then
      match rest with
      | hi :: lo :: rest =>
        if !isHexDigit hi || !isHexDigit lo then throw .badEscape else checkEscapes rest
      | _ => throw .badEscape
    else checkEscapes rest

def percentDecode : Text → Except TargetError Bytes
  | [] => return []
  | b :: rest =>
    if b = ch '%' then
      match rest with
      | hi :: lo :: rest =>
        match toDigit 16 hi, toDigit 16 lo with
        | some hi, some lo => return UInt8.ofNat (hi * 16 + lo) :: (← percentDecode rest)
        | _, _ => throw .badEscape
      | _ => throw .badEscape
    else return b :: (← percentDecode rest)

/-! ## Segments -/

/-- One turn of the segment loop of `check_path`. -/
def checkSegment (allowEncodedSeparators last : Bool) (segment : Text) : Except TargetError Unit :=
  if segment.isEmpty then
    -- A trailing slash is fine; an empty segment in the middle is not.
    if last then return () else throw .emptySegment
  else do
    let decoded ← percentDecode segment
    if decoded = ascii "." ∨ decoded = ascii ".." then throw .dotSegment
    if !allowEncodedSeparators && decoded.any (fun b => b == ch '/' || b == ch '\\') then
      throw .encodedSeparator

def checkSegments (allowEncodedSeparators : Bool) : List Text → Except TargetError Unit
  | [] => return ()
  | segment :: rest => do
    checkSegment allowEncodedSeparators rest.isEmpty segment
    checkSegments allowEncodedSeparators rest

/-- The path with its leading `/`, segment by segment. -/
def checkPath (path : Text) (allowEncodedSeparators : Bool) : Except TargetError Unit := do
  checkEscapes path
  checkSegments allowEncodedSeparators ((path.drop 1).splitOn (ch '/'))

def normalizeTarget (target : Text) (allowEncodedSeparators : Bool) :
    Except TargetError NormalizedTarget := do
  if target.length > maxTargetLen then throw .tooLong
  if !target.all isGraphic then throw .nonAscii
  if !(ascii "/").isPrefixOf target then throw .notOriginForm
  if (ascii "//").isPrefixOf target then throw .protocolRelative
  if target.contains (ch '#') then throw .fragment
  let (path, query) := match splitOnce (ch '?') target with
    | some (path, query) => (path, some query)
    | none => (target, none)
  checkPath path allowEncodedSeparators
  if let some query := query then checkEscapes query
  return { path := path.drop 1, query }

end Capcurl.Policy
