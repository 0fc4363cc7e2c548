import Capcurl.Lib.Checks
import Capcurl.Lib.Numeral
import Capcurl.Lib.Rust
import Capcurl.Lib.Split
import Capcurl.Lib.Utf8

/-!
# `capcurl-http`: errors, and what both head parsers share

From `capcurl-http/src/lib.rs`. A `String` is the list of its UTF-8 bytes.
-/

namespace Capcurl.Http

open Lib

def maxHeadLen : Nat := 64 * 1024

def maxHeaders : Nat := 128

inductive HttpError where
  | headTooLarge
  | tooManyHeaders
  | badRequestLine
  | badVersion
  | badHeader
  | obsFold
  | badContentLength
  | badTransferEncoding
  | conflictingFraming
  | upgrade
  | badChunk
  | bodyTooLarge
  deriving DecidableEq, Repr

def HttpError.text : HttpError → Text
  | .headTooLarge => ascii "request head exceeds " ++ decimal maxHeadLen ++ ascii " bytes"
  | .tooManyHeaders => ascii "more than " ++ decimal maxHeaders ++ ascii " header fields"
  | .badRequestLine => ascii "malformed request line"
  | .badVersion => ascii "unsupported HTTP version"
  | .badHeader => ascii "malformed header field"
  | .obsFold => ascii "obsolete line folding is not accepted"
  | .badContentLength => ascii "malformed Content-Length"
  | .badTransferEncoding => ascii "unsupported Transfer-Encoding"
  | .conflictingFraming => ascii "Content-Length and Transfer-Encoding must not both be present"
  | .upgrade => ascii "protocol upgrades are not supported"
  | .badChunk => ascii "malformed chunked body"
  | .bodyTooLarge => ascii "body exceeds the permitted size"

/-- A header field: its name and its value. -/
abbrev Header := Text × Text

/-- The offset just past the first CRLFCRLF. -/
def findHeadEnd (buf : Bytes) : Option Nat := (findSeq (crlf ++ crlf) buf).map (· + 4)

/-- Case-insensitive lookup over a header list. -/
def header (headers : List Header) (name : Text) : Option Text :=
  (headers.find? fun h => eqIgnoreCase h.1 name).map (·.2)

/-- `String::from_utf8` -/
def fromUtf8 (bytes : Bytes) : Option Text := if isUtf8 bytes then some bytes else none

theorem fromUtf8_of_ascii (t : Bytes) (h : Ascii t) : fromUtf8 t = some t := by
  unfold fromUtf8
  rw [if_pos (isUtf8_of_ascii t h)]

theorem header_eq_none_iff (headers : List Header) (name : Text) :
    header headers name = none ↔ ∀ h ∈ headers, eqIgnoreCase h.1 name = false := by
  simp [header]

theorem header_isSome_iff (headers : List Header) (name : Text) :
    (header headers name).isSome = true ↔ ∃ h ∈ headers, eqIgnoreCase h.1 name = true := by
  simp [header]

theorem header_append (a b : List Header) (name : Text)
    (h : ∀ x ∈ a, eqIgnoreCase x.1 name = false) : header (a ++ b) name = header b name := by
  have hnone : a.find? (fun x => eqIgnoreCase x.1 name) = none := by
    rw [List.find?_eq_none]
    intro x hx
    simp [h x hx]
  rw [header, List.find?_append, hnone, Option.none_or, header]

end Capcurl.Http
