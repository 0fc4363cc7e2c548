import Capcurl.Http.Response
import Capcurl.Policy.Grant

/-! # Errors shared by the client and daemon halves

From `capcurl-core/src/error.rs`. The transport, protocol and I/O errors belong to other crates:
they are held as the text they display.
-/

namespace Capcurl.Core

open Lib Http Policy

inductive CoreError where
  | transport (e : Text)
  | proto (e : Text)
  | io (e : Text)
  | handshake (why : Text)
  | refused (message : Text)
  | http (e : HttpError)
  | denied (why : Denied)
  | upstream (detail : Text)
  deriving DecidableEq, Repr

def CoreError.text : CoreError → Text
  | .transport e => ascii "transport error: " ++ e
  | .proto e => ascii "protocol error: " ++ e
  | .io e => ascii "i/o error: " ++ e
  | .handshake why => why
  | .refused message => message
  | .http e => e.text
  | .denied why => why.text
  | .upstream detail => ascii "upstream request failed: " ++ detail

end Capcurl.Core
