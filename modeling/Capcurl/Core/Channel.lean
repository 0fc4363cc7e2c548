import Capcurl.Core.Error
import Capcurl.Lib.Reads

/-!
# The two channels of a session

The mint channel carries messages, the minted descriptor carries bytes. Each is the state of a
monad: what the peer and the kernel will do with it, and what has been done with it so far. What a
received message says is what the accessors of `capsudo_proto::Message` return.
-/

namespace Capcurl.Core

open Lib

/-! ## The mint channel -/

inductive FieldType where
  | arg
  | end_
  | fd
  | error
  | unauthorized
  | other (debug : Text)
  deriving DecidableEq, Repr

/-- `{:?}` of a field type. -/
def FieldType.debug : FieldType → Text
  | .arg => ascii "Arg"
  | .end_ => ascii "End"
  | .fd => ascii "Fd"
  | .error => ascii "Error"
  | .unauthorized => ascii "Unauthorized"
  | .other debug => debug

/-- A received message: its type, its `as_str`, and the descriptors that came with it. -/
structure Received where
  fieldType : FieldType
  asStr : Except Text Text
  fds : List Nat
  deriving DecidableEq

inductive Message where
  | arg (value : Text)
  | end_
  | error (text : Text)
  | fds (count : Nat)
  deriving DecidableEq, Repr

structure Transport where
  /-- What `recv` yields, in order; the peer has closed the channel when it is empty. -/
  inbox : List (Except Text Received)
  /-- The errors that the next sends meet; a send beyond the list succeeds. -/
  sendErrors : List (Option Text)
  sent : List Message

abbrev TransportM := EStateM (Halt CoreError) Transport

def recv : TransportM (Option Received) := fun t =>
  match t.inbox with
  | [] => .ok none t
  | .ok message :: inbox => .ok (some message) { t with inbox }
  | .error e :: inbox => .error (.err (.transport e)) { t with inbox }

def send (message : Message) : TransportM Unit := fun t =>
  match t.sendErrors with
  | [] => .ok () { t with sent := t.sent ++ [message] }
  | none :: sendErrors => .ok () { t with sendErrors, sent := t.sent ++ [message] }
  | some e :: sendErrors => .error (.err (.transport e)) { t with sendErrors }

/-- `received.message.as_str()?` -/
def asStr (message : Received) : TransportM Text :=
  match message.asStr with
  | .ok text => return text
  | .error e => throw (.err (.proto e))

/-! ## The descriptor -/

structure Stream where
  /-- What the reads return, in order. -/
  reads : List Bytes
  /-- After the reads: an I/O error, or the end of the stream. -/
  readError : Option Text
  /-- How many more bytes can be written before the peer is gone; `none` when it stays. -/
  room : Option Nat
  writeError : Text
  written : Bytes

abbrev StreamM := EStateM (Halt CoreError) Stream

def maxRead : Nat := 8192

/-- `loop { check; read }`: the check looks at the buffer and returns, or lets the loop read on.
`ended` is the error for a stream that ends first. -/
def readLoop {β : Type} (check : Bytes → Option (Except (Halt CoreError) β))
    (ended : Bytes → CoreError) (buf : Bytes) : StreamM β := fun s =>
  match feed check buf s.reads with
  | .stopped (.ok b) _ unread => .ok b { s with reads := unread }
  | .stopped (.error e) _ unread => .error e { s with reads := unread }
  | .starved buf =>
    match s.readError with
    | none => .error (.err (ended buf)) { s with reads := [] }
    | some e => .error (.err (.io e)) { s with reads := [] }

def writeAll (bytes : Bytes) : StreamM Unit := fun s =>
  match s.room with
  | none => .ok () { s with written := s.written ++ bytes }
  | some room =>
    if bytes.length ≤ room then
      .ok () { s with written := s.written ++ bytes, room := some (room - bytes.length) }
    else
      .error (.err (.io s.writeError)) { s with written := s.written ++ bytes.take room, room := some 0 }

end Capcurl.Core
