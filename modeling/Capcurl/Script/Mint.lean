import Capcurl.Core.Exchange
import Capcurl.Lib.Frames

/-! # The script that mints without the library

From `examples/mint.py`. What `recvmsg` returns is a chunk: bytes, and the descriptors that come with the
first of them.
-/

namespace Capcurl.Script

open Lib Http

inductive Raised where
  | exit (text : Text)
  | runtimeError (text : Text)
  | structError
  | unicodeError
  | valueError
  | indexError
  deriving DecidableEq, Repr

abbrev Socket := List (Chunk Byte Nat)

def argType : Nat := 1

def fdType : Nat := 4

def errorType : Nat := 6

def endType : Nat := 255

/-! ## The handshake -/

/-- `struct.pack` of two numbers of 32 bits. -/
def packHeader (fieldType length : Nat) : Bytes := encodeLE 4 fieldType ++ encodeLE 4 length

def frame (fieldType : Nat) (payload : Bytes) : Except Raised Bytes :=
  if payload.length < 2 ^ 32 then return packHeader fieldType payload.length ++ payload
  else throw .structError

/-- What `mint` sends. -/
def mintRequest (method target : Text) : Except Raised Bytes :=
  return (← frame argType method) ++ (← frame argType target) ++ (← frame endType [])

def recvExactly (n : Nat) (fds : List Nat) (socket : Socket) :
    Except (Halt Raised) (Bytes × List Nat × Socket) :=
  match readExactly n [] fds socket with
  | some r => return r
  | none => throw (.err (.runtimeError (ascii "capability closed during the mint handshake")))

/-- The frame at the beginning of a turn of the loop: its type and its payload. -/
def recvFrame (fds : List Nat) (socket : Socket) :
    Except (Halt Raised) (Nat × Bytes × List Nat × Socket) := do
  let (head, fds, socket) ← recvExactly 8 fds socket
  let (payload, fds, socket) ← recvExactly (decodeLE (head.drop 4)) fds socket
  return (decodeLE (head.take 4), payload, fds, socket)

def decode (payload : Bytes) : Except (Halt Raised) Text :=
  match fromUtf8 payload with
  | some text => return text
  | none => throw (.err .unicodeError)

/-- The loop of `mint`: a descriptor, and what it is bound to. -/
def mintLoop (method target : Text) :
    Nat → List Text → List Nat → Socket → Except (Halt Raised) (Nat × List Text)
  | 0, _, _, _ => throw .fuel
  | fuel + 1, bound, fds, socket => do
    let (fieldType, payload, fds, socket) ← recvFrame fds socket
    if fieldType = argType then
      let value ← decode payload
      mintLoop method target fuel (bound ++ [value]) fds socket
    else if fieldType = errorType then
      let text ← decode payload
      throw (.err (.runtimeError text))
    else if fieldType = fdType then
      match fds with
      | [] => throw (.err (.runtimeError (ascii "daemon promised a descriptor but sent none")))
      | fd :: _ => return (fd, (bound ++ [method, target]).take 2)
    else throw (.err (.runtimeError (ascii "unexpected message type " ++ decimal fieldType)))

/-- What `mint` makes of the replies. -/
def mint (method target : Text) (socket : Socket) : Except (Halt Raised) (Nat × List Text) :=
  mintLoop method target ((dataOf socket).length + 1) [] [] socket

/-! ## The request -/

/-- What `main` sends on the descriptor. -/
def request (boundMethod boundTarget : Text) : Bytes :=
  boundMethod ++ ascii " " ++ boundTarget ++ ascii " HTTP/1.1\r\n" ++
    (ascii "Host: capability.invalid\r\n" ++ ascii "Content-Length: 0\r\n\r\n")

/-- What the descriptor yields, up to a read of nothing. -/
def readResponse : List Bytes → Bytes
  | [] => []
  | chunk :: chunks => if chunk.isEmpty then [] else chunk ++ readResponse chunks

/-- `bytes.partition`, at the blank line: the head, and the body. -/
def partition (response : Bytes) : Bytes × Bytes :=
  match findSeq (crlf ++ crlf) response with
  | some i => (response.take i, response.drop (i + 4))
  | none => (response, [])

/-- What `main` prints of the response: the first line of the head, and the body. -/
def printed (response : Bytes) : Except Raised Text :=
  let (head, body) := partition response
  match firstLine (decodeReplace head) with
  | some line => return line ++ ascii "\n" ++ decodeReplace body
  | none => throw .indexError

/-- What the script sends on its two sockets. -/
structure Sent where
  asked : Bytes
  request : Bytes
  deriving DecidableEq, Repr

/-- `main` up to the response, of its `argv` and what the control socket yields. -/
def sends (argv : List Text) (control : Socket) : Except (Halt Raised) Sent := do
  match argv with
  | _script :: _endpoint :: rest =>
    let target := rest.headD (ascii "/")
    let method := rest.getD 1 (ascii "GET")
    let asked ← (mintRequest method target).mapError .err
    match ← mint method target control with
    | (_fd, [boundMethod, boundTarget]) => return { asked, request := request boundMethod boundTarget }
    | _ => throw (.err .valueError)
  | argv => throw (.err (.exit (ascii "usage: " ++ argv.headD [] ++ ascii " <endpoint> [target] [method]")))

/-- The script, of what the descriptor yields besides: what it has sent, and what it prints. -/
def main (argv : List Text) (control : Socket) (chunks : List Bytes) : Except (Halt Raised) (Sent × Text) := do
  let sent ← sends argv control
  let text ← (printed (readResponse chunks)).mapError .err
  return (sent, text)

end Capcurl.Script
