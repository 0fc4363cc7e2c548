import Capcurl.Http.Head

/-! # Chunked transfer decoding

From `capcurl-http/src/chunked.rs`. The decoder works on the whole buffer: it finds a complete
body, asks for more bytes, or rejects. Sums of sizes and positions are 64-bit and depend on the
build profile where they overflow.
-/

namespace Capcurl.Http

open Lib

inductive ChunkedOutcome where
  | complete (body : Bytes) (consumed : Nat)
  | needMore
  deriving DecidableEq, Repr

def parseChunkSize (line : Bytes) : Except HttpError Nat :=
  if line.isEmpty || line.length > 16 || !line.all isHexDigit then throw .badChunk
  else match fromUtf8 line with
    | none => throw .badChunk
    | some text =>
      match parseUnsigned 16 u64Bound text with
      | some n => return n
      | none => throw .badChunk

def findCrlf (buf : Bytes) : Option Nat := findSeq crlf buf

abbrev ChunkState := Bytes × Nat

/-- The chunk of size zero, whose size line ends at `pos`: the trailer section must be empty, just
the final CRLF. -/
def lastTurn (input body : Bytes) (pos : Nat) :
    Except (Halt HttpError) (ChunkedOutcome ⊕ ChunkState) := do
  let rest ← slice input pos input.length
  match findCrlf rest with
  | none => return .inl .needMore
  | some 0 => return .inl (.complete body (pos + 2))
  | some _ => throw (.err .badChunk)

def dataTurn (profile : Profile) (input : Bytes) (limit : UInt64) (body : Bytes) (pos size : Nat) :
    Except (Halt HttpError) (ChunkedOutcome ⊕ ChunkState) := do
  let total ← addU64 profile body.length size
  if total > limit.toNat then throw (.err .bodyTooLarge)
  let dataEnd ← addU64 profile pos size
  let chunkEnd ← addU64 profile dataEnd 2
  if input.length < chunkEnd then return .inl .needMore
  let terminator ← slice input dataEnd chunkEnd
  if terminator ≠ crlf then throw (.err .badChunk)
  let data ← slice input pos dataEnd
  let advance ← addU64 profile size 2
  let next ← addU64 profile pos advance
  return .inr (body ++ data, next)

/-- One turn of the loop of `decode_chunked`. -/
def decodeTurn (profile : Profile) (input : Bytes) (limit : UInt64) :
    ChunkState → Except (Halt HttpError) (ChunkedOutcome ⊕ ChunkState)
  | (body, pos) => do
    let rest ← slice input pos input.length
    match findCrlf rest with
    | none => return .inl .needMore
    | some i =>
      let lineEnd := pos + i
      let sizeLine ← slice input pos lineEnd
      if sizeLine.contains (ch ';') then throw (.err .badChunk)
      let size ← (parseChunkSize sizeLine).mapError .err
      let pos := lineEnd + 2
      if size = 0 then lastTurn input body pos
      else dataTurn profile input limit body pos size

/-- Decodes a chunked body from the front of `input`, of at most `limit` decoded bytes. A turn
that goes on moves the position, so one turn for each byte is fuel enough. -/
def decodeChunked (profile : Profile) (input : Bytes) (limit : UInt64) :
    Except (Halt HttpError) ChunkedOutcome :=
  loop (decodeTurn profile input limit) (input.length + 1) ([], 0)

end Capcurl.Http
