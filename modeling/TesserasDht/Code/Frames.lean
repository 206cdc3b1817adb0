import TesserasDht.Code.Wire

/-!
# Frames

`write_message` and `read_message` of `src/transport/quic.rs`, over the bytes of a QUIC stream. A
stream that is written to does not fail here, and one that is read from fails at its end.
-/

open Lib.Formats

namespace TesserasDht

/-- `MAX_MESSAGE_SIZE`: 4 MB of data and 1 KB for the envelope. -/
def maxMessageSize : Nat := 4 * 1024 * 1024 + 1024

/-- The bytes that are written, a length of four bytes first. -/
def writeMessage (data : Bytes) : Except TesseraError Bytes :=
  if maxMessageSize < data.length then
    .error (.network "outbound message too large")
  else if 2 ^ 32 ≤ data.length then
    .error (.network "message exceeds u32 length")
  else
    .ok (bigEndian 4 data.length ++ data)

/-- `read_exact` of a stream that holds the bytes and then ends. -/
def readExact (n : Nat) (stream : Bytes) : Option (Bytes × Bytes) :=
  if stream.length < n then none else some (stream.take n, stream.drop n)

/-- The message and the rest of the stream. `early` is what is said of a stream that ends early. -/
def readMessage (early : String) (stream : Bytes) : Except TesseraError (Bytes × Bytes) :=
  match readExact 4 stream with
  | none => .error (.network ("read len: " ++ early))
  | some (lenBuf, stream) =>
    let len := ofBigEndian lenBuf
    if maxMessageSize < len then
      .error (.network "message too large")
    else
      match readExact len stream with
      | none => .error (.network ("read data: " ++ early))
      | some r => .ok r

end TesserasDht
