import TesserasDht.Code.ChunkStore
import TesserasDht.Code.Frames

/-!
# Does a chunk fit into a message?

A byte of a chunk takes two bytes on the wire from 128 on, while the limit on messages leaves 1 KB for
everything but the bytes themselves.
-/

open Lib.Formats

namespace TesserasDht.Frames

/-! ## Frames -/

theorem readExact_append (v rest : Bytes) : readExact v.length (v ++ rest) = some (v, rest) := by
  have hlen : ¬ (v ++ rest).length < v.length := by
    rw [List.length_append]
    omega
  rw [readExact, if_neg hlen, List.take_left, List.drop_left]

theorem readMessage_writeMessage {data : Bytes} (h : data.length ≤ maxMessageSize) (early : String)
    (rest : Bytes) :
    writeMessage data = .ok (bigEndian 4 data.length ++ data) ∧
      readMessage early (bigEndian 4 data.length ++ data ++ rest) = .ok (data, rest) := by
  have hmax : maxMessageSize < 256 ^ 4 := by decide
  have hlen := readExact_append (bigEndian 4 data.length) (data ++ rest)
  have hnumber : ofBigEndian (bigEndian 4 data.length) = data.length := ofBigEndian_bigEndian (by omega)
  rw [length_bigEndian] at hlen
  constructor
  · rw [writeMessage, if_neg (by omega), if_neg (by omega)]
  · rw [readMessage, List.append_assoc, hlen]
    dsimp only
    rw [hnumber, if_neg (by omega), readExact_append]

/-- The bytes of the message are within the limit, and they can be written and read. -/
structure Fits (m : Message) : Prop where
  length_le : m.toVec.length ≤ maxMessageSize
  accepted : ∃ frame, writeMessage m.toVec = .ok frame ∧
    ∀ early rest, readMessage early (frame ++ rest) = .ok (m.toVec, rest)

theorem fits_iff (m : Message) : Fits m ↔ m.toVec.length ≤ maxMessageSize := by
  refine ⟨Fits.length_le, fun h => ⟨h, _, (readMessage_writeMessage h "" []).1, fun early rest => ?_⟩⟩
  exact (readMessage_writeMessage h early rest).2

/-! ## Lengths -/

/-- The bytes that take two on the wire. -/
def high (v : Bytes) : Nat := v.countP fun b => 128 ≤ b

/-- What the bytes of a vector take on the wire, without its length. -/
def size (v : Bytes) : Nat := v.length + high v

theorem sum_uint (v : Bytes) : ((v.map fun b => uint b.toNat).map List.length).sum = size v := by
  induction v with
  | nil => rfl
  | cons b v ih =>
    rw [List.map_cons, List.map_cons, List.sum_cons, ih, length_uint, uintSize_byte]
    simp only [size, high, List.countP_cons, List.length_cons, decide_eq_true_eq]
    omega

theorem length_bytes (v : Bytes) : (Wire.bytes v).length = headSize v.length + size v := by
  rw [Wire.bytes, length_array, sum_uint, List.length_map]

theorem headSize_array32 (v : Bytes32) : headSize v.bytes.length = 3 := by
  rw [v.len]
  rfl

/-- All of a message but its payload. -/
structure Envelope where
  msgId : UInt64
  senderId : Bytes32
  senderKey : Bytes32
  powProof : PowProof
  signature : Bytes
  clientMode : Bool

def Envelope.message (e : Envelope) (payload : Payload) : Message :=
  { Message.new e.msgId e.senderId e.senderKey e.powProof payload with
    signature := e.signature
    clientMode := e.clientMode }

/-- What the envelope takes on the wire. -/
def Envelope.size (e : Envelope) : Nat :=
  10 + uintSize e.msgId.toNat + Frames.size e.senderId.bytes + Frames.size e.senderKey.bytes +
    uintSize e.powProof.nonce.toNat + uintSize e.powProof.difficulty.toNat +
    headSize e.signature.length + Frames.size e.signature

theorem length_message (e : Envelope) (payload : Payload) :
    (e.message payload).toVec.length = e.size + payload.toVec.length := by
  have hversion : (uint (e.message payload).protocolVersion.toNat).length = 1 := rfl
  have height : headSize 8 = 1 := rfl
  have htwo : headSize 2 = 1 := rfl
  simp only [Message.toVec, length_array, List.map_cons, List.map_nil, List.sum_cons, List.sum_nil,
    List.length_cons, List.length_nil, hversion, length_bool]
  simp only [Envelope.message, Message.new, length_uint, length_bytes, headSize_array32,
    Envelope.size, height, htwo]
  omega

theorem length_putChunkRequest (hash : Hash) (data : Bytes) :
    (Payload.putChunkRequest hash data).toVec.length =
      21 + size hash.bytes + headSize data.length + size data := by
  have hname : (str "PutChunkRequest").length = 16 := rfl
  have htwo : headSize 2 = 1 := rfl
  simp only [Payload.toVec, length_single, length_array, List.map_cons, List.map_nil, List.sum_cons,
    List.sum_nil, List.length_cons, List.length_nil, length_bytes, headSize_array32, hname, htwo]
  omega

theorem length_getChunkResponse (data : Bytes) :
    (Payload.getChunkResponse data).toVec.length = 19 + headSize data.length + size data := by
  have hname : (str "GetChunkResponse").length = 17 := rfl
  have hone : headSize 1 = 1 := rfl
  simp only [Payload.toVec, length_single, length_array, List.map_cons, List.map_nil, List.sum_cons,
    List.sum_nil, List.length_cons, List.length_nil, length_bytes, hname, hone]
  omega

/-! ## Chunks -/

/-- A chunk fits into a request and a response just when its bytes, with those from 128 on counted
twice, leave room for the rest of both messages. -/
theorem chunk_fits_iff (data : Bytes) (hash : Hash) (put get : Envelope) :
    Fits (put.message (.putChunkRequest hash data)) ∧ Fits (get.message (.getChunkResponse data)) ↔
      data.length + high data + headSize data.length + size hash.bytes + put.size + 21 ≤
          maxMessageSize ∧
        data.length + high data + headSize data.length + get.size + 19 ≤ maxMessageSize := by
  have hput : (put.message (.putChunkRequest hash data)).toVec.length =
      data.length + high data + headSize data.length + size hash.bytes + put.size + 21 := by
    rw [length_message, length_putChunkRequest, size, size]
    omega
  have hget : (get.message (.getChunkResponse data)).toVec.length =
      data.length + high data + headSize data.length + get.size + 19 := by
    rw [length_message, length_getChunkResponse, size]
    omega
  rw [fits_iff, fits_iff, hput, hget]

theorem size_le (v : Bytes) : size v ≤ 2 * v.length := by
  have hhigh : high v ≤ v.length := List.countP_le_length
  rw [size]
  omega

theorem envelope_size_le {e : Envelope} (h : e.signature.length = 64) : e.size ≤ 289 := by
  have hid := size_le e.senderId.bytes
  have hkey := size_le e.senderKey.bytes
  have hsignature := size_le e.signature
  have hmsgId := uintSize_le e.msgId.toNat
  have hnonce := uintSize_le e.powProof.nonce.toNat
  have hdifficulty : uintSize e.powProof.difficulty.toNat ≤ 2 := by
    rw [uintSize_byte]
    split_ifs <;> omega
  have hhead : headSize 64 = 3 := rfl
  rw [e.senderId.len] at hid
  rw [e.senderKey.len] at hkey
  rw [h] at hsignature
  rw [Envelope.size, h, hhead]
  omega

/-- Every field as long as it can be. -/
def longest : Envelope :=
  ⟨0xffffffffffffffff, Bytes32.fill 0xff, Bytes32.fill 0xff, ⟨0xffffffffffffffff, 0xff⟩,
    List.replicate 64 0xff, false⟩

theorem longest_size : longest.size = 289 := by decide

/-- The chunks that fit whoever sends them. -/
theorem chunk_fits_always_iff (data : Bytes) :
    (∀ hash (put get : Envelope), put.signature.length = 64 → get.signature.length = 64 →
      Fits (put.message (.putChunkRequest hash data)) ∧
        Fits (get.message (.getChunkResponse data))) ↔
      data.length + high data + headSize data.length + 374 ≤ maxMessageSize := by
  constructor
  · intro h
    have hhash : size (Bytes32.fill 0xff).bytes = 64 := by decide
    have hfits := ((chunk_fits_iff data _ _ _).mp (h (Bytes32.fill 0xff) longest longest rfl rfl)).1
    rw [longest_size, hhash] at hfits
    omega
  · intro h hash put get hput hget
    have hsize := envelope_size_le hput
    have hsize' := envelope_size_le hget
    have hhash := size_le hash.bytes
    rw [hash.len] at hhash
    exact (chunk_fits_iff data hash put get).mpr ⟨by omega, by omega⟩

/-- A chunk of 4 MiB without a zero bit: the store takes it, and no message can carry it, whoever
sends it. -/
theorem chunk_of_ones_is_too_large :
    let data : Bytes := List.replicate maxChunkSize 0xff
    data.length ≤ maxChunkSize ∧ ∀ e : Envelope,
      writeMessage (e.message (.putChunkRequest (Sha256.digest data) data)).toVec =
        .error (.network "outbound message too large") ∧
      writeMessage (e.message (.getChunkResponse data)).toVec =
        .error (.network "outbound message too large") ∧
      ¬ Fits (e.message (.putChunkRequest (Sha256.digest data) data)) := by
  intro data
  have hlen : data.length = maxChunkSize := List.length_replicate
  have hhigh : high data = maxChunkSize := by
    rw [high, List.countP_replicate, if_pos (by decide)]
  refine ⟨hlen.le, fun e => ?_⟩
  have hput : maxMessageSize < (e.message (.putChunkRequest (Sha256.digest data) data)).toVec.length := by
    rw [length_message, length_putChunkRequest, size, size, hlen, hhigh]
    unfold maxMessageSize maxChunkSize
    omega
  have hget : maxMessageSize < (e.message (.getChunkResponse data)).toVec.length := by
    rw [length_message, length_getChunkResponse, size, hlen, hhigh]
    unfold maxMessageSize maxChunkSize
    omega
  refine ⟨?_, ?_, ?_⟩
  · rw [writeMessage, if_pos hput]
  · rw [writeMessage, if_pos hget]
  · rw [fits_iff]
    omega

end TesserasDht.Frames
