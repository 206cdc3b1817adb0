import TesserasDht.Lib.Formats
import TesserasDht.Code.Routing

/-!
# Messages

`src/protocol/message.rs`, `src/identity/keypair.rs` and `src/identity/pow.rs`. Hashing, signing and
MessagePack are parameters.
-/

open Lib.Formats

namespace TesserasDht

def protocolVersion : UInt8 := 1

structure PowProof where
  nonce : UInt64
  difficulty : UInt8
deriving DecidableEq, Repr

structure NodeInfoSerde where
  nodeId : Bytes32
  publicKey : Bytes32
  addresses : List SocketAddr
deriving DecidableEq, Repr

inductive Payload
  | pingRequest
  | findNodeRequest (target : Bytes32)
  | getProvidersRequest (key : Hash)
  | addProviderRequest (key : Hash) (addresses : List SocketAddr)
  | getChunkRequest (chunkHash : Hash)
  | putChunkRequest (chunkHash : Hash) (data : Bytes)
  | relayRequest (targetId : Bytes32) (payload : Bytes) (relayHops : UInt8)
  | connectRequest (requesterAddrs : List SocketAddr) (requesterId requesterKey : Bytes32)
  | pingResponse (observedAddr : Option SocketAddr)
  | findNodeResponse (nodes : List NodeInfoSerde)
  | getProvidersResponse (providers closerNodes : List NodeInfoSerde)
  | addProviderResponse (ok : Bool)
  | getChunkResponse (data : Bytes)
  | putChunkResponse (ok : Bool)
  | relayResponse (ok : Bool) (payload : Bytes)
  | connectResponse (ok : Bool)
  | error (code : UInt16) (message : String)
deriving DecidableEq, Repr

structure Message where
  msgId : UInt64
  senderId : Bytes32
  senderKey : Bytes32
  powProof : PowProof
  payload : Payload
  signature : Bytes
  clientMode : Bool
  protocolVersion : UInt8
deriving DecidableEq, Repr

def Payload.isRelayRequest : Payload → Bool
  | .relayRequest _ _ _ => true
  | _ => false

/-- `sha2`, `ed25519-dalek` and `rmp-serde`. -/
structure Crates where
  sha256 : Bytes → Hash
  /-- `VerifyingKey::from_bytes` accepts the key. -/
  validKey : Bytes32 → Bool
  /-- `VerifyingKey::verify` accepts the signature. -/
  verify : (key : Bytes32) → (message signature : Bytes) → Bool
  publicKey : (secret : Bytes32) → Bytes32
  sign : (secret : Bytes32) → (message : Bytes) → Bytes
  /-- `rmp_serde::to_vec` of a payload. -/
  encodePayload : Payload → Option Bytes
  toBytes : Message → Option Bytes
  fromBytes : Bytes → Option Message

/-! ## Identity and proof of work -/

def deriveNodeId (sha256 : Bytes → Hash) (publicKey : Bytes32) : NodeId :=
  NodeId.fromBytes (sha256 publicKey.bytes)

def verifyNodeId (sha256 : Bytes → Hash) (nodeId : NodeId) (publicKey : Bytes32) : Bool :=
  nodeId = deriveNodeId sha256 publicKey

/-- The loop of `leading_zero_bits`, from byte `i` on. -/
def leadingZeroBitsFrom (i : Nat) : Bytes → Nat
  | [] => i * 8
  | b :: bs => if b ≠ 0 then i * 8 + leadingZeros8 b else leadingZeroBitsFrom (i + 1) bs

def leadingZeroBits (data : Bytes) : Nat := leadingZeroBitsFrom 0 data

def verifyPowHash (sha256 : Bytes → Hash) (publicKey : Bytes32) (nonce : UInt64) (difficulty : UInt8) :
    Bool :=
  difficulty.toNat ≤
    leadingZeroBits (sha256 (publicKey.bytes ++ (bigEndian 8 nonce.toNat).reverse)).bytes

def PowProof.verifyWithMinDifficulty (sha256 : Bytes → Hash) (p : PowProof) (publicKey : Bytes32)
    (minDifficulty : UInt8) : Bool :=
  minDifficulty ≤ p.difficulty && verifyPowHash sha256 publicKey p.nonce p.difficulty

/-! ## The envelope -/

namespace Message

/-- `msg_id` is random. -/
def new (msgId : UInt64) (senderId senderKey : Bytes32) (powProof : PowProof) (payload : Payload) :
    Message :=
  { msgId, senderId, senderKey, powProof, payload, signature := [], clientMode := false,
    protocolVersion := TesserasDht.protocolVersion }

def response (m : Message) (senderId senderKey : Bytes32) (powProof : PowProof) (payload : Payload) :
    Message :=
  { msgId := m.msgId, senderId, senderKey, powProof, payload, signature := [], clientMode := false,
    protocolVersion := TesserasDht.protocolVersion }

/-- `msg_id || sender_id || serialized_payload`. -/
def signingBytes (crates : Crates) (m : Message) : Option Bytes :=
  (crates.encodePayload m.payload).map fun payloadBytes =>
    bigEndian 8 m.msgId.toNat ++ m.senderId.bytes ++ payloadBytes

def sign (crates : Crates) (secret : Bytes32) (m : Message) : Message :=
  match m.signingBytes crates with
  | some bytes => { m with signature := crates.sign secret bytes }
  | none => m

def verifySignature (crates : Crates) (m : Message) : Bool :=
  if m.signature.length ≠ 64 then
    false
  else if !crates.validKey m.senderKey then
    false
  else
    match m.signingBytes crates with
    | some bytes => crates.verify m.senderKey bytes m.signature
    | none => false

end Message

end TesserasDht
