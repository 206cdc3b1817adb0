import TesserasDht.Code.Serde
import TesserasDht.Code.Wire

/-!
# Messages as values

What `serde` derives for the types of `src/protocol/message.rs`, with a `SocketAddr` in its compact
form. A struct is written as an array of its fields, a variant without fields as its name and any
other as a map from its name to its fields.
-/

open Lib.Formats Lib.MessagePack

namespace TesserasDht

namespace Serde

/-! ## Writing -/

def text (s : String) : List UInt8 := s.toUTF8.data.toList

def ofArray32 (v : Bytes32) : Value := ofBytes v.bytes

def ofWord16 (x : UInt16) : Value := .uint x.toUInt64

def ofByte (x : UInt8) : Value := .uint x.toUInt64

def ofList {α : Type} (write : α → Value) (l : List α) : Value := .array (l.map write)

/-- A variant with fields. -/
def variant (name : String) (content : Value) : Value := .map [(text name, content)]

def fields (name : String) (fs : List Value) : Value := variant name (.array fs)

/-! ## Reading -/

def toText (bytes : List UInt8) : Option String := String.fromUTF8? ⟨bytes.toArray⟩

def toStr : Value → Option String
  | .str bytes => toText bytes
  | _ => none

def toFlag : Value → Option Bool
  | .bool b => some b
  | _ => none

def toFixed32 (v : Value) : Option Bytes32 := (toBytes v).bind toArray32

def toWord16 : Value → Option UInt16
  | .uint n => if n.toNat < 65536 then some n.toUInt16 else none
  | _ => none

def toList {α : Type} (read : Value → Option α) : Value → Option (List α)
  | .array xs => xs.mapM read
  | _ => none

def toOption {α : Type} (read : Value → Option α) : Value → Option (Option α)
  | .nil => some none
  | v => (read v).map some

/-- The variant that a value names, and its content. A variant without content may be its name alone. -/
def toVariant : Value → Option (String × Value)
  | .str name => (toText name).map fun name => (name, .nil)
  | .map [(name, content)] => (toText name).map fun name => (name, content)
  | _ => none

/-- `field` for a name of any length. -/
def namedField (v : Value) (count i : Nat) (n : String) : Option (Option Value) :=
  match v with
  | .array xs => if xs.length ≤ count then some xs[i]? else none
  | .map xs =>
    match xs.filter fun x => x.1 = text n with
    | [] => some none
    | [x] => some (some x.2)
    | _ => none
  | _ => none

end Serde

open Serde

/-! ## Addresses and nodes -/

def Ipv6Addr.octets (ip : Ipv6Addr) : Bytes := ip.segments.flatMap fun x => bigEndian 2 x.toNat

/-- The words of big-endian bytes. -/
def segmentsOf : Bytes → List UInt16
  | hi :: lo :: rest => UInt16.ofNat (ofBigEndian [hi, lo]) :: segmentsOf rest
  | _ => []

theorem length_segmentsOf (v : Bytes) : (segmentsOf v).length = v.length / 2 := by
  fun_induction segmentsOf v with
  | case1 hi lo rest ih =>
    simp only [List.length_cons, ih]
    omega
  | case2 v h =>
    match v with
    | [] => rfl
    | [_] => simp
    | hi :: lo :: rest => exact absurd rfl (h hi lo rest)

def Ipv6Addr.fromOctets (v : Bytes) : Option Ipv6Addr :=
  if h : v.length = 16 then some ⟨segmentsOf v, by rw [length_segmentsOf, h]⟩ else none

def SocketAddr.toValue : SocketAddr → Value
  | .v4 a b c d port => fields "V4" [ofBytes [a, b, c, d], ofWord16 port]
  | .v6 ip port _ _ => fields "V6" [ofBytes ip.octets, ofWord16 port]

def SocketAddr.fromValue (v : Value) : Option SocketAddr := do
  match ← toVariant v with
  | ("V4", .array [ip, port]) =>
    match ← toBytes ip with
    | [a, b, c, d] => return .v4 a b c d (← toWord16 port)
    | _ => none
  | ("V6", .array [ip, port]) =>
    return .v6 (← Ipv6Addr.fromOctets (← toBytes ip)) (← toWord16 port) 0 0
  | _ => none

def NodeInfoSerde.toValue (n : NodeInfoSerde) : Value :=
  .array [ofArray32 n.nodeId, ofArray32 n.publicKey, ofList SocketAddr.toValue n.addresses]

def NodeInfoSerde.fromValue (v : Value) : Option NodeInfoSerde := do
  let nodeId ← required toFixed32 (← namedField v 3 0 "node_id")
  let publicKey ← required toFixed32 (← namedField v 3 1 "public_key")
  let addresses ← required (toList SocketAddr.fromValue) (← namedField v 3 2 "addresses")
  return { nodeId, publicKey, addresses }

def PowProof.toValue (p : PowProof) : Value := .array [.uint p.nonce, ofByte p.difficulty]

def PowProof.fromValue (v : Value) : Option PowProof := do
  let nonce ← required toWord (← namedField v 2 0 "nonce")
  let difficulty ← required toByte (← namedField v 2 1 "difficulty")
  return { nonce, difficulty }

/-! ## Payloads -/

def Payload.toValue : Payload → Value
  | .pingRequest => .str (text "PingRequest")
  | .findNodeRequest target => fields "FindNodeRequest" [ofArray32 target]
  | .getProvidersRequest key => fields "GetProvidersRequest" [ofArray32 key]
  | .addProviderRequest key addrs =>
    fields "AddProviderRequest" [ofArray32 key, ofList SocketAddr.toValue addrs]
  | .getChunkRequest hash => fields "GetChunkRequest" [ofArray32 hash]
  | .putChunkRequest hash data => fields "PutChunkRequest" [ofArray32 hash, ofBytes data]
  | .relayRequest targetId payload hops =>
    fields "RelayRequest" [ofArray32 targetId, ofBytes payload, ofByte hops]
  | .connectRequest addrs id key =>
    fields "ConnectRequest" [ofList SocketAddr.toValue addrs, ofArray32 id, ofArray32 key]
  | .pingResponse observed => fields "PingResponse" [observed.elim .nil SocketAddr.toValue]
  | .findNodeResponse nodes => fields "FindNodeResponse" [ofList NodeInfoSerde.toValue nodes]
  | .getProvidersResponse providers closer =>
    fields "GetProvidersResponse"
      [ofList NodeInfoSerde.toValue providers, ofList NodeInfoSerde.toValue closer]
  | .addProviderResponse ok => fields "AddProviderResponse" [.bool ok]
  | .getChunkResponse data => fields "GetChunkResponse" [ofBytes data]
  | .putChunkResponse ok => fields "PutChunkResponse" [.bool ok]
  | .relayResponse ok payload => fields "RelayResponse" [.bool ok, ofBytes payload]
  | .connectResponse ok => fields "ConnectResponse" [.bool ok]
  | .error code message => fields "Error" [ofWord16 code, .str (text message)]

/-- The content of the variant of a name. -/
def Payload.fromContent (v : Value) : String → Option Payload
  | "PingRequest" => match v with
    | .nil => some .pingRequest
    | _ => none
  | "FindNodeRequest" => do
    return .findNodeRequest (← required toFixed32 (← namedField v 1 0 "target"))
  | "GetProvidersRequest" => do
    return .getProvidersRequest (← required toFixed32 (← namedField v 1 0 "key"))
  | "AddProviderRequest" => do
    let key ← required toFixed32 (← namedField v 2 0 "key")
    let addrs ← required (toList SocketAddr.fromValue) (← namedField v 2 1 "addresses")
    return .addProviderRequest key addrs
  | "GetChunkRequest" => do
    return .getChunkRequest (← required toFixed32 (← namedField v 1 0 "chunk_hash"))
  | "PutChunkRequest" => do
    let hash ← required toFixed32 (← namedField v 2 0 "chunk_hash")
    let data ← required toBytes (← namedField v 2 1 "data")
    return .putChunkRequest hash data
  | "RelayRequest" => do
    let targetId ← required toFixed32 (← namedField v 3 0 "target_id")
    let payload ← required toBytes (← namedField v 3 1 "payload")
    let hops ← defaulted 0 toByte (← namedField v 3 2 "relay_hops")
    return .relayRequest targetId payload hops
  | "ConnectRequest" => do
    let addrs ← required (toList SocketAddr.fromValue) (← namedField v 3 0 "requester_addrs")
    let id ← required toFixed32 (← namedField v 3 1 "requester_id")
    let key ← required toFixed32 (← namedField v 3 2 "requester_key")
    return .connectRequest addrs id key
  | "PingResponse" => do
    return .pingResponse
      (← defaulted none (toOption SocketAddr.fromValue) (← namedField v 1 0 "observed_addr"))
  | "FindNodeResponse" => do
    return .findNodeResponse (← required (toList NodeInfoSerde.fromValue) (← namedField v 1 0 "nodes"))
  | "GetProvidersResponse" => do
    let providers ← required (toList NodeInfoSerde.fromValue) (← namedField v 2 0 "providers")
    let closer ← required (toList NodeInfoSerde.fromValue) (← namedField v 2 1 "closer_nodes")
    return .getProvidersResponse providers closer
  | "AddProviderResponse" => do
    return .addProviderResponse (← required toFlag (← namedField v 1 0 "ok"))
  | "GetChunkResponse" => do
    return .getChunkResponse (← required toBytes (← namedField v 1 0 "data"))
  | "PutChunkResponse" => do
    return .putChunkResponse (← required toFlag (← namedField v 1 0 "ok"))
  | "RelayResponse" => do
    let ok ← required toFlag (← namedField v 2 0 "ok")
    let payload ← required toBytes (← namedField v 2 1 "payload")
    return .relayResponse ok payload
  | "ConnectResponse" => do
    return .connectResponse (← required toFlag (← namedField v 1 0 "ok"))
  | "Error" => do
    let code ← required toWord16 (← namedField v 2 0 "code")
    let message ← required toStr (← namedField v 2 1 "message")
    return .error code message
  | _ => none

def Payload.fromValue (v : Value) : Option Payload := do
  let (name, content) ← toVariant v
  Payload.fromContent content name

/-! ## The envelope -/

def Message.toValue (m : Message) : Value :=
  .array [.uint m.msgId, ofArray32 m.senderId, ofArray32 m.senderKey, m.powProof.toValue,
    m.payload.toValue, ofBytes m.signature, .bool m.clientMode, ofByte m.protocolVersion]

def Message.fromValue (v : Value) : Option Message := do
  let msgId ← required toWord (← namedField v 8 0 "msg_id")
  let senderId ← required toFixed32 (← namedField v 8 1 "sender_id")
  let senderKey ← required toFixed32 (← namedField v 8 2 "sender_key")
  let powProof ← required PowProof.fromValue (← namedField v 8 3 "pow_proof")
  let payload ← required Payload.fromValue (← namedField v 8 4 "payload")
  let signature ← defaulted [] toBytes (← namedField v 8 5 "signature")
  let clientMode ← defaulted false toFlag (← namedField v 8 6 "client_mode")
  let protocolVersion ← defaulted TesserasDht.protocolVersion toByte
    (← namedField v 8 7 "protocol_version")
  return { msgId, senderId, senderKey, powProof, payload, signature, clientMode, protocolVersion }

/-! ## Bytes -/

namespace Serde

def toVec (S : Serde) (m : Message) : Bytes := S.encode m.toValue

def fromBytes (S : Serde) (bytes : Bytes) : Except String Message := S.fromSlice Message.fromValue bytes

/-- The crates, with the messages of this `serde`. -/
def messageCrates (S : Serde) (others : Crates) : Crates :=
  { others with
    encodePayload := fun p => some (S.encode p.toValue)
    toBytes := fun m => some (S.toVec m)
    fromBytes := fun bytes => (S.fromBytes bytes).toOption }

end Serde

end TesserasDht
