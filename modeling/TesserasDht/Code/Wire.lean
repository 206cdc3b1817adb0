import TesserasDht.Code.Message

/-!
# The bytes of messages

What `rmp_serde::to_vec` writes for the types of `src/protocol/message.rs`. A struct is an array of
its fields, and so are a `[u8; 32]` and a `Vec<u8>`. A variant without fields is its name, any other
a map from its name to its fields.
-/

open Lib.Formats

namespace TesserasDht

namespace Wire

def bytes (v : Bytes) : Bytes := array (v.map fun x => uint x.toNat)

/-- The flow info and the scope of an IPv6 address are not written. -/
def socketAddr : SocketAddr → Bytes
  | .v4 a b c d port => single "V4" (array [bytes [a, b, c, d], uint port.toNat])
  | .v6 ip port _ _ => single "V6" (array [bytes (ip.segments.flatMap fun x => bigEndian 2 x.toNat),
      uint port.toNat])

def addresses (l : List SocketAddr) : Bytes := array (l.map socketAddr)

def nodeInfo (n : NodeInfoSerde) : Bytes :=
  array [bytes n.nodeId.bytes, bytes n.publicKey.bytes, addresses n.addresses]

def nodes (l : List NodeInfoSerde) : Bytes := array (l.map nodeInfo)

end Wire

open Wire in
def Payload.toVec : Payload → Bytes
  | .pingRequest => str "PingRequest"
  | .findNodeRequest target => single "FindNodeRequest" (array [bytes target.bytes])
  | .getProvidersRequest key => single "GetProvidersRequest" (array [bytes key.bytes])
  | .addProviderRequest key addrs => single "AddProviderRequest" (array [bytes key.bytes, addresses addrs])
  | .getChunkRequest hash => single "GetChunkRequest" (array [bytes hash.bytes])
  | .putChunkRequest hash data => single "PutChunkRequest" (array [bytes hash.bytes, bytes data])
  | .relayRequest targetId payload hops =>
    single "RelayRequest" (array [bytes targetId.bytes, bytes payload, uint hops.toNat])
  | .connectRequest addrs id key =>
    single "ConnectRequest" (array [addresses addrs, bytes id.bytes, bytes key.bytes])
  | .pingResponse observed => single "PingResponse" (array [observed.elim nil socketAddr])
  | .findNodeResponse ns => single "FindNodeResponse" (array [nodes ns])
  | .getProvidersResponse providers closer =>
    single "GetProvidersResponse" (array [nodes providers, nodes closer])
  | .addProviderResponse ok => single "AddProviderResponse" (array [bool ok])
  | .getChunkResponse data => single "GetChunkResponse" (array [bytes data])
  | .putChunkResponse ok => single "PutChunkResponse" (array [bool ok])
  | .relayResponse ok payload => single "RelayResponse" (array [bool ok, bytes payload])
  | .connectResponse ok => single "ConnectResponse" (array [bool ok])
  | .error code message => single "Error" (array [uint code.toNat, str message])

open Wire in
def Message.toVec (m : Message) : Bytes :=
  array [uint m.msgId.toNat, bytes m.senderId.bytes, bytes m.senderKey.bytes,
    array [uint m.powProof.nonce.toNat, uint m.powProof.difficulty.toNat], m.payload.toVec,
    bytes m.signature, bool m.clientMode, uint m.protocolVersion.toNat]

/-! ## What is read back -/

def SocketAddr.onWire : SocketAddr → SocketAddr
  | .v6 ip port _ _ => .v6 ip port 0 0
  | addr => addr

def NodeInfoSerde.onWire (n : NodeInfoSerde) : NodeInfoSerde :=
  { n with addresses := n.addresses.map SocketAddr.onWire }

def Payload.onWire : Payload → Payload
  | .addProviderRequest key addrs => .addProviderRequest key (addrs.map SocketAddr.onWire)
  | .connectRequest addrs id key => .connectRequest (addrs.map SocketAddr.onWire) id key
  | .pingResponse observed => .pingResponse (observed.map SocketAddr.onWire)
  | .findNodeResponse nodes => .findNodeResponse (nodes.map NodeInfoSerde.onWire)
  | .getProvidersResponse providers closer =>
    .getProvidersResponse (providers.map NodeInfoSerde.onWire) (closer.map NodeInfoSerde.onWire)
  | p => p

def Message.onWire (m : Message) : Message := { m with payload := m.payload.onWire }

/-- A key pair and its signatures. -/
structure Signer where
  secret : Bytes32
  publicKey : Bytes32
  signatures : List (Bytes × Bytes)

/-- The crates, on the keys and signatures of the given signers and on the encodings of the given
messages only. -/
def Crates.knowing (signers : List Signer) (messages : List Message) : Crates where
  sha256 := Sha256.digest
  validKey key := signers.any fun s => s.publicKey = key
  verify key msg sig := signers.any fun s => s.publicKey = key ∧ (msg, sig) ∈ s.signatures
  publicKey secret := ((signers.find? fun s => s.secret = secret).map Signer.publicKey).getD secret
  sign secret msg := (((signers.find? fun s => s.secret = secret).bind fun s =>
    s.signatures.lookup msg).getD [])
  encodePayload p := some p.toVec
  toBytes m := some m.toVec
  fromBytes bytes := messages.find? fun m => m.toVec = bytes

end TesserasDht
